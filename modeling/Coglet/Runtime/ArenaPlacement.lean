import Coglet.Runtime.Arena

open StructLayout Alignment

namespace Coglet.Runtime

namespace ArenaBlock

structure Valid (block : ArenaBlock) : Prop where
  address  : block.address ≠ 0#64
  total    : block.allocationSize.toNat = 32 + block.capacity.toNat
  stop     : block.address.toNat + block.allocationSize.toNat ≤ 2 ^ 64
  capacity : 0 < block.capacity.toNat
  used     : block.used.toNat ≤ block.capacity.toNat

variable {block : ArenaBlock} {used : SizeT}

theorem Valid.toNat_base (h : block.Valid) : block.base.toNat = block.address.toNat + 32 := by
  have := h.total
  have := h.stop
  have := h.capacity
  rw [base, BitVec.toNat_add, show sizeofArenaBlock.toNat = 32 from rfl]
  omega

theorem Valid.payload_within (h : block.Valid) : block.payload.Within block.region := by
  have ht := h.total
  have hb := h.toNat_base
  constructor
  · exact Nat.le.intro hb.symm
  · have hs : block.payload.stop = block.base.toNat + block.capacity.toNat := rfl
    have hr : block.region.stop = block.address.toNat + block.allocationSize.toNat := rfl
    omega

theorem Valid.setUsed (h : block.Valid) (hu : used.toNat ≤ block.capacity.toNat) : { block with used }.Valid :=
  ⟨h.address, h.total, h.stop, h.capacity, hu⟩

-- The address of the first unused byte.
def bump (block : ArenaBlock) : Nat :=
  block.base.toNat + block.used.toNat

end ArenaBlock

namespace Arena

variable {arena arena' : Arena} {allocate : Allocate} {size alignment : SizeT} {result : Uintptr}
  {block : ArenaBlock} {blocks blocks' : List ArenaBlock}

section Place

theorem guard_iff {aligned base capacity : SizeT} :
    base ≤ aligned ∧ size ≤ capacity ∧ aligned - base ≤ capacity - size ↔
      base ≤ aligned ∧ (aligned - base).toNat + size.toNat ≤ capacity.toNat := by
  refine and_congr_right fun _ => ?_
  by_cases h : size ≤ capacity
  case pos =>
    have hd := BitVec.toNat_sub_of_le h
    rw [BitVec.le_def] at h
    rw [BitVec.le_def, BitVec.le_def, hd]
    omega
  case neg =>
    rw [BitVec.le_def] at h
    simp only [BitVec.le_def, h, false_and, false_iff]
    omega

-- The walk takes the first block that has enough space.
theorem place_eq_some (hb : ∀ block ∈ blocks, block.Valid) (ha : alignment.toNat.isPowerOfTwo) (hs : 0 < size.toNat)
    {current : Uintptr} (h : place size alignment blocks = some (result, current, blocks')) :
    ∃ before block after used, blocks = before ++ block :: after ∧ blocks' = before ++ { block with used } :: after ∧
      current = block.address ∧ result.toNat = roundUp block.bump alignment.toNat ∧
      result.toNat + size.toNat = block.base.toNat + used.toNat ∧ used.toNat ≤ block.capacity.toNat := by
  induction blocks generalizing blocks'
  case nil => cases h
  case cons block next hi =>
    obtain ⟨hv, hnext⟩ := List.forall_mem_cons.mp hb
    have hbase := hv.toNat_base
    have htotal := hv.total
    have hstop := hv.stop
    have hpos : 0 < block.base.toNat := hbase ▸ Nat.succ_pos _
    have hend : block.base.toNat + block.capacity.toNat ≤ 2 ^ 64 := by omega
    have hf := alignUp_fits_iff ha hpos hend hv.used hs
    rw [place] at h
    simp only [guard_iff, hf] at h
    split at h
    case isTrue hfit =>
      cases h
      have hl : roundUp (block.base.toNat + block.used.toNat) alignment.toNat < 2 ^ 64 := by omega
      have hle : block.base.toNat ≤ roundUp (block.base.toNat + block.used.toNat) alignment.toNat :=
        (Nat.le_add_right _ _).trans (le_roundUp (Nat.pos_of_isPowerOfTwo ha))
      obtain ⟨hr, hd⟩ := toNat_alignUp_add ha hl
      have hu : (alignUp (block.base + block.used) alignment - block.base + size).toNat =
          roundUp (block.base.toNat + block.used.toNat) alignment.toNat - block.base.toNat + size.toNat := by
        rw [BitVec.toNat_add, hd]
        omega
      exact ⟨[], block, next, _, rfl, rfl, rfl, hr, by omega, by omega⟩
    case isFalse =>
      obtain ⟨⟨result', current', next'⟩, hp, he⟩ := Option.map_eq_some_iff.mp h
      cases he
      obtain ⟨before, block', after, used, rfl, rfl, hrest⟩ := hi hnext hp
      exact ⟨block :: before, block', after, used, rfl, rfl, hrest⟩

end Place

section NewBlock

theorem neededPayload_eq {needed : SizeT} (ha : 1 < alignment.toNat) (h : neededPayload size alignment = some needed) :
    needed.toNat = size.toNat + (alignment.toNat - 1) := by
  have h1 : (1#64).toNat = 1 := rfl
  have hsub := toNat_sub_one (Nat.lt_trans Nat.zero_lt_one ha)
  have hm : (SIZE_MAX - (alignment - 1#64)).toNat = 2 ^ 64 - 1 - (alignment.toNat - 1) := by
    have := alignment.isLt
    rw [BitVec.toNat_sub_of_le (BitVec.le_def.mpr (by rw [hsub, show SIZE_MAX.toNat = 2 ^ 64 - 1 from rfl]; omega)), hsub]
    rfl
  rw [neededPayload, if_pos (BitVec.lt_def.mpr (h1 ▸ ha))] at h
  split at h
  case isTrue => cases h
  case isFalse hn =>
    cases h
    rw [BitVec.lt_def, hm] at hn
    have := size.isLt
    have := alignment.isLt
    rw [BitVec.toNat_add, hsub]
    omega

theorem newBlock_eq_some (ha : 1 < alignment.toNat) (h : arena.newBlock allocate size alignment = some block) :
    block.address = allocate block.allocationSize sizeofPointer ∧ block.address ≠ 0#64 ∧ block.used = 0#64 ∧
    block.allocationSize.toNat = 32 + block.capacity.toNat ∧
    size.toNat + (alignment.toNat - 1) ≤ block.capacity.toNat := by
  obtain ⟨needed, hn, h⟩ := Option.bind_eq_some_iff.mp h
  have hneeded := neededPayload_eq ha hn
  simp only [Option.ite_none_left_eq_some, Option.some_inj, BitVec.not_lt, BitVec.le_def] at h
  obtain ⟨hmax, hne, rfl⟩ := h
  have h32 : sizeofArenaBlock.toNat = 32 := rfl
  have hle : needed.toNat ≤ (if arena.blockSize < needed then needed else arena.blockSize).toNat := by
    split
    case isTrue => exact Nat.le_refl _
    case isFalse hlt => exact Nat.le_of_not_lt fun hl => hlt hl
  refine ⟨rfl, hne, rfl, ?_, hneeded ▸ hle⟩
  rw [BitVec.toNat_sub_of_le (by decide), show SIZE_MAX.toNat = 2 ^ 64 - 1 from rfl, h32] at hmax
  simp only [BitVec.toNat_add, h32]
  omega

end NewBlock

end Arena

end Coglet.Runtime
