import Coglet.Runtime.Debug

open StructLayout Alignment

namespace Coglet.Runtime

namespace DebugBlock

structure Valid (block : DebugBlock) : Prop where
  address   : 0 < block.address.toNat
  stop      : block.address.toNat + block.totalSize.toNat ≤ 2 ^ 64
  size      : 0 < block.size.toNat
  front     : block.address.toNat + 72 ≤ block.user.toNat
  back      : block.user.toNat + block.size.toNat + 16 ≤ block.address.toNat + block.totalSize.toNat
  aligned   : block.alignment.toNat ∣ block.user.toNat

variable {block : DebugBlock} {memory : Memory} {guard : Uintptr}

theorem Valid.toNat_frontGuard (h : block.Valid) : block.frontGuard.toNat = block.user.toNat - 16 := by
  have := h.front
  rw [frontGuard, BitVec.toNat_sub_of_le (BitVec.le_def.mpr (by rw [show debugGuardSize.toNat = 16 from rfl]; omega))]
  rfl

theorem Valid.toNat_backGuard (h : block.Valid) : block.backGuard.toNat = block.user.toNat + block.size.toNat := by
  have := h.stop
  have := h.back
  rw [backGuard, BitVec.toNat_add]
  omega

-- The parts of a block.
def parts (block : DebugBlock) : List Region :=
  [block.headerRegion, block.frontRegion, block.userRegion, block.backRegion]

theorem Valid.layout (h : block.Valid) : block.parts.Pairwise Region.Disjoint ∧ ∀ part ∈ block.parts, part.Within block.region := by
  have hfront := h.toNat_frontGuard
  have hback := h.toNat_backGuard
  have := h.front
  have := h.back
  have h1 : block.headerRegion.stop = block.address.toNat + 56 := rfl
  have h2 : block.frontRegion.stop = block.frontGuard.toNat + 16 := rfl
  have h3 : block.userRegion.stop = block.user.toNat + block.size.toNat := rfl
  have h4 : block.backRegion.stop = block.backGuard.toNat + 16 := rfl
  have h5 : block.region.stop = block.address.toNat + block.totalSize.toNat := rfl
  have h6 : block.headerRegion.start = block.address.toNat := rfl
  have h7 : block.frontRegion.start = block.frontGuard.toNat := rfl
  have h8 : block.userRegion.start = block.user.toNat := rfl
  have h9 : block.backRegion.start = block.backGuard.toNat := rfl
  have h10 : block.region.start = block.address.toNat := rfl
  simp only [parts, List.pairwise_cons, List.forall_mem_cons, List.not_mem_nil, false_implies, implies_true, List.Pairwise.nil,
    and_true, Region.Disjoint, Region.Within]
  omega

theorem guardIntact_iff (h : guard.toNat + 16 ≤ 2 ^ 64) : guardIntact memory guard ↔
    ∀ address : Uintptr, (Runtime.region guard debugGuardSize).Contains address.toNat → memory address = debugGuardByte := by
  have hsize : debugGuardSize.toNat = 16 := rfl
  simp only [guardIntact, List.all_eq_true, List.mem_range, decide_eq_true_eq, hsize]
  constructor
  case mp =>
    intro hi address ⟨hle, hlt⟩
    have hstop : (Runtime.region guard debugGuardSize).stop = guard.toNat + 16 := rfl
    have hstart : (Runtime.region guard debugGuardSize).start = guard.toNat := rfl
    have he : guard + BitVec.ofNat 64 (address.toNat - guard.toNat) = address := by
      apply BitVec.eq_of_toNat_eq
      rw [BitVec.toNat_add, BitVec.toNat_ofNat]
      omega
    rw [← he]
    exact hi _ (by omega)
  case mpr =>
    intro ha i hi
    have he : (guard + BitVec.ofNat 64 i).toNat = guard.toNat + i := by
      rw [BitVec.toNat_add, BitVec.toNat_ofNat]
      omega
    refine ha _ ⟨?_, ?_⟩ <;> rw [he]
    case refine_1 => exact Nat.le_add_right _ _
    case refine_2 => exact Nat.add_lt_add_left hi _

theorem Valid.intact_iff (h : block.Valid) : block.intact memory ↔ ∀ address : Uintptr,
    block.frontRegion.Contains address.toNat ∨ block.backRegion.Contains address.toNat → memory address = debugGuardByte := by
  have hfront := h.toNat_frontGuard
  have hback := h.toNat_backGuard
  have := h.front
  have := h.back
  have := h.stop
  rw [intact, Bool.and_eq_true, guardIntact_iff (by omega), guardIntact_iff (by omega)]
  simp only [or_imp, forall_and]
  rfl

end DebugBlock

namespace DebugAllocator

variable {pointer : Uintptr} {previous : Option DebugBlock} {block : DebugBlock} {blocks before after : List DebugBlock}

theorem find_eq_none : find pointer previous blocks = none ↔ ∀ block ∈ blocks, block.user ≠ pointer := by
  induction blocks generalizing previous
  case nil => simp [find]
  case cons block next hi =>
    rw [find, List.forall_mem_cons]
    split
    case isTrue h => simp [h]
    case isFalse h => simp [h, hi]

theorem find_eq_some {found : Option DebugBlock} (h : find pointer previous blocks = some (found, block)) :
    ∃ before after, blocks = before ++ block :: after ∧ block.user = pointer ∧ found = before.getLast?.or previous := by
  induction blocks generalizing previous
  case nil => cases h
  case cons b next hi =>
    rw [find] at h
    split at h
    case isTrue hu =>
      cases h
      exact ⟨[], next, rfl, hu, rfl⟩
    case isFalse =>
      obtain ⟨before, after, rfl, hu, rfl⟩ := hi h
      refine ⟨b :: before, after, rfl, hu, ?_⟩
      rw [List.getLast?_cons]
      cases before.getLast? <;> rfl

theorem unlink_getLast? (h : (before.map (·.address)).Nodup) :
    unlink before.getLast? (before ++ block :: after) = before ++ after := by
  induction before
  case nil => rfl
  case cons b next hi =>
    rw [List.map_cons, List.nodup_cons] at h
    obtain ⟨hb, hn⟩ := h
    cases hl : next.getLast?
    case none =>
      rw [List.getLast?_eq_none_iff.mp hl]
      simp [unlink]
    case some last =>
      have hne : b.address ≠ last.address := fun he =>
        hb (he ▸ List.mem_map_of_mem (List.mem_of_getLast? hl))
      have hcons : (b :: next).getLast? = some last := by rw [List.getLast?_cons, hl]; rfl
      rw [hcons, List.cons_append, unlink, if_neg hne, ← hl, hi hn]
      rfl

theorem total_eq_some {size alignment result : SizeT} (ha : 8 ≤ alignment.toNat) (h : total size alignment = some result) :
    result.toNat = 72 + (alignment.toNat - 1) + size.toNat + 16 := by
  have hsub : (alignment - 1#64).toNat = alignment.toNat - 1 := toNat_sub_one (by omega)
  have hmax : SIZE_MAX.toNat = 2 ^ 64 - 1 := rfl
  have h72 : (sizeofDebugBlock + debugGuardSize).toNat = 72 := rfl
  have h16 : debugGuardSize.toNat = 16 := rfl
  have hl (x : SizeT) : (SIZE_MAX - x).toNat = 2 ^ 64 - 1 - x.toNat := by
    rw [BitVec.toNat_sub_of_le (BitVec.le_def.mpr (by rw [hmax]; omega)), hmax]
  simp only [total, Option.ite_none_left_eq_some, not_or, BitVec.not_lt, BitVec.le_def, hl, hsub, h72, h16,
    Option.some_inj] at h
  obtain ⟨⟨h₁, h₂, h₃⟩, rfl⟩ := h
  have he : (sizeofDebugBlock + debugGuardSize + alignment - 1#64).toNat = 72 + (alignment.toNat - 1) := by
    rw [BitVec.toNat_sub, BitVec.toNat_add, h72, show (1#64).toNat = 1 from rfl]
    omega
  rw [he] at h₂
  have hs : (sizeofDebugBlock + debugGuardSize + alignment - 1#64 + size).toNat = 72 + (alignment.toNat - 1) + size.toNat := by
    rw [BitVec.toNat_add, he]
    omega
  rw [hs] at h₃
  rw [BitVec.toNat_add, hs, h16]
  omega

end DebugAllocator

namespace DebugState

variable {state state' : DebugState} {allocate : Allocate} {size alignment : SizeT} {result pointer : Uintptr} {live : List Region}

theorem allocateInternal_eq_some (hh : Honest allocate live) (h : state.allocateInternal allocate size alignment = some (result, state')) :
    size = 0#64 ∧ result = 0#64 ∧ state' = state ∨
    size ≠ 0#64 ∧ result ≠ 0#64 ∧ ∃ block : DebugBlock, block.Valid ∧ (∀ r ∈ live, r.Disjoint block.region) ∧
      block.user = result ∧ block.size = size ∧ block.id = state.debug.nextId ∧ state' = state.push block := by
  by_cases hs : size = 0#64
  case pos =>
    rw [allocateInternal, if_pos hs] at h
    cases h
    exact .inl ⟨hs, rfl, rfl⟩
  case neg =>
    rw [allocateInternal, if_neg hs] at h
    obtain ⟨alignment', hc, h⟩ := Option.bind_eq_some_iff.mp h
    obtain ⟨total, ht, h⟩ := Option.bind_eq_some_iff.mp h
    obtain ⟨hp, -, hd⟩ := dvd_of_checkedAlignment hc
    have h8 : 8 ≤ alignment'.toNat := Nat.le_of_dvd (Nat.pos_of_isPowerOfTwo hp) hd
    have htotal := DebugAllocator.total_eq_some h8 ht
    simp only [Option.ite_none_left_eq_some, Option.some_inj, Prod.mk_inj] at h
    obtain ⟨hne, rfl, rfl⟩ := h
    have hf := hh total hne
    have hstop := hf.stop
    have hfirst : (allocate total sizeofPointer + sizeofDebugBlock + debugGuardSize).toNat =
        (allocate total sizeofPointer).toNat + 72 := by
      rw [BitVec.toNat_add, BitVec.toNat_add, show sizeofDebugBlock.toNat = 56 from rfl, show debugGuardSize.toNat = 16 from rfl]
      omega
    generalize allocate total sizeofPointer + sizeofDebugBlock + debugGuardSize = first at *
    have hround : roundUp first.toNat alignment'.toNat ≤ first.toNat + alignment'.toNat - 1 := Nat.div_mul_le_self _ _
    have hle : first.toNat ≤ roundUp first.toNat alignment'.toNat := le_roundUp (by omega)
    have hr := toNat_alignUp_of_lt hp (Nat.lt_of_le_of_lt hround (by omega))
    refine .inr ⟨hs, fun he => ?_, _, ⟨toNat_pos_of_ne hne, hstop, toNat_pos_of_ne hs, ?_, ?_, ?_⟩, ?_, rfl, rfl, rfl, rfl⟩
    case refine_1 =>
      have := congrArg BitVec.toNat he
      rw [BitVec.toNat_zero] at this
      omega
    case refine_2 => exact hfirst ▸ hr ▸ hle
    case refine_3 =>
      simp only [hr]
      omega
    case refine_4 => exact dvd_alignUp hp
    case refine_5 => exact hf.disjoint

end DebugState

end Coglet.Runtime
