import Coglet.Runtime.ArenaPlacement

open StructLayout Alignment

namespace Coglet.Runtime.Arena

-- The place of the next allocation: the current block and its first unused byte.
structure Cursor where
  index : Nat
  bump  : Nat

-- An arena without blocks has no cursor. The blocks after the current one are unused.
inductive Positioned (arena : Arena) : Option Cursor → Prop
  | empty : arena.blocks = [] → arena.current = 0#64 → Positioned arena none
  | at {before : List ArenaBlock} {block : ArenaBlock} {after : List ArenaBlock} :
    arena.blocks = before ++ block :: after → arena.current = block.address → (∀ later ∈ after, later.used = 0#64) →
    Positioned arena (some ⟨before.length, block.bump⟩)

structure Valid (arena : Arena) (cursor : Option Cursor) : Prop where
  blocks     : ∀ block ∈ arena.blocks, block.Valid
  disjoint   : arena.blocks.Pairwise fun b c => b.region.Disjoint c.region
  positioned : Positioned arena cursor

-- The memory that the parent allocator has given to the arena.
def regions (arena : Arena) : List Region :=
  arena.blocks.map ArenaBlock.region

variable {arena arena' : Arena} {allocate : Allocate} {size alignment : SizeT} {result : Uintptr}
  {block : ArenaBlock} {blocks before after : List ArenaBlock} {cursor : Option Cursor} {cursor' : Cursor}

-- The allocation lies in a block, ends at the new cursor, and does not start before the old cursor.
structure Placed (frames : List ArenaBlock) (cursor : Option Cursor) (r : Region) (cursor' : Cursor) : Prop where
  block : ∃ frame, frames[cursor'.index]? = some frame ∧ r.Within frame.payload
  stop  : r.stop = cursor'.bump
  after : ∀ c, cursor = some c → c.index < cursor'.index ∨ c.index = cursor'.index ∧ c.bump ≤ r.start

namespace Valid

theorem address_ne (h : arena.Valid cursor) (hb : arena.blocks = before ++ block :: after) :
    ∀ b ∈ before, b.address ≠ block.address := by
  intro b hm he
  have hd := h.disjoint
  rw [hb, List.pairwise_append] at hd
  have hr : b.region.Disjoint block.region := hd.2.2 b hm block List.mem_cons_self
  have htotal := (h.blocks b (hb ▸ List.mem_append_left _ hm)).total
  have htotal' := (h.blocks block (hb ▸ List.mem_append_right _ List.mem_cons_self)).total
  have ha := congrArg BitVec.toNat he
  rcases hr with hr | hr
  · have : b.address.toNat + b.allocationSize.toNat ≤ block.address.toNat := hr
    omega
  · have : block.address.toNat + block.allocationSize.toNat ≤ b.address.toNat := hr
    omega

theorem walk_eq (h : arena.Valid cursor) (hb : arena.blocks = before ++ block :: after) :
    arena.skipped block.address = before ∧ arena.onwards block.address = block :: after := by
  have hne : ∀ b ∈ before, decide (b.address ≠ block.address) = true :=
    fun b hm => decide_eq_true (h.address_ne hb b hm)
  constructor
  · rw [skipped, hb, List.takeWhile_append_of_pos hne, List.takeWhile_cons_of_neg (by simp), List.append_nil]
  · rw [onwards, hb, List.dropWhile_append_of_pos hne, List.dropWhile_cons_of_neg (by simp)]

theorem mem (hb : arena.blocks = before ++ block :: after) : block ∈ arena.blocks :=
  hb ▸ List.mem_append_right _ List.mem_cons_self

theorem split_eq (h : arena.Valid cursor) (hb : arena.blocks = before ++ block :: after)
    (hc : arena.current = block.address) : arena.split = (before, block :: after) := by
  obtain ⟨hs, ho⟩ := h.walk_eq hb
  rw [split, hc, if_neg (h.blocks block (mem hb)).address, hs, ho]

end Valid

theorem split_append (arena : Arena) : arena.split.1 ++ arena.split.2 = arena.blocks := by
  rw [split]
  split
  case isTrue => rfl
  case isFalse => exact List.takeWhile_append_dropWhile

-- The fixed part of the blocks.
def frames (arena : Arena) : List ArenaBlock :=
  emptied arena.blocks

@[simp]
theorem emptied_append (xs ys : List ArenaBlock) : emptied (xs ++ ys) = emptied xs ++ emptied ys :=
  List.map_append

@[simp]
theorem emptied_cons (xs : List ArenaBlock) : emptied (block :: xs) = { block with used := 0#64 } :: emptied xs :=
  rfl

@[simp]
theorem emptied_emptied (xs : List ArenaBlock) : emptied (emptied xs) = emptied xs :=
  List.map_map

theorem frames_getElem? (hb : arena.blocks = before ++ block :: after) :
    arena.frames[before.length]? = some { block with used := 0#64 } := by
  rw [frames, hb, emptied_append, emptied_cons, List.getElem?_append_right (by simp [emptied])]
  simp [emptied]

-- The regions do not depend on what is used.
theorem pairwise_emptied : (emptied blocks).Pairwise (fun b c => b.region.Disjoint c.region) ↔
    blocks.Pairwise fun b c => b.region.Disjoint c.region :=
  List.pairwise_map

theorem forall_setUsed {used : SizeT} (h : ∀ b ∈ before ++ block :: after, b.Valid)
    (hu : used.toNat ≤ block.capacity.toNat) : ∀ b ∈ before ++ { block with used } :: after, b.Valid := by
  rw [List.forall_mem_append, List.forall_mem_cons] at h ⊢
  exact ⟨h.1, h.2.1.setUsed hu, h.2.2⟩

-- The walk does not go back.
theorem Valid.walk_forward (h : arena.Valid cursor) (hb : arena.split.2 = before ++ block :: after) :
    (∀ later ∈ after, later.used = 0#64) ∧
    ∀ c, cursor = some c → c.index < (arena.split.1 ++ before).length ∨
      c.index = (arena.split.1 ++ before).length ∧ c.bump = block.bump := by
  cases h.positioned
  case empty he _ =>
    have happend := arena.split_append
    rw [he, hb] at happend
    simp at happend
  case «at» before' block' after' hblocks hc hlater =>
    have hs := h.split_eq hblocks hc
    rw [hs] at hb ⊢
    cases before
    case nil =>
      cases hb
      exact ⟨hlater, fun c he => by cases he; exact .inr ⟨by simp, rfl⟩⟩
    case cons b bs =>
      cases hb
      refine ⟨fun later hm => hlater later (List.mem_append_right _ (List.mem_cons_of_mem _ hm)), fun c he => ?_⟩
      cases he
      exact .inl (by simp)

theorem Valid.place (h : arena.Valid cursor) (ha : alignment.toNat.isPowerOfTwo) (hs : 0 < size.toNat)
    {current : Uintptr} (hp : place size alignment arena.split.2 = some (result, current, blocks)) :
    ∃ cursor', Valid { arena with blocks := arena.split.1 ++ blocks, current } (some cursor') ∧
      emptied (arena.split.1 ++ blocks) = arena.frames ∧ alignment.toNat ∣ result.toNat ∧ 0 < result.toNat ∧
      Placed arena.frames cursor (region result size) cursor' := by
  have happend := arena.split_append
  have hsplit : ∀ b ∈ arena.split.2, b.Valid := fun b hm => h.blocks b (happend ▸ List.mem_append_right _ hm)
  obtain ⟨before, block, after, used, hb, rfl, rfl, hr, hstop, hu⟩ := place_eq_some hsplit ha hs hp
  obtain ⟨hlater, hforward⟩ := h.walk_forward hb
  have hblocks : arena.blocks = (arena.split.1 ++ before) ++ block :: after := by
    rw [← happend, hb, List.append_assoc]
  have hassoc : arena.split.1 ++ (before ++ { block with used } :: after) =
      (arena.split.1 ++ before) ++ { block with used } :: after := (List.append_assoc _ _ _).symm
  have hv := h.blocks block (Valid.mem hblocks)
  have hbump : block.bump ≤ result.toNat := hr ▸ le_roundUp (Nat.pos_of_isPowerOfTwo ha)
  have hbase : block.base.toNat ≤ result.toNat := (Nat.le_add_right _ _).trans hbump
  have hframes : emptied (arena.split.1 ++ before ++ { block with used } :: after) = arena.frames := by
    simp only [frames, hblocks, emptied_append, emptied_cons]
  rw [hassoc]
  refine ⟨⟨(arena.split.1 ++ before).length, block.base.toNat + used.toNat⟩,
    ⟨forall_setUsed (hblocks ▸ h.blocks) hu, pairwise_emptied.mp (hframes ▸ pairwise_emptied.mpr h.disjoint),
      @Positioned.at _ _ { block with used } _ rfl rfl hlater⟩,
    hframes, hr ▸ dvd_roundUp, ?_, ⟨⟨_, frames_getElem? hblocks, hbase, ?_⟩, hstop, fun c hc => ?_⟩⟩
  case refine_1 =>
    have := hv.toNat_base
    omega
  case refine_2 => exact (Nat.le_of_eq hstop).trans (Nat.add_le_add_left hu _)
  case refine_3 => exact (hforward c hc).imp id fun ⟨hi, he⟩ => ⟨hi, he ▸ hbump⟩

theorem Valid.newBlock (h : arena.Valid cursor) (hh : Honest allocate arena.regions) (ha : alignment.toNat.isPowerOfTwo)
    (h8 : 8 ≤ alignment.toNat) (hs : 0 < size.toNat) (hn : arena.newBlock allocate size alignment = some block) :
    ∃ cursor',
      Valid { arena with
        blocks  := arena.blocks ++ [{ block with used := alignUp block.base alignment - block.base + size }]
        current := block.address } (some cursor') ∧
      alignment.toNat ∣ (alignUp block.base alignment).toNat ∧ 0 < (alignUp block.base alignment).toNat ∧
      Placed (arena.frames ++ [block]) cursor (region (alignUp block.base alignment) size) cursor' := by
  obtain ⟨haddress, hne, hzero, htotal, hcapacity⟩ := newBlock_eq_some (by omega) hn
  have hf := hh block.allocationSize (haddress ▸ hne)
  rw [← haddress] at hf
  have hv : block.Valid := ⟨hne, htotal, hf.stop, by omega, by rw [hzero]; exact Nat.zero_le _⟩
  have hbase := hv.toNat_base
  have hstop := hv.stop
  have hround : roundUp block.base.toNat alignment.toNat ≤ block.base.toNat + alignment.toNat - 1 :=
    Nat.div_mul_le_self _ _
  have hle : block.base.toNat ≤ roundUp block.base.toNat alignment.toNat := le_roundUp (by omega)
  have hr := toNat_alignUp_of_lt ha (Nat.lt_of_le_of_lt hround (by omega))
  have hd : (alignUp block.base alignment - block.base).toNat = roundUp block.base.toNat alignment.toNat - block.base.toNat := by
    rw [BitVec.toNat_sub_of_le (BitVec.le_def.mpr (by omega)), hr]
  have hu : (alignUp block.base alignment - block.base + size).toNat =
      roundUp block.base.toNat alignment.toNat - block.base.toNat + size.toNat := by
    rw [BitVec.toNat_add, hd]
    omega
  generalize alignUp block.base alignment - block.base + size = used at *
  have hend : (region (alignUp block.base alignment) size).stop = block.base.toNat + used.toNat := by
    have : (region (alignUp block.base alignment) size).stop = (alignUp block.base alignment).toNat + size.toNat := rfl
    omega
  have hcap : used.toNat ≤ block.capacity.toNat := by omega
  refine ⟨⟨arena.blocks.length, block.base.toNat + used.toNat⟩, ⟨?_, ?_, ?_⟩, hr ▸ dvd_roundUp, by omega,
    ⟨⟨block, ?_, hle.trans (Nat.le_of_eq hr.symm), ?_⟩, hend, fun c hc => ?_⟩⟩
  case refine_1 => exact List.forall_mem_append.mpr ⟨h.blocks, List.forall_mem_singleton.mpr (hv.setUsed hcap)⟩
  case refine_2 =>
    refine List.pairwise_append.mpr ⟨h.disjoint, List.pairwise_singleton _ _, fun b hm => ?_⟩
    exact List.forall_mem_singleton.mpr (hf.disjoint _ (List.mem_map_of_mem hm))
  case refine_3 => exact @Positioned.at _ _ { block with used } [] rfl rfl fun _ hm => absurd hm List.not_mem_nil
  case refine_4 => simp [frames, emptied]
  case refine_5 =>
    rw [hend]
    exact Nat.add_le_add_left hcap _
  case refine_6 =>
    cases h.positioned
    case empty => cases hc
    case «at» before _ after hb _ _ =>
      cases hc
      refine .inl ?_
      rw [hb]
      simp

end Coglet.Runtime.Arena
