import Coglet.Runtime.ArenaSafety
import Coglet.Runtime.FixedArena

namespace Coglet.Runtime.Arena

open FixedArena (Allocation)

inductive Request
  | alloc (size alignment : SizeT)
  | resize (pointer : Uintptr) (oldSize newSize alignment : SizeT)
  | free (pointer : Uintptr) (size alignment : SizeT)
  | reset
  | mark
  -- A rewind to a mark ends all later marks.
  | rewind (depth : Nat)

-- The result of a call of `mark`, with the allocations that a rewind keeps.
structure Mark where
  block : Uintptr
  used  : SizeT
  live  : List Allocation

structure History where
  arena  : Arena
  memory : Memory
  -- The allocations since the last reset or from before the mark of the last rewind.
  live   : List Allocation
  -- The latest mark is the first one.
  marks  : List Mark

def History.record (history : History) (allocation : Allocation) (arena : Arena) (memory : Memory) : History :=
  { history with arena, memory, live := if allocation.pointer = 0#64 then history.live else allocation :: history.live }

def step (history : History) (allocate : Allocate) : Request → Option History
  | .alloc size alignment =>
    (history.arena.alloc allocate size alignment).map fun (pointer, arena) =>
      history.record ⟨pointer, size, alignment⟩ arena history.memory
  | .resize pointer oldSize newSize alignment =>
    (history.arena.resize allocate history.memory pointer oldSize newSize alignment).map fun (pointer, arena, memory) =>
      history.record ⟨pointer, newSize, alignment⟩ arena memory
  | .free pointer size alignment => some { history with arena := history.arena.free pointer size alignment }
  | .reset => some { history with arena := history.arena.reset, live := [] }
  | .mark => some { history with marks := ⟨history.arena.mark.1, history.arena.mark.2, history.live⟩ :: history.marks }
  | .rewind depth =>
    match history.marks.drop depth with
    | [] => none
    | mark :: marks =>
      (history.arena.rewind mark.block mark.used).map fun arena =>
        { history with arena, live := mark.live, marks := mark :: marks }

-- The parent allocator is honest in each step of a run.
inductive Reaches (start : History) : History → Prop
  | refl : Reaches start start
  | step {history history' : History} {allocate : Allocate} {request : Request} :
    Reaches start history → Honest allocate history.arena.regions → step history allocate request = some history' →
    Reaches start history'

variable {arena arena' : Arena} {allocate : Allocate} {size alignment : SizeT} {pointer : Uintptr}
  {frames extra : List ArenaBlock} {frame : ArenaBlock} {cursor : Option Cursor} {cursor' : Cursor} {a : Allocation}
  {live : List Allocation}

-- An allocation that the next ones do not touch.
structure Below (frames : List ArenaBlock) (cursor : Cursor) (a : Allocation) : Prop where
  aligned : max a.alignment.toNat 8 ∣ a.pointer.toNat
  frame   : ∃ j frame, frames[j]? = some frame ∧ a.region.Within frame.payload ∧
    (j < cursor.index ∨ j = cursor.index ∧ a.region.stop ≤ cursor.bump)

structure Holds (frames : List ArenaBlock) (cursor : Option Cursor) (live : List Allocation) : Prop where
  below    : ∀ a ∈ live, ∃ c, cursor = some c ∧ Below frames c a
  disjoint : live.Pairwise fun a b => a.region.Disjoint b.region

-- The cursor that a rewind to a mark sets.
inductive Mark.Designates (frames : List ArenaBlock) (mark : Mark) : Option Cursor → Prop
  | empty : mark.block = 0#64 → Designates frames mark none
  | at {index : Nat} {frame : ArenaBlock} : frames[index]? = some frame → mark.block = frame.address →
    mark.used.toNat ≤ frame.capacity.toNat →
    Designates frames mark (some ⟨index, frame.base.toNat + mark.used.toNat⟩)

structure Safe (history : History) (cursor : Option Cursor) : Prop where
  valid : history.arena.Valid cursor
  holds : Holds history.arena.frames cursor history.live
  marks : ∀ mark ∈ history.marks, ∃ cursor, mark.Designates history.arena.frames cursor ∧
    Holds history.arena.frames cursor mark.live

section Frames

-- The list of the blocks grows at its end.
theorem getElem?_extend {i : Nat} (h : frames[i]? = some frame) : (frames ++ extra)[i]? = some frame :=
  (List.getElem?_append_left (List.getElem?_eq_some_iff.mp h).1).trans h

theorem Below.extend (h : Below frames cursor' a) : Below (frames ++ extra) cursor' a :=
  have ⟨j, frame, hj, hrest⟩ := h.frame
  ⟨h.aligned, j, frame, getElem?_extend hj, hrest⟩

theorem Holds.extend (h : Holds frames cursor live) : Holds (frames ++ extra) cursor live :=
  ⟨fun a ha => (h.below a ha).imp fun _ ⟨hc, hb⟩ => ⟨hc, hb.extend⟩, h.disjoint⟩

theorem Mark.Designates.extend {mark : Mark} (h : mark.Designates frames cursor) :
    mark.Designates (frames ++ extra) cursor := by
  cases h
  case empty hz => exact .empty hz
  case «at» hi hb hu => exact .at (getElem?_extend hi) hb hu

theorem Holds.nil : Holds frames cursor [] :=
  ⟨fun _ ha => absurd ha List.not_mem_nil, .nil⟩

theorem Holds.eq_nil (h : Holds frames none live) : live = [] :=
  List.eq_nil_iff_forall_not_mem.mpr fun a ha => have ⟨_, hc, _⟩ := h.below a ha; nomatch hc

end Frames

theorem Valid.payload_disjoint (h : arena.Valid cursor) {i j : Nat} {b c : ArenaBlock} (hi : arena.frames[i]? = some b)
    (hj : arena.frames[j]? = some c) (hl : i < j) : b.payload.Disjoint c.payload := by
  rw [frames, emptied, List.getElem?_map, Option.map_eq_some_iff] at hi hj
  obtain ⟨b, hb, rfl⟩ := hi
  obtain ⟨c, hc, rfl⟩ := hj
  obtain ⟨hi, rfl⟩ := List.getElem?_eq_some_iff.mp hb
  obtain ⟨hj, rfl⟩ := List.getElem?_eq_some_iff.mp hc
  have hd : arena.blocks[i].region.Disjoint arena.blocks[j].region := List.pairwise_iff_getElem.mp h.disjoint i j hi hj hl
  exact hd.mono (h.blocks _ (List.getElem_mem hi)).payload_within (h.blocks _ (List.getElem_mem hj)).payload_within

-- A new allocation does not touch the old ones.
theorem Placed.disjoint (h : arena.Valid (some cursor')) (hp : Placed arena.frames cursor a.region cursor')
    {b : Allocation} {c : Cursor} (hc : cursor = some c) (hb : Below arena.frames c b) : a.region.Disjoint b.region := by
  obtain ⟨frame, hf, hw⟩ := hp.block
  obtain ⟨j, frame', hj, hw', hpos⟩ := hb.frame
  have hother (hl : j < cursor'.index) : a.region.Disjoint b.region :=
    ((h.payload_disjoint hj hf hl).mono hw' hw).symm
  rcases hp.after c hc with hl | ⟨he, hle⟩
  case inl =>
    rcases hpos with hlt | ⟨heq, -⟩
    · exact hother (hlt.trans hl)
    · exact hother (heq ▸ hl)
  case inr =>
    rcases hpos with hlt | ⟨-, hstop⟩
    · exact hother (he ▸ hlt)
    · exact .inr (hstop.trans hle)

theorem Placed.below (hp : Placed frames cursor a.region cursor') {b : Allocation} {c : Cursor} (hc : cursor = some c)
    (hb : Below frames c b) : Below frames cursor' b := by
  obtain ⟨j, frame, hj, hw, hpos⟩ := hb.frame
  refine ⟨hb.aligned, j, frame, hj, hw, ?_⟩
  have hle : a.region.start ≤ cursor'.bump := (Nat.le_add_right _ _).trans (Nat.le_of_eq hp.stop)
  rcases hp.after c hc with hl | ⟨he, hbump⟩
  case inl => exact .inl (hpos.elim hl.trans' fun ⟨h, _⟩ => h ▸ hl)
  case inr => exact hpos.imp (he ▸ ·) fun ⟨hi, hs⟩ => ⟨hi.trans he, (hs.trans hbump).trans hle⟩

theorem Holds.cons (h : Holds arena.frames cursor live) (hv : arena.Valid (some cursor'))
    (hp : Placed arena.frames cursor a.region cursor') (ha : max a.alignment.toNat 8 ∣ a.pointer.toNat) :
    Holds arena.frames (some cursor') (a :: live) := by
  constructor
  case below =>
    obtain ⟨frame, hf, hw⟩ := hp.block
    refine List.forall_mem_cons.mpr ⟨⟨cursor', rfl, ha, _, frame, hf, hw, .inr ⟨rfl, Nat.le_of_eq hp.stop⟩⟩, fun b hm => ?_⟩
    obtain ⟨c, hc, hb⟩ := h.below b hm
    exact ⟨cursor', rfl, hp.below hc hb⟩
  case disjoint =>
    refine .cons (fun b hm => ?_) h.disjoint
    obtain ⟨c, hc, hb⟩ := h.below b hm
    exact hp.disjoint hv hc hb

section Step

variable {history history' : History} {memory : Memory} {request : Request}

theorem Valid.alloc (h : arena.Valid cursor) (hh : Honest allocate arena.regions)
    (ha : arena.alloc allocate size alignment = some (pointer, arena')) :
    size = 0#64 ∧ pointer = 0#64 ∧ arena' = arena ∨
    pointer ≠ 0#64 ∧ max alignment.toNat 8 ∣ pointer.toNat ∧ ∃ cursor' extra, arena'.Valid (some cursor') ∧
      arena'.frames = arena.frames ++ extra ∧ Placed arena'.frames cursor (region pointer size) cursor' := by
  by_cases hs : size = 0#64
  case pos =>
    rw [Arena.alloc, if_pos hs] at ha
    cases ha
    exact .inl ⟨hs, rfl, rfl⟩
  case neg =>
    rw [Arena.alloc, if_neg hs] at ha
    obtain ⟨alignment', hc, ha⟩ := Option.bind_eq_some_iff.mp ha
    obtain ⟨-, hmax⟩ := checkedAlignment_eq_some hc
    obtain ⟨hp, -, -⟩ := dvd_of_checkedAlignment hc
    have hne (hpos : 0 < pointer.toNat) : pointer ≠ 0#64 := fun he => by simp [he] at hpos
    rw [← hmax]
    split at ha
    case h_1 result current blocks hplace =>
      cases ha
      obtain ⟨cursor', hv, hf, hd, hpos, hplaced⟩ := h.place hp (toNat_pos_of_ne hs) hplace
      exact .inr ⟨hne hpos, hd, cursor', [], hv, by rw [List.append_nil]; exact hf, by rw [frames, hf]; exact hplaced⟩
    case h_2 =>
      obtain ⟨block, hn, ha⟩ := Option.bind_eq_some_iff.mp ha
      cases ha
      obtain ⟨cursor', hv, hd, hpos, hplaced⟩ := h.newBlock hh hp (hmax ▸ Nat.le_max_right _ _) (toNat_pos_of_ne hs) hn
      have hzero : { block with used := 0#64 } = block := by rw [← (newBlock_eq_some (by omega) hn).2.2.1]
      have hframes (used : SizeT) : emptied (arena.blocks ++ [{ block with used }]) = arena.frames ++ [block] := by
        rw [emptied_append, emptied_cons, hzero]
        rfl
      exact .inr ⟨hne hpos, hd, cursor', [block], hv, hframes _, by rw [frames, hframes]; exact hplaced⟩

theorem Safe.record (h : Safe history cursor) (hh : Honest allocate history.arena.regions)
    (ha : history.arena.alloc allocate size alignment = some (pointer, arena')) :
    ∃ cursor', Safe (history.record ⟨pointer, size, alignment⟩ arena' memory) cursor' := by
  rcases h.valid.alloc hh ha with ⟨-, rfl, rfl⟩ | ⟨hne, hd, cursor', extra, hv, hf, hp⟩
  case inl => exact ⟨cursor, h.valid, h.holds, h.marks⟩
  case inr =>
    refine ⟨some cursor', hv, ?_, fun mark hm => ?_⟩
    case refine_1 =>
      have hold : Holds arena'.frames cursor history.live := by
        rw [hf]
        exact h.holds.extend
      simp only [History.record, hne, if_false]
      exact hold.cons hv hp hd
    case refine_2 =>
      obtain ⟨c, hm, hl⟩ := h.marks mark hm
      refine ⟨c, ?_⟩
      rw [show (history.record ⟨pointer, size, alignment⟩ arena' memory).arena.frames = arena'.frames from rfl, hf]
      exact ⟨hm.extend, hl.extend⟩

theorem emptied_valid {blocks : List ArenaBlock} (h : ∀ b ∈ blocks, b.Valid) : ∀ b ∈ emptied blocks, b.Valid :=
  List.forall_mem_map.mpr fun b hm => (h b hm).setUsed (Nat.zero_le _)

theorem emptied_used {blocks : List ArenaBlock} : ∀ b ∈ emptied blocks, b.used = 0#64 :=
  List.forall_mem_map.mpr fun _ _ => rfl

theorem frames_reset : arena.reset.frames = arena.frames :=
  emptied_emptied _

theorem Valid.reset (h : arena.Valid cursor) : ∃ cursor', arena.reset.Valid cursor' := by
  have hp : ∃ cursor', Positioned arena.reset cursor' := by
    rw [Arena.reset, head]
    cases arena.blocks
    case nil => exact ⟨_, .empty rfl rfl⟩
    case cons => exact ⟨_, @Positioned.at _ [] _ _ rfl rfl emptied_used⟩
  obtain ⟨cursor', hp⟩ := hp
  exact ⟨cursor', emptied_valid h.blocks, List.pairwise_map.mpr h.disjoint, hp⟩

theorem Valid.mark (h : arena.Valid cursor) : Mark.Designates arena.frames ⟨arena.mark.1, arena.mark.2, live⟩ cursor := by
  cases h.positioned
  case empty hb hc =>
    refine .empty ?_
    rw [Arena.mark, split, if_pos hc, hb]
  case «at» _ block _ hb hc _ =>
    rw [Arena.mark, h.split_eq hb hc]
    exact @Mark.Designates.at _ ⟨_, _, _⟩ _ { block with used := 0#64 } (frames_getElem? hb) rfl (h.blocks _ (mem hb)).used

theorem exists_split {blocks : List ArenaBlock} {i : Nat} {block : ArenaBlock} (h : blocks[i]? = some block) :
    ∃ before after, blocks = before ++ block :: after ∧ before.length = i := by
  obtain ⟨hi, rfl⟩ := List.getElem?_eq_some_iff.mp h
  refine ⟨blocks.take i, blocks.drop (i + 1), ?_, List.length_take_of_le (Nat.le_of_lt hi)⟩
  rw [← List.drop_eq_getElem_cons hi, List.take_append_drop]

theorem Valid.rewind (h : arena.Valid cursor) {mark : Mark} {c : Option Cursor} (hm : mark.Designates arena.frames c)
    (hr : arena.rewind mark.block mark.used = some arena') : arena'.frames = arena.frames ∧
      ∃ cursor', arena'.Valid cursor' ∧ (Holds arena.frames c mark.live → Holds arena.frames cursor' mark.live) := by
  cases hm
  case empty hz =>
    rw [Arena.rewind, if_pos hz] at hr
    cases hr
    obtain ⟨cursor', hv⟩ := h.reset
    exact ⟨frames_reset, cursor', hv, fun hh => hh.eq_nil ▸ .nil⟩
  case «at» index frame hi ha hu =>
    rw [frames, emptied, List.getElem?_map, Option.map_eq_some_iff] at hi
    obtain ⟨block, hi, rfl⟩ := hi
    obtain ⟨before, after, hb, rfl⟩ := exists_split hi
    obtain ⟨hs, ho⟩ := h.walk_eq hb
    have hv := h.blocks block (mem hb)
    rw [Arena.rewind, ha, if_neg hv.address, ho, hs] at hr
    simp only at hr
    split at hr
    case isTrue => cases hr
    case isFalse =>
      cases hr
      have hframes : emptied (before ++ { block with used := mark.used } :: emptied after) = arena.frames := by
        simp only [frames, hb, emptied_append, emptied_cons, emptied_emptied]
      have hblocks : ∀ b ∈ before ++ { block with used := mark.used } :: emptied after, b.Valid := by
        have hall := hb ▸ h.blocks
        rw [List.forall_mem_append, List.forall_mem_cons] at hall ⊢
        exact ⟨hall.1, hv.setUsed hu, emptied_valid hall.2.2⟩
      exact ⟨hframes, _, ⟨hblocks, pairwise_emptied.mp (hframes ▸ pairwise_emptied.mpr h.disjoint),
        @Positioned.at _ _ { block with used := mark.used } _ rfl rfl emptied_used⟩, id⟩

theorem Safe.step (h : Safe history cursor) (hh : Honest allocate history.arena.regions)
    (hs : step history allocate request = some history') : ∃ cursor', Safe history' cursor' := by
  cases request
  case alloc size alignment =>
    obtain ⟨⟨pointer, arena⟩, ha, rfl⟩ := Option.map_eq_some_iff.mp hs
    exact h.record hh ha
  case resize pointer oldSize newSize alignment =>
    obtain ⟨⟨result, arena, memory⟩, hr, rfl⟩ := Option.map_eq_some_iff.mp hs
    rw [resize] at hr
    split at hr
    case isTrue =>
      obtain ⟨⟨result, arena⟩, ha, he⟩ := Option.map_eq_some_iff.mp hr
      cases he
      exact h.record hh ha
    case isFalse =>
      split at hr
      case isTrue =>
        cases hr
        exact ⟨cursor, h.valid, h.holds, h.marks⟩
      case isFalse =>
        obtain ⟨⟨result, arena⟩, ha, he⟩ := Option.map_eq_some_iff.mp hr
        cases he
        exact h.record hh ha
  case free =>
    cases hs
    exact ⟨cursor, h⟩
  case reset =>
    cases hs
    obtain ⟨cursor', hv⟩ := h.valid.reset
    refine ⟨cursor', hv, .nil, ?_⟩
    simp only [frames_reset]
    exact h.marks
  case mark =>
    cases hs
    exact ⟨cursor, h.valid, h.holds, List.forall_mem_cons.mpr ⟨⟨cursor, h.valid.mark, h.holds⟩, h.marks⟩⟩
  case rewind depth =>
    rw [Arena.step] at hs
    split at hs
    case h_1 => cases hs
    case h_2 mark marks hm =>
      obtain ⟨arena', hr, rfl⟩ := Option.map_eq_some_iff.mp hs
      have hmarks : ∀ m ∈ mark :: marks, m ∈ history.marks := fun m hx => List.drop_subset depth _ (hm ▸ hx)
      obtain ⟨c, hd, hl⟩ := h.marks mark (hmarks mark List.mem_cons_self)
      obtain ⟨hf, cursor', hv, hc⟩ := h.valid.rewind hd hr
      refine ⟨cursor', hv, hf.symm ▸ hc hl, fun m hx => ?_⟩
      simp only [hf]
      exact h.marks m (hmarks m hx)

theorem Safe.start (hc : create allocate size = some arena) : Safe ⟨arena, memory, [], []⟩ none := by
  rw [create] at hc
  split at hc
  case isTrue => cases hc
  case isFalse =>
    cases hc
    exact ⟨⟨fun _ hb => absurd hb List.not_mem_nil, .nil, .empty rfl rfl⟩, .nil, fun _ hm => absurd hm List.not_mem_nil⟩

theorem Safe.reaches {start : History} (hs : Safe start cursor) (h : Reaches start history) :
    ∃ cursor', Safe history cursor' := by
  induction h
  case refl => exact ⟨cursor, hs⟩
  case step hh hn hi =>
    obtain ⟨_, hs'⟩ := hi
    exact hs'.step hh hn

theorem Below.exists_payload {c : Cursor} (hb : Below arena.frames c a) : ∃ block ∈ arena.blocks,
    a.region.Within block.payload := by
  obtain ⟨j, frame, hj, hw, -⟩ := hb.frame
  rw [frames, emptied, List.getElem?_map, Option.map_eq_some_iff] at hj
  obtain ⟨block, hj, rfl⟩ := hj
  exact ⟨block, List.mem_of_getElem? hj, hw⟩

theorem Valid.used_after (h : arena.Valid cursor) {before after : List ArenaBlock} {block : ArenaBlock}
    (hb : arena.blocks = before ++ block :: after) (hc : block.address = arena.current) :
    ∀ later ∈ after, later.used = 0#64 := by
  have hs := h.split_eq hb hc.symm
  have hsplit : arena.split.2 = [] ++ block :: after := congrArg Prod.snd hs
  exact (h.walk_forward hsplit).1

end Step

theorem reaches_apart {blockSize : SizeT} {memory : Memory} {history : History}
    (hc : create allocate blockSize = some arena) (h : Reaches ⟨arena, memory, [], []⟩ history) :
    (∀ a ∈ history.live, max a.alignment.toNat 8 ∣ a.pointer.toNat ∧
      ∃ block ∈ history.arena.blocks, a.region.Within block.payload) ∧
    history.live.Pairwise (fun a b => a.region.Disjoint b.region) ∧
    (∀ block ∈ history.arena.blocks, block.used.toNat ≤ block.capacity.toNat) ∧
    ∀ before block after, history.arena.blocks = before ++ block :: after → block.address = history.arena.current →
      ∀ later ∈ after, later.used = 0#64 := by
  obtain ⟨cursor, hs⟩ := (Safe.start hc).reaches h
  refine ⟨fun a ha => ?_, hs.holds.disjoint, fun block hb => (hs.valid.blocks block hb).used,
    fun before block after hb hc => hs.valid.used_after hb hc⟩
  obtain ⟨c, -, hb⟩ := hs.holds.below a ha
  exact ⟨hb.aligned, hb.exists_payload⟩

theorem reaches_apart_scratch : ∃ arena history, create (fun _ _ => 8#64) 0#64 = some arena ∧
    Reaches ⟨arena, fun _ => 0#8, [], []⟩ history ∧
    history.live = [⟨4160#64, 8#64, 32#64⟩, ⟨4128#64, 24#64, 16#64⟩] ∧
    history.live.Pairwise (fun a b => a.region.Disjoint b.region) := by
  have hc : create (fun _ _ => 8#64) 0#64 = some ⟨65536#64, [], 0#64⟩ := rfl
  have hfirst : Honest (fun size _ => if size < 0x8000000000000000#64 then 4096#64 else 0#64) [] := by
    intro size hne
    have hl : size < 0x8000000000000000#64 := Decidable.not_not.mp fun hn => hne (if_neg hn)
    simp only [if_pos hl]
    rw [BitVec.lt_def, show (0x8000000000000000#64).toNat = 2 ^ 63 from rfl] at hl
    refine ⟨⟨512, rfl⟩, ?_, fun _ hb => absurd hb List.not_mem_nil⟩
    rw [show (4096#64).toNat = 4096 from rfl]
    omega
  have hnone (live : List Region) : Honest (fun _ _ => 0#64) live := fun _ hne => absurd rfl hne
  have h₁ : Reaches ⟨⟨65536#64, [], 0#64⟩, fun _ => 0#8, [], []⟩
      ⟨⟨65536#64, [⟨4096#64, 65568#64, 65536#64, 24#64⟩], 4096#64⟩, fun _ => 0#8, [⟨4128#64, 24#64, 16#64⟩], []⟩ :=
    @Reaches.step _ _ _ _ (.alloc 24#64 16#64) .refl hfirst rfl
  have h₂ := @Reaches.step _ _ ⟨⟨65536#64, [⟨4096#64, 65568#64, 65536#64, 24#64⟩], 4096#64⟩, fun _ => 0#8,
    [⟨4128#64, 24#64, 16#64⟩], [⟨4096#64, 24#64, [⟨4128#64, 24#64, 16#64⟩]⟩]⟩ _ .mark h₁ (hnone _) rfl
  have h₃ := @Reaches.step _ _ ⟨⟨65536#64, [⟨4096#64, 65568#64, 65536#64, 124#64⟩], 4096#64⟩, fun _ => 0#8,
    [⟨4152#64, 100#64, 8#64⟩, ⟨4128#64, 24#64, 16#64⟩], [⟨4096#64, 24#64, [⟨4128#64, 24#64, 16#64⟩]⟩]⟩
    _ (.alloc 100#64 8#64) h₂ (hnone _) rfl
  have h₄ := @Reaches.step _ _ ⟨⟨65536#64, [⟨4096#64, 65568#64, 65536#64, 24#64⟩], 4096#64⟩, fun _ => 0#8,
    [⟨4128#64, 24#64, 16#64⟩], [⟨4096#64, 24#64, [⟨4128#64, 24#64, 16#64⟩]⟩]⟩ _ (.rewind 0) h₃ (hnone _) rfl
  have h₅ := @Reaches.step _ _ ⟨⟨65536#64, [⟨4096#64, 65568#64, 65536#64, 40#64⟩], 4096#64⟩, fun _ => 0#8,
    [⟨4160#64, 8#64, 32#64⟩, ⟨4128#64, 24#64, 16#64⟩], [⟨4096#64, 24#64, [⟨4128#64, 24#64, 16#64⟩]⟩]⟩
    _ (.alloc 8#64 32#64) h₄ (hnone _) rfl
  exact ⟨_, _, hc, h₅, rfl, (reaches_apart hc h₅).2.1⟩

end Coglet.Runtime.Arena
