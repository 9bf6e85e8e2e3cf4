import Mathlib.Data.Set.Insert
import Mathlib.Order.BooleanAlgebra.Set
import Mathlib.Tactic.Common

structure Block (ι τ : Type*) where
  instructions : List ι := []
  terminator   : Option τ := none
deriving DecidableEq, Repr

-- The basic blocks of a function while it is built. A block is open until it gets its terminator, instructions
-- are appended to the current one.
structure BlockBuilder (ι τ : Type*) where
  blocks     : List (Block ι τ)
  current    : Nat
  current_lt : current < blocks.length
deriving DecidableEq, Repr

namespace BlockBuilder

variable {ι τ : Type*}

def IsOpen (g : BlockBuilder ι τ) (b : Nat) : Prop :=
  ∃ block, g.blocks[b]? = some block ∧ block.terminator = none

def isOpen (g : BlockBuilder ι τ) : Bool :=
  g.blocks[g.current]?.any (·.terminator.isNone)

-- The number of the block that is added next.
def next (g : BlockBuilder ι τ) : Nat :=
  g.blocks.length

def addBlock (g : BlockBuilder ι τ) : BlockBuilder ι τ where
  blocks     := g.blocks ++ [{}]
  current    := g.current
  current_lt := Nat.lt_of_lt_of_le g.current_lt (List.length_append ▸ Nat.le_add_right ..)

def addBlocks (g : BlockBuilder ι τ) : Nat → BlockBuilder ι τ
  | 0     => g
  | n + 1 => g.addBlock.addBlocks n

def select (g : BlockBuilder ι τ) (b : Nat) : BlockBuilder ι τ :=
  if h : b < g.next then { g with current := b, current_lt := h } else g

def modify (g : BlockBuilder ι τ) (f : Block ι τ → Block ι τ) : BlockBuilder ι τ where
  blocks     := g.blocks.modify g.current f
  current    := g.current
  current_lt := (List.length_modify ..).symm ▸ g.current_lt

def update (g : BlockBuilder ι τ) (f : Block ι τ → Block ι τ) : Option (BlockBuilder ι τ) :=
  if g.isOpen then some (g.modify f) else none

def emit (g : BlockBuilder ι τ) (i : ι) : Option (BlockBuilder ι τ) :=
  g.update fun block => { block with instructions := block.instructions ++ [i] }

def terminate (g : BlockBuilder ι τ) (t : τ) : Option (BlockBuilder ι τ) :=
  g.update fun block => { block with terminator := some t }

-- The open blocks that are still to be filled.
def pending (g : BlockBuilder ι τ) : Set Nat :=
  { b | g.IsOpen b ∧ b ≠ g.current }

def Finished (g : BlockBuilder ι τ) : Prop :=
  ∀ block ∈ g.blocks, block.terminator ≠ none

variable {g : BlockBuilder ι τ} {b n : Nat} {i : ι} {t : τ} {f : Block ι τ → Block ι τ}

theorem isOpen_iff : g.isOpen ↔ g.IsOpen g.current := by
  simp [isOpen, IsOpen, Option.any_eq_true]

theorem IsOpen.lt_next (h : g.IsOpen b) : b < g.next := by
  obtain ⟨_, h, -⟩ := h
  exact (List.getElem?_eq_some_iff.mp h).1

theorem lt_next_of_mem_pending (h : b ∈ g.pending) : b < g.next :=
  h.1.lt_next

theorem next_notMem_pending (h : g.next ≤ b) : b ∉ g.pending :=
  fun hb => Nat.not_lt.mpr h (lt_next_of_mem_pending hb)

theorem finished_iff : g.Finished ↔ ∀ b, ¬g.IsOpen b := by
  constructor
  case mp =>
    intro h b ⟨block, hb, ht⟩
    exact h block (List.mem_of_getElem? hb) ht
  case mpr =>
    intro h block hm ht
    obtain ⟨b, hb⟩ := List.mem_iff_getElem?.mp hm
    exact h b ⟨block, hb, ht⟩

theorem finished_of_not_isOpen (hp : g.pending = ∅) (h : ¬g.isOpen) : g.Finished := by
  refine finished_iff.mpr fun b hb => ?_
  by_cases hc : b = g.current
  case pos => exact h (isOpen_iff.mpr (hc ▸ hb))
  case neg => exact (Set.eq_empty_iff_forall_notMem.mp hp b) ⟨hb, hc⟩

@[simp]
theorem next_addBlock : g.addBlock.next = g.next + 1 := by
  simp [addBlock, next]

@[simp]
theorem current_addBlock : g.addBlock.current = g.current :=
  rfl

theorem isOpen_addBlock_iff : g.addBlock.IsOpen b ↔ g.IsOpen b ∨ b = g.next := by
  simp only [IsOpen, addBlock, next, List.getElem?_append]
  split
  case isTrue h => simp [Nat.ne_of_lt h]
  case isFalse h =>
    rw [List.getElem?_eq_none (Nat.le_of_not_lt h)]
    by_cases hb : b = g.blocks.length
    case pos => simp [hb]
    case neg =>
      have : b - g.blocks.length ≠ 0 := by omega
      simp [hb, this]

theorem isOpen_addBlock (h : g.isOpen) : g.addBlock.isOpen :=
  isOpen_iff.mpr (isOpen_addBlock_iff.mpr (.inl (isOpen_iff.mp h)))

theorem pending_addBlock (h : g.isOpen) : g.addBlock.pending = insert g.next g.pending := by
  have hn : g.next ≠ g.current := (Nat.ne_of_lt (isOpen_iff.mp h).lt_next).symm
  ext b
  simp only [pending, Set.mem_ofPred_eq, isOpen_addBlock_iff, current_addBlock, Set.mem_insert_iff]
  constructor
  case mp => exact fun ⟨hb, hc⟩ => hb.elim (.inr ⟨·, hc⟩) .inl
  case mpr => exact fun hb => hb.elim (fun hb => ⟨.inr hb, hb ▸ hn⟩) (fun hb => ⟨.inl hb.1, hb.2⟩)

theorem isOpen_addBlocks (h : g.isOpen) : (g.addBlocks n).isOpen := by
  induction n generalizing g
  case zero => exact h
  case succ n hi => exact hi (isOpen_addBlock h)

theorem next_addBlocks : (g.addBlocks n).next = g.next + n := by
  induction n generalizing g
  case zero => rfl
  case succ n hi => rw [addBlocks, hi, next_addBlock, Nat.add_assoc, Nat.add_comm 1]

theorem pending_addBlocks (h : g.isOpen) :
    (g.addBlocks n).pending = g.pending ∪ { b | g.next ≤ b ∧ b < g.next + n } := by
  induction n generalizing g
  case zero =>
    refine (Set.union_eq_left.mpr ?_).symm
    exact fun b hb => absurd (Nat.lt_of_le_of_lt hb.1 hb.2) (Nat.lt_irrefl _)
  case succ n hi =>
    rw [addBlocks, hi (isOpen_addBlock h), pending_addBlock h, next_addBlock]
    ext b
    simp only [Set.mem_union, Set.mem_insert_iff, Set.mem_ofPred_eq]
    by_cases hb : b ∈ g.pending
    case pos => simp [hb]
    case neg =>
      simp only [hb, or_false, false_or]
      omega

theorem isOpen_modify_iff (hb : b ≠ g.current) : (g.modify f).IsOpen b ↔ g.IsOpen b := by
  simp [IsOpen, modify, List.getElem?_modify_ne f g.blocks hb.symm]

theorem update_spec (h : g.isOpen) : ∃ g', g.update f = some g' ∧ g'.pending = g.pending ∧
    (g'.isOpen ↔ ∃ block, g.blocks[g.current]? = some block ∧ (f block).terminator = none) := by
  refine ⟨_, if_pos h, ?pending, ?isOpen⟩
  case pending =>
    ext b
    exact and_congr_left fun hb => isOpen_modify_iff hb
  case isOpen =>
    simp [isOpen_iff, IsOpen, modify, List.getElem?_modify_eq]

theorem emit_spec (h : g.isOpen) : ∃ g', g.emit i = some g' ∧ g'.isOpen ∧ g'.pending = g.pending := by
  obtain ⟨g', he, hp, ho⟩ := update_spec h
  exact ⟨g', he, ho.mpr (isOpen_iff.mp h), hp⟩

theorem terminate_spec (h : g.isOpen) :
    ∃ g', g.terminate t = some g' ∧ ¬g'.isOpen ∧ g'.pending = g.pending := by
  obtain ⟨g', he, hp, ho⟩ := update_spec h
  refine ⟨g', he, fun h => ?_, hp⟩
  obtain ⟨_, -, h⟩ := ho.mp h
  cases h

theorem emit_of_not_isOpen (h : ¬g.isOpen) : g.emit i = none :=
  if_neg h

theorem terminate_of_not_isOpen (h : ¬g.isOpen) : g.terminate t = none :=
  if_neg h

theorem isOpen_addBlock_iff_isOpen : g.addBlock.isOpen ↔ g.isOpen := by
  rw [isOpen_iff, isOpen_iff, isOpen_addBlock_iff]
  exact or_iff_left (Nat.ne_of_lt g.current_lt)

theorem not_isOpen_addBlocks (h : ¬g.isOpen) : ¬(g.addBlocks n).isOpen := by
  induction n generalizing g
  case zero => exact h
  case succ n hi => exact hi (mt isOpen_addBlock_iff_isOpen.mp h)

theorem isOpen_select (h : b ∈ g.pending) : (g.select b).isOpen := by
  rw [isOpen_iff, select, dif_pos h.1.lt_next]
  exact h.1

-- Only a finished block can be left for another one without being forgotten.
theorem pending_select (h : ¬g.isOpen) (hb : b < g.next) : (g.select b).pending = g.pending \ {b} := by
  rw [select, dif_pos hb]
  ext c
  simp only [pending, Set.mem_sdiff, Set.mem_ofPred_eq, Set.mem_singleton_iff]
  refine and_congr_left fun _ => (and_iff_left_of_imp fun hc hg => ?_).symm
  exact h (isOpen_iff.mpr (hg ▸ hc))

-- The blocks of `P` are left alone, those of `S` are still to be filled.
structure Filling (P S : Set Nat) (g : BlockBuilder ι τ) : Prop where
  pending : g.pending = P ∪ S
  fresh   : ∀ b ∈ S, b ∉ P

namespace Filling

variable {g' : BlockBuilder ι τ} {P S : Set Nat}

theorem addBlocks (h : g.isOpen) : Filling g.pending { b | g.next ≤ b ∧ b < g.next + n } (g.addBlocks n) :=
  ⟨pending_addBlocks h, fun _ hb => next_notMem_pending hb.1⟩

theorem congr (h : Filling P S g) (hp : g'.pending = g.pending) : Filling P S g' :=
  ⟨hp.trans h.pending, h.fresh⟩

theorem mem (h : Filling P S g) (hb : b ∈ S) : b ∈ g.pending :=
  h.pending ▸ Or.inr hb

theorem select (h : Filling P S g) (hc : ¬g.isOpen) (hb : b ∈ S) : Filling P (S \ {b}) (g.select b) where
  pending := by
    rw [pending_select hc (lt_next_of_mem_pending (h.mem hb)), h.pending, Set.union_sdiff_distrib,
      Set.sdiff_singleton_eq_self (h.fresh b hb)]
  fresh c hc := h.fresh c hc.1

theorem pending_eq (h : Filling P S g) (hs : ∀ b, b ∉ S) : g.pending = P :=
  h.pending.trans (Set.union_eq_left.mpr fun b hb => absurd hb (hs b))

end Filling

end BlockBuilder
