import Coglet.Lib.BlockBuilder
import Coglet.Lib.Unfolding
import Mathlib.Algebra.Order.BigOperators.Group.List

open scoped Computability

-- What may happen in an instruction, and on which edges a terminator is left. An edge without a target leaves all
-- of the blocks.
structure BlockTraces (ι τ ε : Type*) where
  instruction : ι → Language ε
  edges       : τ → List (Language ε × Option Nat)

namespace BlockTraces

variable {ι τ ε : Type*} (m : BlockTraces ι τ ε)

def straight (is : List ι) : Language ε :=
  (is.map m.instruction).prod

def target (next : Nat → Language ε) : Option Nat → Language ε
  | none   => 1
  | some b => next b

def leave (next : Nat → Language ε) (t : τ) : Language ε :=
  ((m.edges t).map fun edge => edge.1 * target next edge.2).sum

-- What happens from the `k`-th instruction of the block on.
def rest (next : Nat → Language ε) (k : Nat) (block : Block ι τ) : Language ε :=
  m.straight (block.instructions.drop k) * (block.terminator.elim 0 (m.leave next))

-- What happens on the ways out of the blocks that start in `b` and go through at most `n` of them.
def upTo (blocks : List (Block ι τ)) : Nat → Nat → Language ε
  | 0, _     => 0
  | n + 1, b => blocks[b]?.elim 0 (m.rest (upTo blocks n) 0)

def paths (blocks : List (Block ι τ)) (b : Nat) : Language ε :=
  ⨆ n, m.upTo blocks n b

variable {m} {blocks : List (Block ι τ)} {next next' : Nat → Language ε} {n b k : Nat} {t : τ} {i : ι}

theorem leave_mono (h : next ≤ next') : m.leave next t ≤ m.leave next' t := by
  refine List.sum_le_sum fun edge _ => ?_
  refine mul_le_mul_right ?_ edge.1
  cases edge.2
  case none => exact le_rfl
  case some b => exact h b

theorem rest_mono (h : next ≤ next') {block : Block ι τ} : m.rest next k block ≤ m.rest next' k block := by
  refine mul_le_mul_right ?_ _
  cases block.terminator
  case none => exact le_rfl
  case some => exact leave_mono h

theorem upTo_le_succ : m.upTo blocks n ≤ m.upTo blocks (n + 1) := by
  induction n
  case zero => exact fun _ => bot_le
  case succ n hi =>
    intro b
    simp only [upTo]
    cases blocks[b]?
    case none => exact le_rfl
    case some => exact rest_mono hi

theorem monotone_upTo : Monotone (m.upTo blocks) :=
  monotone_nat_of_le_succ fun _ => upTo_le_succ

theorem unfolds_upTo : Unfolds (m.upTo blocks · b) fun n => m.upTo blocks (n + 1) b :=
  .succ fun _ _ h => monotone_upTo h b

end BlockTraces

namespace BlockBuilder

variable {ι τ ε : Type*} {g g' g₁ g₂ g₃ : BlockBuilder ι τ} {blocks blocks₁ blocks₂ blocks₃ : List (Block ι τ)}
variable {m : BlockTraces ι τ ε} {i : ι} {t : τ} {b c n k : Nat}

-- The blocks are kept, only open ones are continued.
def Within (blocks₁ blocks₂ : List (Block ι τ)) : Prop :=
  ∀ (b : Nat) (block : Block ι τ), blocks₁[b]? = some block → ∃ block', blocks₂[b]? = some block' ∧
    block.instructions <+: block'.instructions ∧ (block.terminator ≠ none → block' = block)

namespace Within

theorem refl : Within blocks blocks :=
  fun _ block h => ⟨block, h, List.prefix_rfl, fun _ => rfl⟩

theorem trans (h₁ : Within blocks₁ blocks₂) (h₂ : Within blocks₂ blocks₃) : Within blocks₁ blocks₃ := by
  intro b block hb
  obtain ⟨block', hb', hp, ht⟩ := h₁ b block hb
  obtain ⟨block'', hb'', hp', ht'⟩ := h₂ b block' hb'
  refine ⟨block'', hb'', hp.trans hp', fun h => ?_⟩
  cases ht h
  exact ht' h

end Within

-- The current block as far as it is known.
def block (g : BlockBuilder ι τ) : Block ι τ :=
  g.blocks.get ⟨g.current, g.current_lt⟩

theorem getElem?_current : g.blocks[g.current]? = some g.block :=
  List.getElem?_eq_getElem g.current_lt

theorem isOpen_iff_block : g.isOpen ↔ g.block.terminator = none := by
  rw [isOpen, getElem?_current, Option.any_some, Option.isNone_iff_eq_none]

-- What happens behind the end of the current block in the finished ones. A closed block has no such end.
def tail (m : BlockTraces ι τ ε) (blocks : List (Block ι τ)) (g : BlockBuilder ι τ) (n : Nat) : Language ε :=
  if g.isOpen then
    blocks[g.current]?.elim 0 (m.rest (m.upTo blocks n) g.block.instructions.length)
  else 0

theorem tail_of_not_isOpen (h : ¬g.isOpen) : tail m blocks g n = 0 :=
  if_neg h

theorem monotone_tail : Monotone (tail m blocks g) := by
  intro k n h
  unfold tail
  split
  case isTrue =>
    cases blocks[g.current]?
    case none => exact le_rfl
    case some => exact BlockTraces.rest_mono (BlockTraces.monotone_upTo h)
  case isFalse => exact le_rfl

-- Code was added behind the end of the current block and in new blocks.
structure Grows (g g' : BlockBuilder ι τ) : Prop where
  within  : Within g.blocks g'.blocks
  others  : ∀ b ≠ g.current, b < g.next → g'.blocks[b]? = g.blocks[b]?
  current : g'.current = g.current ∨ g.next ≤ g'.current

-- A new block into which nothing was written.
structure Fresh (g : BlockBuilder ι τ) (b : Nat) : Prop where
  empty : g.blocks[b]? = some {}
  other : b ≠ g.current

theorem Fresh.lt_next (h : Fresh g b) : b < g.next :=
  (List.getElem?_eq_some_iff.mp h.1).1

namespace Grows

theorem refl : Grows g g :=
  ⟨.refl, fun _ _ _ => rfl, .inl rfl⟩

theorem next_le (h : Grows g g') : g.next ≤ g'.next := by
  by_contra hlt
  obtain ⟨_, hb, -⟩ := h.within g'.next _ (List.getElem?_eq_getElem (Nat.not_le.mp hlt))
  exact Nat.lt_irrefl _ (List.getElem?_eq_some_iff.mp hb).1

theorem trans (h₁ : Grows g₁ g₂) (h₂ : Grows g₂ g₃) : Grows g₁ g₃ where
  within       := h₁.within.trans h₂.within
  others b hb hn := by
    refine (h₂.others b ?_ (Nat.lt_of_lt_of_le hn h₁.next_le)).trans (h₁.others b hb hn)
    rintro rfl
    exact h₁.current.elim hb (Nat.not_le.mpr hn)
  current := by
    rcases h₂.current with h | h
    case inl => exact h ▸ h₁.current
    case inr => exact .inr (h₁.next_le.trans h)

theorem fresh (h : Grows g g') (hb : Fresh g b) : Fresh g' b := by
  refine ⟨(h.others b hb.2 hb.lt_next).trans hb.1, ?_⟩
  rintro rfl
  exact h.current.elim hb.2 (Nat.not_le.mpr hb.lt_next)

end Grows

theorem blocks_select : (g.select b).blocks = g.blocks := by
  unfold select
  split <;> rfl

theorem current_select (h : b < g.next) : (g.select b).current = b := by
  rw [select, dif_pos h]

theorem Fresh.select (h : Fresh g b) (hc : c < g.next) (hb : b ≠ c) : Fresh (g.select c) b :=
  ⟨blocks_select (g := g) (b := c) ▸ h.1, (current_select hc).symm ▸ hb⟩

theorem Fresh.isOpen_select (h : Fresh g b) : (g.select b).isOpen := by
  rw [isOpen_iff, IsOpen, current_select h.lt_next, blocks_select]
  exact ⟨_, h.1, rfl⟩

theorem Grows.of_select (h : Grows (g.select b) g') : Within g.blocks g'.blocks :=
  blocks_select (g := g) (b := b) ▸ h.within

theorem Grows.select (h : Grows g g') (hb : g.next ≤ b) (hn : b < g'.next) : Grows g (g'.select b) := by
  have hs : (g'.select b).blocks = g'.blocks := blocks_select
  exact ⟨hs ▸ h.within, fun c hc hn => hs ▸ h.others c hc hn, .inr ((current_select hn).symm ▸ hb)⟩

theorem getElem?_addBlocks (h : b < g.next) : (g.addBlocks n).blocks[b]? = g.blocks[b]? := by
  induction n generalizing g
  case zero => rfl
  case succ n hi =>
    rw [addBlocks, hi (next_addBlock ▸ Nat.lt_succ_of_lt h)]
    exact List.getElem?_append_left h

theorem current_addBlocks : (g.addBlocks n).current = g.current := by
  induction n generalizing g
  case zero => rfl
  case succ n hi => exact hi

theorem fresh_addBlocks (h : g.next ≤ b) (hb : b < g.next + n) : Fresh (g.addBlocks n) b := by
  have hc : b ≠ (g.addBlocks n).current := by
    rw [current_addBlocks]
    exact (Nat.lt_of_lt_of_le g.current_lt h).ne'
  refine ⟨?_, hc⟩
  clear hc
  induction n generalizing g
  case zero => omega
  case succ n hi =>
    by_cases he : b = g.next
    case pos =>
      subst he
      rw [addBlocks, getElem?_addBlocks (by simp)]
      exact List.getElem?_concat_length
    case neg => exact hi (by rw [next_addBlock]; omega) (by rw [next_addBlock]; omega)

theorem grows_addBlocks : Grows g (g.addBlocks n) where
  within _ block h :=
    ⟨block, (getElem?_addBlocks (List.getElem?_eq_some_iff.mp h).1).trans h, List.prefix_rfl, fun _ => rfl⟩
  others _ _ h := getElem?_addBlocks h
  current      := .inl current_addBlocks

theorem tail_addBlocks : tail m blocks (g.addBlocks n) = tail m blocks g := by
  have hb : (g.addBlocks n).block = g.block := by
    have := getElem?_addBlocks (n := n) g.current_lt
    rw [← current_addBlocks (n := n), getElem?_current, current_addBlocks, getElem?_current] at this
    exact Option.some.inj this
  have ho : (g.addBlocks n).isOpen = g.isOpen := Bool.eq_iff_iff.mpr (by rw [isOpen_iff_block, isOpen_iff_block, hb])
  funext k
  rw [tail, tail, hb, ho, current_addBlocks]

theorem tail_select (h : Fresh g b) : tail m blocks (g.select b) n = m.upTo blocks (n + 1) b := by
  have hc := current_select h.lt_next
  have hb : (g.select b).block = {} := by
    have := getElem?_current (g := g.select b)
    rw [blocks_select, hc, h.1] at this
    exact (Option.some.inj this).symm
  rw [tail, if_pos (isOpen_iff_block.mpr (hb ▸ rfl)), hb, hc]
  rfl

theorem update_cases {f : Block ι τ → Block ι τ} (h : g.update f = some g') :
    g.isOpen ∧ g' = g.modify f := by
  unfold update at h
  split at h
  case isTrue ho => exact ⟨ho, (Option.some.inj h).symm⟩
  case isFalse => cases h

theorem getElem?_modify {f : Block ι τ → Block ι τ} (hb : b ≠ g.current) : (g.modify f).blocks[b]? = g.blocks[b]? :=
  List.getElem?_modify_ne f g.blocks hb.symm

theorem block_modify {f : Block ι τ → Block ι τ} : (g.modify f).block = f g.block := by
  have := getElem?_current (g := g.modify f)
  rw [modify, List.getElem?_modify_eq, getElem?_current] at this
  exact (Option.some.inj this).symm

-- Both ways to write to the current block only continue its instructions.
theorem grows_modify {f : Block ι τ → Block ι τ} (ho : g.isOpen)
    (hf : ∀ block, block.instructions <+: (f block).instructions) : Grows g (g.modify f) where
  within b block h := by
    by_cases hb : b = g.current
    case pos =>
      subst hb
      cases (getElem?_current.symm.trans h)
      refine ⟨f g.block, (getElem?_current (g := g.modify f)).trans (congrArg some block_modify), hf _, fun ht => ?_⟩
      exact absurd (isOpen_iff_block.mp ho) ht
    case neg => exact ⟨block, (getElem?_modify hb).trans h, List.prefix_rfl, fun _ => rfl⟩
  others _ hb _ := getElem?_modify hb
  current       := .inl rfl

theorem grows_emit (h : g.emit i = some g') : Grows g g' := by
  obtain ⟨ho, rfl⟩ := update_cases h
  exact grows_modify ho fun _ => List.prefix_append ..

theorem grows_terminate (h : g.terminate t = some g') : Grows g g' := by
  obtain ⟨ho, rfl⟩ := update_cases h
  exact grows_modify ho fun _ => List.prefix_rfl

theorem tail_emit (h : g.emit i = some g') (hw : Within g'.blocks blocks) :
    tail m blocks g = fun n => m.instruction i * tail m blocks g' n := by
  obtain ⟨ho, rfl⟩ := update_cases h
  obtain ⟨block, hb, hp, -⟩ := hw _ _ getElem?_current
  rw [block_modify] at hp
  obtain ⟨is, hi⟩ := hp
  have ho' : (g.modify fun block => { block with instructions := block.instructions ++ [i] }).isOpen := by
    rw [isOpen_iff_block, block_modify]
    exact isOpen_iff_block.mp ho
  have hd : block.instructions.drop g.block.instructions.length = i :: is := by
    rw [← hi, List.append_assoc, List.drop_left, List.singleton_append]
  have hd' : block.instructions.drop (g.block.instructions ++ [i]).length = is := by
    rw [← hi, List.drop_left]
  have hc : blocks[g.current]? = some block := hb
  funext n
  rw [tail, tail, if_pos ho, if_pos ho', hb, hc, block_modify]
  simp only [Option.elim_some, BlockTraces.rest, hd, hd', BlockTraces.straight, List.map_cons, List.prod_cons,
    mul_assoc]

theorem tail_terminate (h : g.terminate t = some g') (hw : Within g'.blocks blocks) :
    tail m blocks g = fun n => m.leave (m.upTo blocks n) t := by
  obtain ⟨ho, rfl⟩ := update_cases h
  obtain ⟨block, hb, -, ht⟩ := hw _ _ getElem?_current
  rw [block_modify] at ht
  cases ht nofun
  have hc : blocks[g.current]? = some { g.block with terminator := some t } := hb
  funext n
  rw [tail, if_pos ho, hc]
  simp only [Option.elim_some, BlockTraces.rest, List.drop_length, BlockTraces.straight, List.map_nil, List.prod_nil,
    one_mul]

theorem not_isOpen_of_terminate (h : g.terminate t = some g') : g.isOpen ∧ ¬g'.isOpen := by
  obtain ⟨ho, rfl⟩ := update_cases h
  refine ⟨ho, ?_⟩
  rw [isOpen_iff_block, block_modify]
  exact nofun

end BlockBuilder
