import Mathlib.Data.List.Basic

-- Trees of binary operators of which each one has a precedence, and precedence climbing over a list of operators and
-- operands.
namespace Precedence

inductive Tree (ω ν : Type*)
  | operand (operand : ν)
  | binary (op : ω) (left right : Tree ω ν)
deriving DecidableEq, Repr

namespace Tree

-- The operators and operands from left to right.
def tokens : Tree ω ν → List (ω ⊕ ν)
  | operand x => [.inr x]
  | binary op left right => left.tokens ++ .inl op :: right.tokens

def operators : Tree ω ν → List ω
  | operand _ => []
  | binary op left right => left.operators ++ op :: right.operators

def root : Tree ω ν → Option ω
  | operand _ => none
  | binary op _ _ => some op

theorem mem_operators_iff {tree : Tree ω ν} {op : ω} : op ∈ tree.operators ↔ .inl op ∈ tree.tokens := by
  induction tree
  case operand => simp [operators, tokens]
  case binary hl hr => simp [operators, tokens, hl, hr]

end Tree

variable {ω ν : Type*} (prec : ω → Nat)

-- Equal precedences associate to the left, since only the left operand of an operator has an operator of the same
-- precedence at its root.
def Ordered : Tree ω ν → Prop
  | .operand _ => True
  | .binary op left right =>
    (∀ op' ∈ left.root, prec op ≤ prec op') ∧ (∀ op' ∈ right.operators, prec op < prec op') ∧
      Ordered left ∧ Ordered right

variable {prec} {tree tree' left right : Tree ω ν}

-- The root of an ordered tree has the lowest precedence.
theorem Ordered.root_le (h : Ordered prec tree) {root : ω} (hr : root ∈ tree.root) :
    ∀ op ∈ tree.operators, prec root ≤ prec op := by
  induction tree generalizing root
  case operand => cases hr
  case binary op left right hl _ =>
    obtain ⟨hroot, hright, hleft, _⟩ := h
    cases hr
    intro op' hm
    cases List.mem_append.mp hm
    case inl hm =>
      cases left with
      | operand => cases hm
      | binary op'' => exact Nat.le_trans (hroot op'' rfl) (hl hleft rfl op' hm)
    case inr hm =>
      cases List.mem_cons.mp hm
      case inl he => exact he ▸ Nat.le_refl _
      case inr hm => exact Nat.le_of_lt (hright op' hm)

-- An operator of the left operand does not bind tighter to the left than the root, one of the right operand always does.
theorem Ordered.not_extends {op op' : ω} {left right left' right' : Tree ω ν} {middle : List (ω ⊕ ν)}
    (h : Ordered prec (.binary op left right)) (h' : Ordered prec (.binary op' left' right'))
    (hr : right.tokens = middle ++ .inl op' :: right'.tokens)
    (hl : left'.tokens = left.tokens ++ .inl op :: middle) : False := by
  have hlt : prec op < prec op' := h.2.1 op' (Tree.mem_operators_iff.mpr (by simp [hr]))
  have hm : op ∈ (Tree.binary op' left' right').operators :=
    List.mem_append_left _ (Tree.mem_operators_iff.mpr (by simp [hl]))
  have hle : prec op' ≤ prec op := h'.root_le rfl op hm
  exact absurd hlt (Nat.not_lt.mpr hle)

theorem tokens_ne_nil (tree : Tree ω ν) : tree.tokens ≠ [] := by
  cases tree <;> simp [Tree.tokens]

theorem Ordered.unique (h : Ordered prec tree) (h' : Ordered prec tree') (ht : tree.tokens = tree'.tokens) :
    tree = tree' := by
  induction tree generalizing tree'
  case operand x =>
    cases tree'
    case operand => simp_all [Tree.tokens]
    case binary left right =>
      have := tokens_ne_nil left
      simp [Tree.tokens, List.cons_eq_append_iff, this] at ht
  case binary op left right hl hr =>
    cases tree'
    case operand =>
      have := tokens_ne_nil left
      simp [Tree.tokens, List.append_eq_cons_iff, this] at ht
    case binary op' left' right' =>
      simp only [Tree.tokens] at ht
      cases List.append_eq_append_iff.mp ht
      case inl hs =>
        obtain ⟨middle, hleft, hrest⟩ := hs
        cases middle with
        | nil =>
          simp only [List.append_nil, List.nil_append, List.cons.injEq, Sum.inl.injEq] at hleft hrest
          rw [hl h.2.2.1 h'.2.2.1 hleft.symm, hrest.1, hr h.2.2.2 h'.2.2.2 hrest.2]
        | cons token middle =>
          simp only [List.cons_append, List.cons.injEq] at hrest
          exact (h.not_extends h' hrest.2 (hrest.1 ▸ hleft)).elim
      case inr hs =>
        obtain ⟨middle, hleft, hrest⟩ := hs
        cases middle with
        | nil =>
          simp only [List.append_nil, List.nil_append, List.cons.injEq, Sum.inl.injEq] at hleft hrest
          rw [hl h.2.2.1 h'.2.2.1 hleft, ← hrest.1, hr h.2.2.2 h'.2.2.2 hrest.2.symm]
        | cons token middle =>
          simp only [List.cons_append, List.cons.injEq] at hrest
          exact (h'.not_extends h hrest.2 (hrest.1 ▸ hleft)).elim

-- The tokens of a list of operators, each with its right operand.
def pairTokens : List (ω × ν) → List (ω ⊕ ν)
  | [] => []
  | (op, x) :: rest => .inl op :: .inr x :: pairTokens rest

variable (prec) in
-- Precedence climbing: the operators from the minimal precedence on are consumed, and each takes a right operand of
-- strictly higher precedence.
inductive Climbs : Nat → Tree ω ν → List (ω × ν) → Tree ω ν → List (ω × ν) → Prop
  | stop {minPrec : Nat} {tree : Tree ω ν} {rest : List (ω × ν)} (lower : ∀ p ∈ rest.head?, prec p.1 < minPrec) :
    Climbs minPrec tree rest tree rest
  | step {minPrec : Nat} {left right tree : Tree ω ν} {op : ω} {x : ν} {rest middle last : List (ω × ν)}
      (reaches : minPrec ≤ prec op) (operand : Climbs (prec op + 1) (.operand x) rest right middle)
      (continues : Climbs minPrec (.binary op left right) middle tree last) :
    Climbs minPrec left ((op, x) :: rest) tree last

namespace Climbs

variable {minPrec : Nat} {rest last : List (ω × ν)}

theorem head_lt (h : Climbs prec minPrec left rest tree last) : ∀ p ∈ last.head?, prec p.1 < minPrec := by
  induction h
  case stop lower => exact lower
  case step ih => exact ih

theorem tokens_eq (h : Climbs prec minPrec left rest tree last) :
    tree.tokens ++ pairTokens last = left.tokens ++ pairTokens rest := by
  induction h
  case stop => rfl
  case step ho hc =>
    rw [hc, Tree.tokens, List.append_assoc, List.cons_append, ho]
    rfl

theorem operators_of_mem (h : Climbs prec minPrec left rest tree last) {op : ω} (hm : op ∈ tree.operators) :
    op ∈ left.operators ∨ minPrec ≤ prec op := by
  induction h
  case stop => exact .inl hm
  case step reaches ho hc io ic =>
    cases ic hm
    case inr hm => exact .inr hm
    case inl hm =>
      simp only [Tree.operators, List.mem_append, List.mem_cons] at hm
      rcases hm with hm | rfl | hm
      case inl => exact .inl hm
      case inr.inl => exact .inr reaches
      case inr.inr =>
        have hlt := (io hm).resolve_left List.not_mem_nil
        exact .inr (Nat.le_of_succ_le (Nat.le_trans (Nat.succ_le_succ reaches) hlt))

-- The next operator does not bind tighter than the one at the root of the left operand.
theorem ordered (h : Climbs prec minPrec left rest tree last) (ho : Ordered prec left)
    (hr : ∀ p ∈ rest.head?, ∀ op ∈ left.root, prec p.1 ≤ prec op) : Ordered prec tree := by
  induction h
  case stop => exact ho
  case step left right _ op x _ middle _ _ operand _ io ic =>
    have hright : ∀ op' ∈ right.operators, prec op < prec op' := fun op' hm =>
      (operand.operators_of_mem hm).resolve_left (List.not_mem_nil)
    have hordered : Ordered prec right := io trivial fun _ _ _ hn => nomatch hn
    apply ic ⟨hr (op, x) rfl, hright, ho, hordered⟩
    intro p hp op' he
    cases he
    exact Nat.le_of_lt_succ (operand.head_lt p hp)

theorem suffix (h : Climbs prec minPrec left rest tree last) : last <:+ rest := by
  induction h
  case stop => exact List.suffix_rfl
  case step io ic => exact (ic.trans io).trans (List.suffix_cons _ _)

end Climbs

theorem exists_climbs (minPrec : Nat) (left : Tree ω ν) (rest : List (ω × ν)) :
    ∃ tree last, Climbs prec minPrec left rest tree last := by
  induction hn : rest.length using Nat.strongRecOn generalizing minPrec left rest
  case ind n ih =>
    subst hn
    cases rest with
    | nil => exact ⟨left, [], .stop nofun⟩
    | cons p rest =>
      by_cases hp : minPrec ≤ prec p.1
      case pos =>
        obtain ⟨right, middle, operand⟩ := ih rest.length (Nat.lt_succ_self _) (prec p.1 + 1) (.operand p.2) rest rfl
        have hm := Nat.lt_succ_of_le operand.suffix.length_le
        obtain ⟨tree, last, continues⟩ := ih middle.length hm minPrec (.binary p.1 left right) middle rfl
        exact ⟨tree, last, .step hp operand continues⟩
      case neg => exact ⟨left, p :: rest, .stop fun _ he => Option.some.inj he ▸ Nat.not_le.mp hp⟩

-- Climbing from the lowest precedence turns the whole list into the only ordered tree of its tokens.
theorem climbs_all {x : ν} {rest : List (ω × ν)} (hp : ∀ p ∈ rest, minPrec ≤ prec p.1) :
    ∃ tree, Climbs prec minPrec (.operand x) rest tree [] ∧ tree.tokens = .inr x :: pairTokens rest ∧
      Ordered prec tree := by
  obtain ⟨tree, last, climbs⟩ := @exists_climbs ω ν prec minPrec (.operand x) rest
  have hlast : last = [] := by
    cases last with
    | nil => rfl
    | cons p last =>
      have hlt := climbs.head_lt p rfl
      have hle := hp p (climbs.suffix.subset List.mem_cons_self)
      exact absurd hlt (Nat.not_lt.mpr hle)
  subst hlast
  have ht := climbs.tokens_eq
  rw [pairTokens, List.append_nil] at ht
  exact ⟨tree, climbs, ht, climbs.ordered trivial fun _ _ _ hn => nomatch hn⟩

end Precedence
