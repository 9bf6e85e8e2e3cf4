import Coglet.Control.Lower
import Coglet.Lib.Outcome

namespace Coglet.Control

open Graph Outcome BlockBuilder

variable {g g' : Graph} {b n : Nat} {e : Expression} {es : List Expression} {a : Action} {ds : List Declaration}

-- The code goes on in an open block, and the other open blocks are as they were.
structure Straight (g g' : Graph) : Prop where
  isOpen  : g'.isOpen
  pending : g'.pending = g.pending

-- The block is closed, and the other open blocks are as they were.
structure Closed (g g' : Graph) : Prop where
  closed  : ¬g'.isOpen
  pending : g'.pending = g.pending

theorem Straight.refl (h : g.isOpen) : Straight g g :=
  ⟨h, rfl⟩

theorem Straight.trans {g₁ g₂ g₃ : Graph} (h₁ : Straight g₁ g₂) (h₂ : Straight g₂ g₃) : Straight g₁ g₃ :=
  ⟨h₂.isOpen, h₂.pending.trans h₁.pending⟩

theorem Straight.closed {g₁ g₂ g₃ : Graph} (h₁ : Straight g₁ g₂) (h₂ : Closed g₂ g₃) : Closed g₁ g₃ :=
  ⟨h₂.closed, h₂.pending.trans h₁.pending⟩

namespace Graph

theorem emit_yields {i : Instruction} (h : g.isOpen) : Yields (emit i g) (Straight g) := by
  obtain ⟨g', he, ho, hp⟩ := emit_spec h
  exact ⟨g', by rw [emit, he], ho, hp⟩

theorem setTerminator_yields {t : Terminator} {text : String} (h : g.isOpen) :
    Yields (setTerminator t g text) (Closed g) := by
  obtain ⟨g', he, ho, hp⟩ := terminate_spec h
  exact ⟨g', by rw [setTerminator, he], ho, hp⟩

theorem setShortCircuit_yields {op : LogicalOp} {rhs join : Nat} (h : g.isOpen) :
    Yields (setShortCircuit op rhs join g) (Closed g) := by
  cases op
  case and => exact setTerminator_yields h
  case or  => exact setTerminator_yields h

theorem checkOpen_yields (h : g.isOpen) : Yields (checkOpen g) (Straight g) :=
  ⟨g, if_pos h, .refl h⟩

end Graph

theorem lowerOperands_yields (hs : ∀ e ∈ es, ∀ g : Graph, g.isOpen → Yields (lowerExpression e g) (Straight g))
    (h : g.isOpen) : Yields (lowerOperands es g) (Straight g) := by
  induction es generalizing g
  case nil => exact .ok (.refl h)
  case cons e es hi =>
    rw [List.forall_mem_cons] at hs
    refine (hs.1 g h).bind fun g₁ h₁ => ?_
    exact (hi hs.2 h₁.isOpen).mono fun _ h₂ => h₁.trans h₂

-- An expression ends in an open block, whatever blocks it needs in between.
theorem lowerExpression_yields (h : g.isOpen) : Yields (lowerExpression e g) (Straight g) := by
  induction e using Expression.ind generalizing g
  case constant => exact emit_yields h
  case operation hs =>
    refine (lowerOperands_yields (fun e hm g h => hs e hm h) h).bind fun g₁ h₁ => ?_
    exact (emit_yields h₁.isOpen).mono fun _ h₂ => h₁.trans h₂
  case logical op _ _ ha hb =>
    refine (ha h).bind fun g₁ h₁ => ?_
    refine (checkOpen_yields h₁.isOpen).bind fun g₂ h₂ => ?_
    have hf := Filling.addBlocks (n := 2) h₂.isOpen
    refine (emit_yields (isOpen_addBlocks h₂.isOpen)).bind fun g₃ h₃ => ?_
    refine (setShortCircuit_yields h₃.isOpen).bind fun g₄ h₄ => ?_
    have hf := hf.congr (h₃.closed h₄).pending
    have hr : g₂.next ∈ { b | g₂.next ≤ b ∧ b < g₂.next + 2 } := by simp
    refine (hb (isOpen_select (hf.mem hr))).bind fun g₅ h₅ => ?_
    refine (checkOpen_yields h₅.isOpen).bind fun g₆ h₆ => ?_
    refine (setTerminator_yields h₆.isOpen).bind fun g₇ h₇ => ?_
    have hf := (hf.select h₄.closed hr).congr ((h₅.trans h₆).closed h₇).pending
    have hj : g₂.next + 1 ∈ { b | g₂.next ≤ b ∧ b < g₂.next + 2 } \ {g₂.next} := by simp
    refine .ok ⟨isOpen_select (hf.mem hj), ?_⟩
    rw [(hf.select h₇.closed hj).pending_eq, (h₁.trans h₂).pending]
    simp only [Set.mem_sdiff, Set.mem_ofPred_eq, Set.mem_singleton_iff]
    omega
  case conditional hc ha hb =>
    refine (hc h).bind fun g₁ h₁ => ?_
    refine (checkOpen_yields h₁.isOpen).bind fun g₂ h₂ => ?_
    have hf := Filling.addBlocks (n := 3) h₂.isOpen
    refine (setTerminator_yields (isOpen_addBlocks h₂.isOpen)).bind fun g₃ h₃ => ?_
    have hf := hf.congr h₃.pending
    have ht : g₂.next ∈ { b | g₂.next ≤ b ∧ b < g₂.next + 3 } := by simp
    refine (ha (isOpen_select (hf.mem ht))).bind fun g₄ h₄ => ?_
    refine (checkOpen_yields h₄.isOpen).bind fun g₅ h₅ => ?_
    refine (setTerminator_yields h₅.isOpen).bind fun g₆ h₆ => ?_
    have hf := (hf.select h₃.closed ht).congr ((h₄.trans h₅).closed h₆).pending
    have he : g₂.next + 1 ∈ { b | g₂.next ≤ b ∧ b < g₂.next + 3 } \ {g₂.next} := by simp
    refine (hb (isOpen_select (hf.mem he))).bind fun g₇ h₇ => ?_
    refine (checkOpen_yields h₇.isOpen).bind fun g₈ h₈ => ?_
    refine (setTerminator_yields h₈.isOpen).bind fun g₉ h₉ => ?_
    have hf := (hf.select h₆.closed he).congr ((h₇.trans h₈).closed h₉).pending
    have hj : g₂.next + 2 ∈ ({ b | g₂.next ≤ b ∧ b < g₂.next + 3 } \ {g₂.next}) \ {g₂.next + 1} := by simp
    refine .ok ⟨isOpen_select (hf.mem hj), ?_⟩
    rw [(hf.select h₉.closed hj).pending_eq, (h₁.trans h₂).pending]
    simp only [Set.mem_sdiff, Set.mem_ofPred_eq, Set.mem_singleton_iff]
    omega

theorem lowerAssignment_yields {label : Nat} (h : g.isOpen) : Yields (lowerAssignment label es g) (Straight g) :=
  lowerExpression_yields h

theorem lowerStatementExpression_yields (h : g.isOpen) : Yields (lowerStatementExpression a g) (Straight g) := by
  unfold lowerStatementExpression
  split
  case h_1 => exact lowerAssignment_yields h
  case h_2 => exact .ok (.refl h)
  case h_3 => exact lowerExpression_yields h

theorem lowerVariableDeclarations_yields (h : g.isOpen) : Yields (lowerVariableDeclarations ds g) (Straight g) := by
  induction ds generalizing g
  case nil => exact .ok (.refl h)
  case cons d ds hi =>
    have hd : Yields (lowerVariableDeclaration d g) (Straight g) := by
      unfold lowerVariableDeclaration
      split
      case h_1 => exact lowerAssignment_yields h
      case h_2 => exact .ok (.refl h)
    refine hd.bind fun g₁ h₁ => ?_
    exact (hi h₁.isOpen).mono fun _ h₂ => h₁.trans h₂

theorem lowerReturnValue_yields {value : Option Expression} (h : g.isOpen) :
    Yields (lowerReturnValue value g) (Straight g) := by
  cases value
  case none => exact .ok (.refl h)
  case some => exact lowerExpression_yields h

theorem lowerPost_yields {post : Option Action} (h : g.isOpen) : Yields (lowerPost post g) (Straight g) := by
  cases post
  case none => exact .ok (.refl h)
  case some => exact lowerStatementExpression_yields h

end Coglet.Control
