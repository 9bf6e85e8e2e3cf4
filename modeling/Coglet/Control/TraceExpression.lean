import Coglet.Control.Lower
import Coglet.Control.Traces
import Coglet.Lib.BlockPaths
import Coglet.Lib.Outcome

open scoped Computability

namespace Coglet.Control

open Outcome BlockBuilder Expression

-- The edges of a switch are told apart by the position of the case they lead to.
def events : BlockTraces Instruction Terminator Event where
  instruction
    | .constant    => 1
    | .operation l => happens (.operation l)
  edges
    | .branch b       => [(1, some b)]
    | .condBranch t f => [(happens (.test true), some t), (happens (.test false), some f)]
    | .switch bs d    =>
      (bs.zipIdx.map fun (b, i) => (happens (.choose (some i)), some b)) ++ [(happens (.choose none), some d)]
    | .ret            => [(1, none)]
    | .unreachable    => []

abbrev Blocks := List (Block Instruction Terminator)

section Leave

variable {next : Nat → Language Event} {b t f : Nat}

@[simp]
theorem leave_branch : events.leave next (.branch b) = next b := by
  simp [BlockTraces.leave, events, BlockTraces.target]

@[simp]
theorem leave_condBranch : events.leave next (.condBranch t f) =
    happens (.test true) * next t + happens (.test false) * next f := by
  simp [BlockTraces.leave, events, BlockTraces.target]

@[simp]
theorem leave_ret : events.leave next .ret = 1 := by
  simp [BlockTraces.leave, events, BlockTraces.target]

@[simp]
theorem leave_unreachable : events.leave next .unreachable = 0 :=
  rfl

end Leave

variable {g g' g₁ g₂ g₃ : Graph} {l l' : Language Event} {k k' : (Nat → Language Event) → Language Event} {b n : Nat}
variable {i : Instruction} {t : Terminator} {blocks : Blocks} {e : Expression} {es : List Expression} {a : Action}
variable {ds : List Declaration}

-- Between the ends of the two graphs happens what is in `l`.
structure Emits (l : Language Event) (g g' : Graph) : Prop where
  grows  : Grows g g'
  isOpen : g.isOpen → g'.isOpen
  tail (blocks : Blocks) : Within g'.blocks blocks →
    Unfolds (tail events blocks g) fun n => l * tail events blocks g' n

-- The graph goes on in other blocks, `k` tells how from what happens there.
structure Leaves (k : (Nat → Language Event) → Language Event) (g g' : Graph) : Prop where
  grows  : Grows g g'
  closed : ¬g'.isOpen
  tail (blocks : Blocks) : Within g'.blocks blocks →
    Unfolds (tail events blocks g) fun n => k (events.upTo blocks n)

namespace Emits

theorem refl : Emits 1 g g :=
  ⟨.refl, id, fun _ _ => .of_eq (funext fun _ => (one_mul _).symm)⟩

theorem trans (h₁ : Emits l g₁ g₂) (h₂ : Emits l' g₂ g₃) : Emits (l * l') g₁ g₃ where
  grows         := h₁.grows.trans h₂.grows
  isOpen ho     := h₂.isOpen (h₁.isOpen ho)
  tail blocks h := by
    simp only [mul_assoc]
    exact (h₁.tail blocks (h₂.grows.within.trans h)).trans (h₂.tail blocks h).mul

theorem leaves (h₁ : Emits l g₁ g₂) (h₂ : Leaves k g₂ g₃) : Leaves (fun next => l * k next) g₁ g₃ where
  grows         := h₁.grows.trans h₂.grows
  closed        := h₂.closed
  tail blocks h := (h₁.tail blocks (h₂.grows.within.trans h)).trans (h₂.tail blocks h).mul

theorem of_eq (h : Emits l g g') (hl : l = l') : Emits l' g g' :=
  hl ▸ h

theorem addBlocks : Emits 1 g (g.addBlocks n) where
  grows      := grows_addBlocks
  isOpen     := isOpen_addBlocks
  tail _ _   := .of_eq (by simp only [tail_addBlocks, one_mul])

end Emits

theorem Leaves.of_eq (h : Leaves k g g') (hk : ∀ next, k next = k' next) : Leaves k' g g' :=
  funext hk ▸ h

theorem upTo_of_fresh (blocks : Blocks) (hf : Fresh g b) :
    Unfolds (fun n => events.upTo blocks n b) (tail events blocks (g.select b)) :=
  BlockTraces.unfolds_upTo.trans (.of_eq (funext fun _ => (tail_select hf).symm))

-- What happens from the start of a block on.
theorem Leaves.upTo (h : Leaves k (g.select b) g') (hf : Fresh g b) (hw : Within g'.blocks blocks) :
    Unfolds (fun n => events.upTo blocks n b) fun n => k (events.upTo blocks n) :=
  (upTo_of_fresh blocks hf).trans (h.tail blocks hw)

namespace Graph

theorem emit_ensures : Ensures (emit i g) (Emits (events.instruction i) g) := by
  unfold emit
  split
  case h_1 g' h =>
    refine .ok ⟨grows_emit h, fun ho => ?_, fun blocks hw => .of_eq (tail_emit h hw)⟩
    obtain ⟨g'', he, ho', -⟩ := emit_spec ho
    cases h.symm.trans he
    exact ho'
  case h_2 => exact .error

theorem setTerminator_ensures {text : String} :
    Ensures (setTerminator t g text) (Leaves (fun next => events.leave next t) g) := by
  unfold setTerminator
  split
  case h_1 h => exact .ok ⟨grows_terminate h, (not_isOpen_of_terminate h).2, fun _ hw => .of_eq (tail_terminate h hw)⟩
  case h_2 => exact .error

theorem setBranch_ensures : Ensures (setBranch b g) (Leaves (fun next => next b) g) :=
  setTerminator_ensures.mono fun _ h => h.of_eq fun _ => leave_branch

theorem setCondBranch_ensures {t f : Nat} : Ensures (setCondBranch t f g)
    (Leaves (fun next => happens (.test true) * next t + happens (.test false) * next f) g) :=
  setTerminator_ensures.mono fun _ h => h.of_eq fun _ => leave_condBranch

theorem checkOpen_ensures : Ensures (checkOpen g) (· = g) := by
  unfold checkOpen
  split
  case isTrue => exact .ok rfl
  case isFalse => exact .error

end Graph

open Graph

def LogicalOp.shortCircuits (op : LogicalOp) : Bool :=
  op == .or

theorem setShortCircuit_ensures {op : LogicalOp} {rhs join : Nat} : Ensures (setShortCircuit op rhs join g)
    (Leaves (fun next => happens (.test !op.shortCircuits) * next rhs +
      happens (.test op.shortCircuits) * next join) g) := by
  cases op
  case and => exact setCondBranch_ensures
  case or  => exact setCondBranch_ensures.mono fun _ h => h.of_eq fun _ => add_comm ..

theorem evaluates_logical {op : LogicalOp} {left right : Expression} : (logical op left right).evaluates =
    left.evaluates * (happens (.test !op.shortCircuits) * right.evaluates + happens (.test op.shortCircuits)) := by
  cases op
  case and => rfl
  case or  => exact congrArg (left.evaluates * ·) (add_comm ..)

theorem lowerOperands_ensures (hs : ∀ e ∈ es, ∀ g : Graph, Ensures (lowerExpression e g) (Emits e.evaluates g)) :
    Ensures (lowerOperands es g) (Emits (evaluatesAll es) g) := by
  induction es generalizing g
  case nil => exact .ok .refl
  case cons e es hi =>
    rw [List.forall_mem_cons] at hs
    refine (hs.1 g).bind fun g₁ h₁ => ?_
    exact (hi hs.2).mono fun _ h₂ => h₁.trans h₂

-- The two ways on behind a test come together in the block `join`.
theorem logical_ensures {op : LogicalOp} {left right : Expression}
    (hl : ∀ g, Ensures (lowerExpression left g) (Emits left.evaluates g))
    (hr : ∀ g, Ensures (lowerExpression right g) (Emits right.evaluates g)) :
    Ensures (lowerExpression (.logical op left right) g) (Emits (logical op left right).evaluates g) := by
  refine (hl g).bind fun g₁ h₁ => ?_
  refine checkOpen_ensures.bind fun _ hg => hg ▸ ?_
  refine emit_ensures.bind fun g₂ h₂ => ?_
  refine setShortCircuit_ensures.bind fun g₃ h₃ => ?_
  have hf (b : Nat) (hb : g₁.next ≤ b) (hn : b < g₁.next + 2) : Fresh g₃ b :=
    h₃.grows.fresh (h₂.grows.fresh (fresh_addBlocks hb hn))
  have hr' := hf g₁.next (Nat.le_refl _) (by omega)
  have hj := (hf (g₁.next + 1) (by omega) (by omega)).select hr'.lt_next (by omega)
  have h₃ := ((h₁.trans .addBlocks).trans h₂).leaves h₃
  refine (hr _).bind fun g₄ h₄ => ?_
  refine checkOpen_ensures.bind fun _ hg => hg ▸ ?_
  refine setBranch_ensures.bind fun g₅ h₅ => ?_
  have h₅ := h₄.leaves h₅
  have hj := h₅.grows.fresh hj
  have hg := (h₃.grows.select h₁.grows.next_le hr'.lt_next).trans h₅.grows
  refine .ok ⟨hg.select (Nat.le_succ_of_le h₁.grows.next_le) hj.lt_next, fun _ => hj.isOpen_select, fun blocks hw => ?_⟩
  rw [blocks_select] at hw
  have ht := h₃.tail blocks (h₅.grows.of_select.trans hw)
  have hj := upTo_of_fresh blocks hj
  have hr := (h₅.upTo hr' hw).trans hj.mul
  refine ht.trans ((hr.mul.add hj.mul).mul.trans (.of_eq (funext fun n => ?_)))
  simp only [evaluates_logical, events, mul_add, add_mul, mul_assoc, one_mul]

theorem conditional_ensures {c a b : Expression} (hc : ∀ g, Ensures (lowerExpression c g) (Emits c.evaluates g))
    (ha : ∀ g, Ensures (lowerExpression a g) (Emits a.evaluates g))
    (hb : ∀ g, Ensures (lowerExpression b g) (Emits b.evaluates g)) :
    Ensures (lowerExpression (.conditional c a b) g) (Emits (conditional c a b).evaluates g) := by
  refine (hc g).bind fun g₁ h₁ => ?_
  refine checkOpen_ensures.bind fun _ hg => hg ▸ ?_
  refine setCondBranch_ensures.bind fun g₂ h₂ => ?_
  have hf (b : Nat) (hb : g₁.next ≤ b) (hn : b < g₁.next + 3) : Fresh g₂ b := h₂.grows.fresh (fresh_addBlocks hb hn)
  have ht := hf g₁.next (by omega) (by omega)
  have he := (hf (g₁.next + 1) (by omega) (by omega)).select ht.lt_next (by omega)
  have hj := (hf (g₁.next + 2) (by omega) (by omega)).select ht.lt_next (by omega)
  have h₂ := (h₁.trans .addBlocks).leaves h₂
  refine (ha _).bind fun g₃ h₃ => ?_
  refine checkOpen_ensures.bind fun _ hg => hg ▸ ?_
  refine setBranch_ensures.bind fun g₄ h₄ => ?_
  have h₄ := h₃.leaves h₄
  have he := h₄.grows.fresh he
  have hj := (h₄.grows.fresh hj).select he.lt_next (by omega)
  refine (hb _).bind fun g₅ h₅ => ?_
  refine checkOpen_ensures.bind fun _ hg => hg ▸ ?_
  refine setBranch_ensures.bind fun g₆ h₆ => ?_
  have h₆ := h₅.leaves h₆
  have hj := h₆.grows.fresh hj
  have hn := h₁.grows.next_le
  have hg := (h₂.grows.select hn ht.lt_next).trans h₄.grows
  have hg := (hg.select (Nat.le_succ_of_le hn) he.lt_next).trans h₆.grows
  refine .ok ⟨hg.select (by omega) hj.lt_next, fun _ => hj.isOpen_select, fun blocks hw => ?_⟩
  rw [blocks_select] at hw
  have hw₄ := h₆.grows.of_select.trans hw
  have hj := upTo_of_fresh blocks hj
  have ha := (h₄.upTo ht hw₄).trans hj.mul
  have hb := (h₆.upTo he hw).trans hj.mul
  have ht := h₂.tail blocks (h₄.grows.of_select.trans hw₄)
  refine ht.trans ((ha.mul.add hb.mul).mul.trans (.of_eq (funext fun n => ?_)))
  simp only [evaluates, mul_add, add_mul, mul_assoc, one_mul]

-- The code of an expression lets the same happen as the expression.
theorem lowerExpression_ensures : Ensures (lowerExpression e g) (Emits e.evaluates g) := by
  induction e using Expression.ind generalizing g
  case constant => exact emit_ensures
  case operation hs =>
    refine (lowerOperands_ensures fun e hm g => hs e hm).bind fun g₁ h₁ => ?_
    exact emit_ensures.mono fun _ h₂ => h₁.trans h₂
  case logical hl hr => exact logical_ensures (fun _ => hl) fun _ => hr
  case conditional hc ha hb => exact conditional_ensures (fun _ => hc) (fun _ => ha) fun _ => hb

theorem lowerStatementExpression_ensures : Ensures (lowerStatementExpression a g) (Emits a.performs g) := by
  unfold lowerStatementExpression
  split
  case h_1 => exact lowerExpression_ensures
  case h_2 => exact .ok .refl
  case h_3 => exact lowerExpression_ensures

theorem lowerVariableDeclarations_ensures : Ensures (lowerVariableDeclarations ds g)
    (Emits (ds.map Declaration.initializes).prod g) := by
  induction ds generalizing g
  case nil => exact .ok .refl
  case cons d ds hi =>
    have hd : Ensures (lowerVariableDeclaration d g) (Emits d.initializes g) := by
      unfold lowerVariableDeclaration Declaration.initializes
      split
      case h_1 h => exact h ▸ lowerExpression_ensures
      case h_2 h => exact h ▸ .ok .refl
    refine hd.bind fun g₁ h₁ => ?_
    exact hi.mono fun _ h₂ => (h₁.trans h₂).of_eq List.prod_cons.symm

theorem lowerReturnValue_ensures {value : Option Expression} : Ensures (lowerReturnValue value g)
    (Emits (value.elim 1 evaluates) g) := by
  cases value
  case none => exact .ok .refl
  case some => exact lowerExpression_ensures

theorem lowerPost_ensures {post : Option Action} : Ensures (lowerPost post g)
    (Emits (post.elim 1 Action.performs) g) := by
  cases post
  case none => exact .ok .refl
  case some => exact lowerStatementExpression_ensures

theorem lowerLoopCondition_ensures {condition : Option Expression} {body exit : Nat} :
    Ensures (lowerLoopCondition condition body exit g)
      (Leaves (fun next => entersLoop condition * next body + exitsLoop condition * next exit) g) := by
  cases condition
  case none =>
    refine setBranch_ensures.mono fun _ h => h.of_eq fun next => ?_
    simp [entersLoop, exitsLoop]
  case some c =>
    refine lowerExpression_ensures.bind fun g₁ h₁ => ?_
    refine checkOpen_ensures.bind fun _ hg => hg ▸ ?_
    unfold entersLoop exitsLoop
    cases hc : c.constBoolValue
    case none =>
      refine setCondBranch_ensures.mono fun _ h => (h₁.leaves h).of_eq fun next => ?_
      simp only [Option.elim_some, hc, mul_add, mul_assoc]
    case some value =>
      refine setBranch_ensures.mono fun _ h => (h₁.leaves h).of_eq fun next => ?_
      cases value <;> simp [hc]

end Coglet.Control
