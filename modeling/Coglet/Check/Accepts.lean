import Coglet.Check.Expression
import Coglet.Const.Safety
import Coglet.Const.Typing

open Demand

namespace Coglet

-- The checker accepts an expression as one of the given type.
def Accepts (ctx : Context κ) (env : Environment κ) (e : Expr) (type : Ty) : Prop :=
  Succeeds env.values (checkExpression ctx e) type

def Expr.operands : Expr → List Expr
  | unary _ x            => [x]
  | logical _ l r        => [l, r]
  | binary _ l r         => [l, r]
  | cast _ _ x           => [x]
  | wrappingBinary _ l r => [l, r]
  | wrappingNeg x        => [x]
  | ifExpr c a b         => [c, a, b]
  | _                    => []

section Inversion

variable {ctx : Context κ} {env : Environment κ}

@[simp]
theorem succeeds_requireValue :
    Succeeds env.values (requireValue type : Checked κ Ty) t ↔ type.kind ≠ .void ∧ type = t := by
  unfold requireValue
  split <;> simp_all

-- The results of attempted computations are needed, so none of them may have failed.
theorem succeeds_attempt {p : Checked κ Ty} {f : Option Ty → Checked κ Ty}
    (h : Succeeds env.values (p.attempt >>= f) t) (hn : ¬Succeeds env.values (f none) t) :
    ∃ t', Succeeds env.values p t' ∧ Succeeds env.values (f (some t')) t := by
  have ⟨o, ho, hf⟩ := succeeds_bind.mp h
  cases o
  case none   => exact absurd hf hn
  case some a => exact ⟨a, succeeds_attempt_some.mp ho, hf⟩

theorem Accepts.ofValue (h : Succeeds env.values (checkExpression ctx e >>= requireValue) t) :
    Accepts ctx env e t := by
  have ⟨_, hc, hr⟩ := succeeds_bind.mp h
  exact (succeeds_requireValue.mp hr).right ▸ hc

theorem Accepts.unary (h : Accepts ctx env (.unary op x) t) :
    ∃ t', Accepts ctx env x t' ∧ Succeeds env.values (checkUnary ctx (.unary op x) op t') t := by
  have ⟨t', hx, hu⟩ := succeeds_bind.mp h
  exact ⟨t', .ofValue hx, hu⟩

theorem Accepts.binary (h : Accepts ctx env (.binary op l r) t) :
    ∃ tl tr, Accepts ctx env l tl ∧ Accepts ctx env r tr ∧
      Succeeds env.values (checkBinary ctx (.binary op l r) l r op tl tr) t := by
  have ⟨tl, hl, h⟩ := succeeds_bind.mp h
  cases ho : overloadedOperator op tl <;> simp only [ho] at h
  case some => exact absurd h succeeds_error
  case none =>
    have ⟨tr, hr, h⟩ := succeeds_bind.mp h
    exact ⟨tl, tr, .ofValue hl, .ofValue hr, h⟩

theorem Accepts.logical (h : Accepts ctx env (.logical op l r) t) :
    Accepts ctx env l .bool ∧ Accepts ctx env r .bool ∧ t = .bool := by
  have ⟨tl, hl, h⟩ := succeeds_bind.mp h
  have ⟨tr, hr, h⟩ := succeeds_attempt h (by by_cases hb : tl.kind = .bool <;> simp [hb])
  by_cases hb : tl.kind = .bool <;> by_cases hb' : tr.kind = .bool <;> simp [hb, hb'] at h
  have ht := h.right.symm
  have hl := Accepts.ofValue hl
  have hr := Accepts.ofValue hr
  cases tl <;> cases hb
  cases tr <;> cases hb'
  exact ⟨hl, hr, ht⟩

theorem succeeds_resolveCastTarget
    (h : Succeeds env.values (resolveCastTarget target m : Checked κ Ty) t) :
    ∃ target' : SourceType, target = .ok target' ∧ target'.type = t := by
  cases target
  case error => exact nomatch h.value
  case ok t' => exact ⟨t', rfl, succeeds_pure.mp h⟩

theorem Accepts.checkedCast (h : Accepts ctx env (.cast .checked target x) t) :
    ∃ (target' : SourceType) (tx : Ty), target = .ok target' ∧ Accepts ctx env x tx ∧
      Succeeds env.values (checkCheckedCast ctx (.cast .checked target x) x target'.type tx) t := by
  have ⟨_, hr, h⟩ := succeeds_bind.mp h
  have ⟨target', ht, he⟩ := succeeds_resolveCastTarget hr
  subst he
  by_cases hv : target'.type.kind = .void <;> simp only [hv, ite_true, ite_false] at h
  case pos => exact absurd h succeeds_error
  case neg =>
    have ⟨tx, hx, h⟩ := succeeds_bind.mp h
    exact ⟨target', tx, ht, .ofValue hx, h⟩

theorem Accepts.truncatingCast (h : Accepts ctx env (.cast .truncating target x) t) :
    ∃ (target' : SourceType) (tx : Ty), target = .ok target' ∧ Accepts ctx env x tx ∧
      Succeeds env.values (checkTruncatingCast ctx (.cast .truncating target x) x target'.type tx) t := by
  have ⟨_, hr, h⟩ := succeeds_bind.mp h
  have ⟨target', ht, he⟩ := succeeds_resolveCastTarget hr
  subst he
  cases hc : target'.type.kind.isConcreteInteger <;> simp only [hc, Bool.not_false, Bool.not_true,
    Bool.false_eq_true, ite_true, ite_false] at h
  case false => exact absurd h succeeds_error
  case true =>
    have ⟨tx, hx, h⟩ := succeeds_bind.mp h
    exact ⟨target', tx, ht, .ofValue hx, h⟩

theorem Accepts.reinterpret (h : Accepts ctx env (.cast .reinterpret target x) t) :
    ∃ (target' : SourceType) (tx : Ty), target = .ok target' ∧ Accepts ctx env x tx ∧
      Succeeds env.values (checkReinterpret target'.type tx : Checked κ Ty) t := by
  have ⟨_, hr, h⟩ := succeeds_bind.mp h
  have ⟨target', ht, he⟩ := succeeds_resolveCastTarget hr
  subst he
  have ⟨tx, hx, h⟩ := succeeds_bind.mp h
  exact ⟨target', tx, ht, .ofValue hx, h⟩

theorem Accepts.wrappingBinary (h : Accepts ctx env (.wrappingBinary op l r) t) :
    ∃ tl tr, Accepts ctx env l tl ∧ Accepts ctx env r tr ∧
      classifyWrappingBinaryTypes tl tr = .valid t := by
  have ⟨tl, hl, h⟩ := succeeds_attempt h (by simp)
  have ⟨tr, hr, h⟩ := succeeds_attempt h (by simp)
  refine ⟨tl, tr, .ofValue hl, .ofValue hr, ?_⟩
  cases hc : classifyWrappingBinaryTypes tl tr <;> simp [hc, wrappingTypeResult] at h ⊢
  exact h

theorem Accepts.wrappingNeg (h : Accepts ctx env (.wrappingNeg x) t) :
    ∃ tx, Accepts ctx env x tx ∧ classifyWrappingNegType tx = .valid t := by
  have ⟨tx, hx, h⟩ := succeeds_bind.mp h
  refine ⟨tx, .ofValue hx, ?_⟩
  cases hc : classifyWrappingNegType tx <;> simp [hc, wrappingTypeResult] at h ⊢
  exact h

theorem Accepts.ifExpr (h : Accepts ctx env (.ifExpr c a b) t) :
    ∃ ta tb, Accepts ctx env c .bool ∧ Accepts ctx env a ta ∧ Accepts ctx env b tb ∧
      Succeeds env.values (checkIfBranches ta tb : Checked κ Ty) t := by
  have ⟨tc, hc, h⟩ := succeeds_bind.mp h
  by_cases hb : tc.kind = .bool <;>
    simp only [hb, ne_eq, not_true_eq_false, not_false_eq_true, ite_true, ite_false] at h
  case neg => exact absurd h succeeds_error
  case pos =>
    have ⟨ta, ha, h⟩ := succeeds_attempt h (by simp)
    have ⟨tb, hb', h⟩ := succeeds_attempt h (by simp)
    have hc := Accepts.ofValue hc
    cases tc <;> cases hb
    exact ⟨ta, tb, hc, .ofValue ha, .ofValue hb', h⟩

-- Whatever is accepted consists of operands that are accepted.
theorem Accepts.operand (h : Accepts ctx env e type) (hx : x ∈ e.operands) :
    ∃ t, Accepts ctx env x t := by
  cases e <;> simp only [Expr.operands, List.mem_cons, List.not_mem_nil, or_false] at hx
  case unary =>
    have ⟨t, h, _⟩ := h.unary
    exact ⟨t, hx ▸ h⟩
  case logical =>
    have ⟨hl, hr, _⟩ := h.logical
    rcases hx with rfl | rfl
    exacts [⟨.bool, hl⟩, ⟨.bool, hr⟩]
  case binary =>
    have ⟨tl, tr, hl, hr, _⟩ := h.binary
    rcases hx with rfl | rfl
    exacts [⟨tl, hl⟩, ⟨tr, hr⟩]
  case cast kind _ _ =>
    subst hx
    cases kind
    case checked     => have ⟨_, t, _, h, _⟩ := h.checkedCast; exact ⟨t, h⟩
    case truncating  => have ⟨_, t, _, h, _⟩ := h.truncatingCast; exact ⟨t, h⟩
    case reinterpret => have ⟨_, t, _, h, _⟩ := h.reinterpret; exact ⟨t, h⟩
  case wrappingBinary =>
    have ⟨tl, tr, hl, hr, _⟩ := h.wrappingBinary
    rcases hx with rfl | rfl
    exacts [⟨tl, hl⟩, ⟨tr, hr⟩]
  case wrappingNeg =>
    have ⟨t, h, _⟩ := h.wrappingNeg
    exact ⟨t, hx ▸ h⟩
  case ifExpr =>
    have ⟨ta, tb, hc, ha, hb, _⟩ := h.ifExpr
    rcases hx with rfl | rfl | rfl
    exacts [⟨.bool, hc⟩, ⟨ta, ha⟩, ⟨tb, hb⟩]

end Inversion

section Evaluation

variable {ctx : Context κ} {env : Environment κ}

variable (ctx env) in
-- The evaluation of an expression that has been checked.
def evaluation (e : Expr) : Outcome ConstValue :=
  (evalConstExpr ctx true e).outcome env.values

theorem succeeds_tryEval {f : Option ConstValue → Checked κ α}
    (h : Succeeds env.values (tryEvalConstExpr ctx e >>= f) t) :
    (∃ v, evaluation ctx env e = .value v ∧ Succeeds env.values (f (some v)) t) ∨
    (evaluation ctx env e = .failed ∧ Succeeds env.values (f none) t) := by
  have ⟨o, ho, hf⟩ := succeeds_bind.mp h
  have ho := ho.value
  simp only [tryEvalConstExpr, outcome_probe] at ho
  unfold evaluation
  cases he : (evalConstExpr ctx true e).outcome env.values <;> simp only [he] at ho <;> cases ho
  case value v => exact .inl ⟨v, rfl, hf⟩
  case failed  => exact .inr ⟨rfl, hf⟩

theorem succeeds_foldedType (h : Succeeds env.values (foldedType ctx e operand) t) :
    (∃ v, evaluation ctx env e = .value v ∧ t = v.type) ∨ (evaluation ctx env e = .failed ∧ t = operand) := by
  rcases succeeds_tryEval h with ⟨v, hv, h⟩ | ⟨hf, h⟩
  case inl => exact .inl ⟨v, hv, (succeeds_pure.mp h).symm⟩
  case inr => exact .inr ⟨hf, (succeeds_pure.mp h).symm⟩

theorem succeeds_checkMinus (h : Succeeds env.values (checkUnary ctx e .minus tx) t) :
    tx.isNumeric ∧ tx.kind.isUnsignedInteger = false ∧
    ((∃ v, evaluation ctx env e = .value v ∧ t = v.type) ∨ (evaluation ctx env e = .failed ∧ t = tx)) := by
  unfold checkUnary at h
  simp only at h
  split at h
  case h_1 => exact absurd h succeeds_error
  case h_2 =>
    cases hn : tx.isNumeric <;> simp [hn] at h
    cases hu : tx.kind.isUnsignedInteger <;> simp [hu] at h
    exact ⟨rfl, rfl, succeeds_foldedType h⟩

theorem succeeds_checkTilde (h : Succeeds env.values (checkUnary ctx e .tilde tx) t) :
    tx.isInteger ∧
    ((∃ v, evaluation ctx env e = .value v ∧ t = v.type) ∨ (evaluation ctx env e = .failed ∧ t = tx)) := by
  unfold checkUnary at h
  cases hi : tx.isInteger <;> simp [hi] at h
  exact ⟨rfl, succeeds_foldedType h⟩

theorem succeeds_checkBang (h : Succeeds env.values (checkUnary ctx e .bang tx) t) :
    tx.kind = .bool ∧ t = .bool := by
  unfold checkUnary at h
  by_cases hb : tx.kind = .bool <;> simp [hb] at h
  exact ⟨hb, h.symm⟩

theorem succeeds_checkBinaryConstantOperands
    (h : Succeeds env.values (checkBinaryConstantOperands ctx e l r tl tr operation m m') t) :
    (∃ v, evaluation ctx env e = .value v ∧ t = v.type) ∨
    (evaluation ctx env e = .failed ∧ t = operation) := by
  rcases succeeds_tryEval h with ⟨v, hv, h⟩ | ⟨hf, h⟩
  case inl => exact .inl ⟨v, hv, (succeeds_pure.mp h).symm⟩
  case inr =>
    simp only [succeeds_bind, succeeds_pure] at h
    obtain ⟨_, -, _, -, _, -, ht⟩ := h
    exact .inr ⟨hf, ht.symm⟩

theorem succeeds_checkArithmetic (h : Succeeds env.values (checkArithmetic ctx e l r op tl tr) t) :
    ∃ operation, tl.commonNumericType tr = some operation ∧
    ((∃ v, evaluation ctx env e = .value v ∧ t = v.type) ∨ (evaluation ctx env e = .failed ∧ t = operation)) := by
  unfold checkArithmetic at h
  repeat' split at h
  all_goals try exact absurd h succeeds_error
  case h_2 operation hc =>
    simp only [succeeds_bind, succeeds_pure] at h
    obtain ⟨_, h, _, -, rfl⟩ := h
    exact ⟨operation, hc, succeeds_checkBinaryConstantOperands h⟩

theorem succeeds_checkBitwise (h : Succeeds env.values (checkBitwise ctx e l r tl tr) t) :
    ∃ operation, tl.commonIntegerType tr = some operation ∧
    ((∃ v, evaluation ctx env e = .value v ∧ t = v.type) ∨ (evaluation ctx env e = .failed ∧ t = operation)) := by
  unfold checkBitwise at h
  repeat' split at h
  all_goals try exact absurd h succeeds_error
  case h_2 operation hc => exact ⟨operation, hc, succeeds_checkBinaryConstantOperands h⟩

theorem succeeds_shiftResultType (h : Succeeds env.values (shiftResultType ctx l tl) t) :
    t.kind.isConcreteInteger := by
  have ⟨t', _, h⟩ := succeeds_attempt h (by simp)
  cases hc : t'.kind.isConcreteInteger <;> simp [hc] at h
  exact h ▸ hc

theorem succeeds_checkShift (h : Succeeds env.values (checkShift ctx e l r tl tr) t) :
    (∃ v, evaluation ctx env e = .value v ∧ t = v.type) ∨
    (evaluation ctx env e = .failed ∧ t.kind.isConcreteInteger) := by
  unfold checkShift at h
  split at h
  case isTrue => exact absurd h succeeds_error
  case isFalse =>
    split at h
    case isTrue => exact absurd h succeeds_error
    case isFalse =>
      rcases succeeds_tryEval h with ⟨v, hv, h⟩ | ⟨hf, h⟩
      case inl => exact .inl ⟨v, hv, (succeeds_pure.mp h).symm⟩
      case inr =>
        simp only [succeeds_bind, succeeds_pure] at h
        obtain ⟨_, hs, _, -, _, -, rfl⟩ := h
        exact .inr ⟨hf, succeeds_shiftResultType hs⟩

theorem succeeds_checkNumericComparison
    (h : Succeeds env.values (checkNumericComparison ctx e l r tl tr) t) :
    t = .bool := by
  unfold checkNumericComparison at h
  split at h
  case h_1 => exact absurd h succeeds_error
  case h_2 =>
    simp only [succeeds_bind, succeeds_pure] at h
    exact h.choose_spec.right.symm

theorem succeeds_checkComparison (h : Succeeds env.values (checkComparison ctx e l r op tl tr) t) :
    t = .bool := by
  unfold checkComparison at h
  repeat' split at h
  all_goals first
    | exact absurd h succeeds_error
    | exact (succeeds_pure.mp h).symm
    | exact succeeds_checkNumericComparison h

theorem succeeds_checkCheckedCast
    (h : Succeeds env.values (checkCheckedCast ctx e x target tx) t) : t = target := by
  unfold checkCheckedCast at h
  split at h
  case isTrue => exact absurd h succeeds_error
  case isFalse =>
    rcases succeeds_tryEval h with ⟨v, hv, h⟩ | ⟨hf, h⟩
    case inl =>
      simp only [succeeds_bind, succeeds_pure] at h
      exact h.choose_spec.right.symm
    case inr =>
      simp only at h
      split at h
      case isTrue  => exact absurd h succeeds_error
      case isFalse => exact (succeeds_pure.mp h).symm

theorem succeeds_checkTruncatingCast
    (h : Succeeds env.values (checkTruncatingCast ctx e x target tx) t) : t = target := by
  unfold checkTruncatingCast at h
  split at h
  case isTrue => exact absurd h succeeds_error
  case isFalse =>
    rcases succeeds_tryEval h with ⟨v, hv, h⟩ | ⟨hf, h⟩
    case inl =>
      simp only [succeeds_bind, succeeds_pure] at h
      exact h.choose_spec.right.symm
    case inr => exact (succeeds_pure.mp h).symm

theorem succeeds_checkReinterpret (h : Succeeds env.values (checkReinterpret target tx : Checked κ Ty) t) :
    t = target ∧ tx.isRawPointer := by
  unfold checkReinterpret at h
  repeat' split at h
  all_goals try exact absurd h succeeds_error
  simp_all

theorem outcome_lift_value {f : Folded α} : outcome env.values (f.lift : Checked κ α) = .value a ↔ f = .ok a := by
  cases f <;> simp [Folded.lift]

theorem evaluation_unary :
    evaluation ctx env (.unary op x) = .value v ↔
    ∃ a, evaluation ctx env x = .value a ∧ evalUnary op a = .ok v := by
  simp [evaluation, evalConstExpr, Outcome.bind_eq_value, outcome_lift_value]

theorem evaluation_binary :
    evaluation ctx env (.binary op l r) = .value v ↔
    ∃ a, evaluation ctx env l = .value a ∧ ∃ b, evaluation ctx env r = .value b ∧ evalBinary op a b = .ok v := by
  simp [evaluation, evalConstExpr, Outcome.bind_eq_value, outcome_lift_value]

theorem evaluation_wrappingBinary :
    evaluation ctx env (.wrappingBinary op l r) = .value v ↔
    ∃ a, evaluation ctx env l = .value a ∧
      ∃ b, evaluation ctx env r = .value b ∧ evalWrappingBinaryCall op a b = .ok v := by
  simp [evaluation, evalConstExpr, Outcome.bind_eq_value, outcome_lift_value]

theorem evaluation_wrappingNeg :
    evaluation ctx env (.wrappingNeg x) = .value v ↔
    ∃ a, evaluation ctx env x = .value a ∧ evalWrappingNegCall a = .ok v := by
  simp [evaluation, evalConstExpr, Outcome.bind_eq_value, outcome_lift_value]

theorem evaluation_checkedCast {target : SourceType} :
    evaluation ctx env (.cast .checked (.ok target) x) = .value v ↔
    ∃ a, evaluation ctx env x = .value a ∧ evalCheckedCast ctx.enums target.type a = .ok v := by
  simp [evaluation, evalConstExpr, Outcome.bind_eq_value, outcome_lift_value, TypeRef.resolve]

theorem evaluation_truncatingCast {target : SourceType} :
    evaluation ctx env (.cast .truncating (.ok target) x) = .value v ↔
    ∃ a, evaluation ctx env x = .value a ∧ evalTruncatingCast target.type a = .ok v := by
  simp [evaluation, evalConstExpr, Outcome.bind_eq_value, outcome_lift_value, TypeRef.resolve]

theorem evaluation_logical (h : evaluation ctx env (.logical op l r) = .value v) : v.type = .bool := by
  simp only [evaluation, evalConstExpr, outcome_bind, Outcome.bind_eq_value] at h
  obtain ⟨a, -, h⟩ := h
  split at h
  case h_2 => cases h
  case h_1 =>
    split at h
    case isTrue => cases h; rfl
    case isFalse =>
      rw [outcome_bind, Outcome.bind_eq_value] at h
      obtain ⟨b, -, h⟩ := h
      split at h <;> cases h
      rfl

theorem type_eq_of_folded (hv : evaluation ctx env e = .value v)
    (h : (∃ w, evaluation ctx env e = .value w ∧ t = w.type) ∨ (evaluation ctx env e = .failed ∧ p)) :
    v.type = t := by
  rcases h with ⟨w, hw, ht⟩ | ⟨hf, -⟩
  case inl =>
    cases hv.symm.trans hw
    exact ht.symm
  case inr => cases hv.symm.trans hf

theorem require_type_eq {c : κ}
    (h : Succeeds env.values (do return (← .require c).type : Checked κ Ty) t)
    (hv : outcome env.values (require c : Checked κ ConstValue) = .value v) : v.type = t := by
  simp only [succeeds_bind, succeeds_require, succeeds_pure] at h
  obtain ⟨w, hw, ht⟩ := h
  simp only [outcome_require, hw] at hv
  cases hv
  exact ht

-- The evaluator and the checker agree on the type of a constant.
theorem Accepts.type_eq (h : Accepts ctx env e t) (hv : evaluation ctx env e = .value v) : v.type = t := by
  induction e generalizing t v
  case number | float | bool | null =>
    cases hv
    exact succeeds_pure.mp h
  case ident name =>
    simp only [Accepts, checkExpression] at h
    simp only [evaluation, evalConstExpr] at hv
    cases hs : ctx.lookup name <;> simp only [hs] at h hv
    case none => cases hv
    case some s => cases s <;> first | exact require_type_eq h hv | cases hv
  case field path =>
    simp only [Accepts, checkExpression] at h
    simp only [evaluation, evalConstExpr] at hv
    cases hs : ctx.lookupField path <;> simp only [hs] at h hv
    case target | enumMember =>
      cases hv
      exact succeeds_pure.mp h
    case constant => exact require_type_eq h hv
    all_goals cases hv
  case unary op x hi =>
    obtain ⟨tx, _, h⟩ := h.unary
    cases op
    case minus => exact type_eq_of_folded hv (succeeds_checkMinus h).right.right
    case tilde => exact type_eq_of_folded hv (succeeds_checkTilde h).right
    case bang =>
      obtain ⟨_, _, hb⟩ := evaluation_unary.mp hv
      rw [(succeeds_checkBang h).right, evalUnaryBang_type hb]
  case logical => rw [h.logical.right.right, evaluation_logical hv]
  case binary op l r hl hr =>
    obtain ⟨tl, tr, _, _, h⟩ := h.binary
    cases op
    case arithmetic => exact type_eq_of_folded hv (succeeds_checkArithmetic h).choose_spec.right
    case bitwise    => exact type_eq_of_folded hv (succeeds_checkBitwise h).choose_spec.right
    case shift      => exact type_eq_of_folded hv (succeeds_checkShift h)
    case comparison =>
      obtain ⟨_, _, _, _, hc⟩ := evaluation_binary.mp hv
      rw [succeeds_checkComparison h, evalConstComparison_type hc]
  case cast kind target x hi =>
    cases kind
    case checked =>
      obtain ⟨target, _, rfl, _, h⟩ := h.checkedCast
      obtain ⟨_, _, hc⟩ := evaluation_checkedCast.mp hv
      rw [succeeds_checkCheckedCast h, evalCheckedCast_type hc]
    case truncating =>
      obtain ⟨target, _, rfl, _, h⟩ := h.truncatingCast
      obtain ⟨_, _, hc⟩ := evaluation_truncatingCast.mp hv
      rw [succeeds_checkTruncatingCast h, evalTruncatingCast_type hc]
    case reinterpret => cases hv
  case wrappingBinary op l r hl hr =>
    obtain ⟨tl, tr, hl', hr', hc⟩ := h.wrappingBinary
    obtain ⟨a, ha, b, hb, hw⟩ := evaluation_wrappingBinary.mp hv
    have hw := evalWrappingBinaryCall_type hw
    rw [hl hl' ha, hr hr' hb, hc] at hw
    cases hw
    rfl
  case wrappingNeg x hi =>
    obtain ⟨tx, hx, hc⟩ := h.wrappingNeg
    obtain ⟨a, ha, hw⟩ := evaluation_wrappingNeg.mp hv
    have hw := evalWrappingNegCall_type hw
    rw [hi hx ha, hc] at hw
    cases hw
    rfl
  case layout builtin queried =>
    cases queried
    case error => cases hv
    case ok type =>
      obtain ⟨_, hr, h⟩ := succeeds_bind.mp h
      cases hr.value
      simp only [evaluation, evalConstExpr] at hv
      cases hl : ctx.layout builtin type.type <;> simp only [hl] at h hv
      case error => cases hv
      case ok =>
        cases hv
        exact succeeds_pure.mp h
  all_goals cases hv

-- The checker does not get past an expression that aborts the evaluator.
theorem Accepts.not_negatesMinimum (h : Accepts ctx env e t) :
    ¬NegatesMinimum ctx env.meanings true e := by
  intro hn
  induction hn generalizing t
  case here x hd =>
    have ha : ¬evaluation ctx env (.unary .minus x) ≠ .aborted :=
      fun h => (evalConstExpr_returns_iff ..).mp h (.here hd)
    have ⟨_, _, h⟩ := h.unary
    rcases (succeeds_checkMinus h).right.right with ⟨v, hv, -⟩ | ⟨hf, -⟩
    case inl => simp [hv] at ha
    case inr => simp [hf] at ha
  all_goals
    rename_i hi
    refine (h.operand ?_).elim fun _ => hi
    simp [Expr.operands]

end Evaluation
end Coglet
