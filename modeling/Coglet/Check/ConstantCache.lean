import Coglet.Check.KnownFailure

open Demand

namespace Coglet

section

variable (ctx : Context κ) (env : Environment κ)

-- Whether an expression has the type of untyped integers. A shift whose operands are not known
-- receives a concrete type instead.
def Expr.isUntypedInt : Expr → Bool
  | number _ => true
  | ident name =>
    match ctx.lookup name with
    | some (.constant c) => (env.values c).any (·.type = .untypedInt)
    | _                  => false
  | field path =>
    match ctx.lookupField path with
    | .constant c => (env.values c).any (·.type = .untypedInt)
    | _           => false
  | unary .minus x | unary .tilde x => x.isUntypedInt
  | binary (.arithmetic _) l r | binary (.bitwise _) l r => l.isUntypedInt && r.isUntypedInt
  | binary (.shift op) l r =>
    l.isUntypedInt && (denote ctx env.meanings true (.binary (.shift op) l r)).isSome
  | ifExpr _ a b => a.isUntypedInt && b.isUntypedInt
  | _ => false

end

section Types

variable {ctx : Context κ} {env : Environment κ}

theorem commonNumericType_untypedInt {a b : Ty} (h : a.commonNumericType b = some t) :
    t = .untypedInt ↔ a = .untypedInt ∧ b = .untypedInt := by
  have hu : Ty.isUntypedNumeric .untypedInt = true := rfl
  have hk : Ty.kind .untypedInt ≠ .untypedFloat := nofun
  have hi : a.isUntypedNumeric → a.kind ≠ .untypedFloat → a = .untypedInt := by
    cases a <;> simp [Ty.isUntypedNumeric, Ty.kind, TypeKind.isUntypedNumeric]
  have hj : b.isUntypedNumeric → b.kind ≠ .untypedFloat → b = .untypedInt := by
    cases b <;> simp [Ty.isUntypedNumeric, Ty.kind, TypeKind.isUntypedNumeric]
  unfold Ty.commonNumericType at h
  repeat' split at h
  all_goals cases h
  all_goals grind

theorem commonIntegerType_untypedInt {a b : Ty} (h : a.commonIntegerType b = some t) :
    t = .untypedInt ↔ a = .untypedInt ∧ b = .untypedInt := by
  have hk : Ty.kind .untypedInt = .untypedInt := rfl
  have hi := @kind_eq_untypedInt a
  have hj := @kind_eq_untypedInt b
  have he := @Ty.typeEqual_iff a b
  unfold Ty.commonIntegerType at h
  repeat' split at h
  all_goals cases h
  all_goals grind

-- The type of an operation is that of its operands, no matter whether it has been folded.
theorem Accepts.minus (h : Accepts ctx env (.unary .minus x) t) : Accepts ctx env x t := by
  have ⟨tx, hx, h⟩ := h.unary
  rcases (succeeds_checkMinus h).right.right with ⟨v, hv, ht⟩ | ⟨_, ht⟩
  case inl =>
    have ⟨a, ha, hm⟩ := evaluation_unary.mp hv
    rw [ht, evalUnaryMinus_type hm, hx.type_eq ha]
    exact hx
  case inr => exact ht ▸ hx

theorem Accepts.tilde (h : Accepts ctx env (.unary .tilde x) t) : Accepts ctx env x t := by
  have ⟨tx, hx, h⟩ := h.unary
  rcases (succeeds_checkTilde h).right with ⟨v, hv, ht⟩ | ⟨_, ht⟩
  case inl =>
    have ⟨a, ha, hm⟩ := evaluation_unary.mp hv
    rw [ht, evalUnaryTilde_type hm, hx.type_eq ha]
    exact hx
  case inr => exact ht ▸ hx

theorem Accepts.arithmetic (h : Accepts ctx env (.binary (.arithmetic op) l r) t) :
    ∃ tl tr, Accepts ctx env l tl ∧ Accepts ctx env r tr ∧ tl.commonNumericType tr = some t := by
  have ⟨tl, tr, hl, hr, h⟩ := h.binary
  refine ⟨tl, tr, hl, hr, ?_⟩
  have ⟨operation, hc, h⟩ := succeeds_checkArithmetic h
  rcases h with ⟨v, hv, ht⟩ | ⟨_, ht⟩
  case inl =>
    have ⟨a, ha, b, hb, he⟩ := evaluation_binary.mp hv
    rw [ht, ← hl.type_eq ha, ← hr.type_eq hb, evalArithmetic_type he]
  case inr => rw [ht, hc]

theorem Accepts.bitwise (h : Accepts ctx env (.binary (.bitwise op) l r) t) :
    ∃ tl tr, Accepts ctx env l tl ∧ Accepts ctx env r tr ∧ tl.commonIntegerType tr = some t := by
  have ⟨tl, tr, hl, hr, h⟩ := h.binary
  refine ⟨tl, tr, hl, hr, ?_⟩
  have ⟨operation, hc, h⟩ := succeeds_checkBitwise h
  rcases h with ⟨v, hv, ht⟩ | ⟨_, ht⟩
  case inl =>
    have ⟨a, ha, b, hb, he⟩ := evaluation_binary.mp hv
    rw [ht, ← hl.type_eq ha, ← hr.type_eq hb, evalBitwise_type he]
  case inr => rw [ht, hc]

theorem Accepts.shift (h : Accepts ctx env (.binary (.shift op) l r) t) :
    ∃ tl, Accepts ctx env l tl ∧
      ((∃ v, evaluation ctx env (.binary (.shift op) l r) = .value v ∧ t = tl) ∨
      (evaluation ctx env (.binary (.shift op) l r) = .failed ∧ t.kind.isConcreteInteger)) := by
  have ⟨tl, tr, hl, hr, h⟩ := h.binary
  refine ⟨tl, hl, ?_⟩
  rcases succeeds_checkShift h with ⟨v, hv, ht⟩ | h
  case inl =>
    have ⟨a, ha, b, hb, he⟩ := evaluation_binary.mp hv
    exact .inl ⟨v, hv, by rw [ht, evalShift_type he, hl.type_eq ha]⟩
  case inr => exact .inr h

theorem initializerCompatible_untypedInt {t : Ty} (h : Ty.initializerCompatible .untypedInt t) :
    t = .untypedInt := by
  cases t <;> first | rfl | cases h

theorem succeeds_checkIfBranches (h : Succeeds env.values (checkIfBranches ta tb : Checked κ Ty) t) :
    t = .untypedInt ↔ ta = .untypedInt ∧ tb = .untypedInt := by
  unfold checkIfBranches at h
  split at h
  case isTrue he =>
    obtain rfl := Ty.typeEqual_iff.mp he
    obtain rfl := succeeds_pure.mp h
    exact (and_self_iff ..).symm
  case isFalse he =>
    split at h
    case isTrue =>
      cases hc : ta.commonNumericType tb <;> rw [hc] at h
      case none => exact absurd h succeeds_error
      case some => exact (succeeds_pure.mp h) ▸ commonNumericType_untypedInt hc
    case isFalse =>
      have hn : ¬(ta = .untypedInt ∧ tb = .untypedInt) := by
        rintro ⟨rfl, rfl⟩
        exact he rfl
      split at h
      case isTrue hi =>
        obtain rfl := succeeds_pure.mp h
        exact iff_of_false (fun ht => hn ⟨ht, initializerCompatible_untypedInt (ht ▸ hi)⟩) hn
      case isFalse =>
        split at h
        case isTrue hi =>
          obtain rfl := succeeds_pure.mp h
          exact iff_of_false (fun ht => hn ⟨initializerCompatible_untypedInt (ht ▸ hi), ht⟩) hn
        case isFalse => exact absurd h succeeds_error

-- An accepted expression either evaluates to its meaning or has none.
theorem Accepts.evaluation (h : Accepts ctx env e t) :
    (∃ v, evaluation ctx env e = .value v ∧ denote ctx env.meanings true e = some v.meaning) ∨
    (evaluation ctx env e = .failed ∧ denote ctx env.meanings true e = none) := by
  have ha : Agrees (Coglet.evaluation ctx env e) _ _ := evalConstExpr_agrees e
  cases hv : Coglet.evaluation ctx env e <;> rw [hv] at ha
  case value v => exact .inl ⟨v, rfl, ha.right.left⟩
  case failed  => exact .inr ⟨rfl, ha.left⟩
  case aborted => exact absurd ha h.not_negatesMinimum

theorem require_untypedInt {c : κ} (h : Succeeds env.values (do return (← .require c).type : Checked κ Ty) t) :
    (env.values c).any (·.type = .untypedInt) ↔ t = .untypedInt := by
  simp only [succeeds_bind, succeeds_require, succeeds_pure] at h
  obtain ⟨v, hv, rfl⟩ := h
  simp [hv]

theorem SourceType.ne_untypedInt (t : SourceType) : t.type ≠ .untypedInt := by
  intro h
  have := t.notUntyped
  rw [h] at this
  cases this

theorem ne_untypedInt_of_concrete {t : Ty} (h : t.kind.isConcreteInteger) : t ≠ .untypedInt := by
  rintro rfl
  cases h

theorem wrappingBinary_concrete (h : classifyWrappingBinaryTypes a b = .valid t) :
    a ≠ .untypedInt ∧ b ≠ .untypedInt ∧ t ≠ .untypedInt := by
  unfold classifyWrappingBinaryTypes at h
  split at h
  case isTrue => cases h
  case isFalse hc =>
    simp only [Bool.or_eq_true, Bool.not_eq_true', not_or, Bool.not_eq_false] at hc
    split at h <;> cases h
    exact ⟨ne_untypedInt_of_concrete hc.left, ne_untypedInt_of_concrete hc.right, ne_untypedInt_of_concrete hc.left⟩

theorem wrappingNeg_concrete (h : classifyWrappingNegType a = .valid t) :
    a ≠ .untypedInt ∧ t ≠ .untypedInt := by
  unfold classifyWrappingNegType at h
  split at h <;> cases h
  case isFalse hc =>
    have hc := ne_untypedInt_of_concrete (by simpa using hc)
    exact ⟨hc, hc⟩

theorem Accepts.isUntypedInt_iff (h : Accepts ctx env e t) : e.isUntypedInt ctx env ↔ t = .untypedInt := by
  induction e generalizing t
  case number => exact iff_of_true rfl (succeeds_pure.mp h).symm
  case float | bool | null => simp [Expr.isUntypedInt, ← succeeds_pure.mp h]
  case ident name =>
    simp only [Accepts, checkExpression] at h
    simp only [Expr.isUntypedInt]
    cases hs : ctx.lookup name <;> simp only [hs] at h
    case none => exact absurd h succeeds_error
    case some s =>
      cases s <;> simp only at h
      case constant => exact require_untypedInt h
      case «variable» t => exact iff_of_false Bool.false_ne_true (succeeds_pure.mp h ▸ t.ne_untypedInt)
      case function t isOverloaded =>
        cases isOverloaded
        case true  => exact absurd h succeeds_error
        case false => exact iff_of_false Bool.false_ne_true (succeeds_pure.mp h ▸ t.ne_untypedInt)
      all_goals exact absurd h succeeds_error
  case field path =>
    simp only [Accepts, checkExpression] at h
    simp only [Expr.isUntypedInt]
    cases hs : ctx.lookupField path <;> simp only [hs] at h
    case constant => exact require_untypedInt h
    case value t => exact iff_of_false Bool.false_ne_true (succeeds_pure.mp h ▸ t.ne_untypedInt)
    case target | enumMember => simp [← succeeds_pure.mp h]
    all_goals exact absurd h succeeds_error
  case unary op x hi =>
    cases op
    case minus => exact hi h.minus
    case tilde => exact hi h.tilde
    case bang =>
      obtain ⟨tx, hx, h⟩ := h.unary
      simp [Expr.isUntypedInt, (succeeds_checkBang h).right]
  case logical => simp [Expr.isUntypedInt, h.logical.right.right]
  case binary op l r hl hr =>
    cases op
    case arithmetic =>
      obtain ⟨tl, tr, hl', hr', hc⟩ := h.arithmetic
      simp only [Expr.isUntypedInt, Bool.and_eq_true, hl hl', hr hr', commonNumericType_untypedInt hc]
    case bitwise =>
      obtain ⟨tl, tr, hl', hr', hc⟩ := h.bitwise
      simp only [Expr.isUntypedInt, Bool.and_eq_true, hl hl', hr hr', commonIntegerType_untypedInt hc]
    case shift op =>
      obtain ⟨tl, hl', hs⟩ := h.shift
      simp only [Expr.isUntypedInt, Bool.and_eq_true, hl hl']
      rcases hs with ⟨v, hv, rfl⟩ | ⟨hf, hc⟩ <;> rcases h.evaluation with ⟨w, hw, hd⟩ | ⟨hw, hd⟩
      case inl.inl => simp [hd]
      case inl.inr => cases hv.symm.trans hw
      case inr.inl => cases hf.symm.trans hw
      case inr.inr =>
        refine iff_of_false (by simp [hd]) ?_
        rintro rfl
        cases hc
    case comparison =>
      obtain ⟨_, _, _, _, h⟩ := h.binary
      simp [Expr.isUntypedInt, succeeds_checkComparison h]
  case cast kind target x hi =>
    have ht : ∃ target' : SourceType, t = target'.type := by
      cases kind
      case checked     => obtain ⟨t, _, _, _, h⟩ := h.checkedCast; exact ⟨t, succeeds_checkCheckedCast h⟩
      case truncating  => obtain ⟨t, _, _, _, h⟩ := h.truncatingCast; exact ⟨t, succeeds_checkTruncatingCast h⟩
      case reinterpret => obtain ⟨t, _, _, _, h⟩ := h.reinterpret; exact ⟨t, (succeeds_checkReinterpret h).left⟩
    obtain ⟨target', rfl⟩ := ht
    exact iff_of_false Bool.false_ne_true target'.ne_untypedInt
  case wrappingBinary =>
    obtain ⟨_, _, _, _, hc⟩ := h.wrappingBinary
    exact iff_of_false Bool.false_ne_true (wrappingBinary_concrete hc).right.right
  case wrappingNeg =>
    obtain ⟨_, _, hc⟩ := h.wrappingNeg
    exact iff_of_false Bool.false_ne_true (wrappingNeg_concrete hc).right
  case builtinArity => exact absurd h succeeds_error
  case layout builtin queried =>
    obtain ⟨t', _, h⟩ := succeeds_bind.mp h
    cases hl : ctx.layout builtin t' <;> simp only [hl] at h
    case error => exact absurd h succeeds_error
    case ok    => simp [Expr.isUntypedInt, ← succeeds_pure.mp h]
  case ifExpr c a b _ ha hb =>
    obtain ⟨ta, tb, _, ha', hb', h⟩ := h.ifExpr
    simp only [Expr.isUntypedInt, Bool.and_eq_true, ha ha', hb hb', succeeds_checkIfBranches h]
  case runtime type => exact iff_of_false Bool.false_ne_true (succeeds_pure.mp h ▸ type.ne_untypedInt)

end Types

section Cache

variable (ctx : Context κ) (env : Environment κ)

-- The check of these operations evaluates them as a whole.
def EvaluatedOnCheck : Expr → Prop
  | .unary .minus _ | .unary .tilde _ => True
  | .binary (.comparison _) l r =>
    (∃ t, Accepts ctx env l t ∧ t.isNumeric) ∧ ∃ t, Accepts ctx env r t ∧ t.isNumeric
  | .binary .. => True
  | _          => False

-- The right operand of a binary operation is evaluated as part of the operation, in order to check it
-- against the type of the operation if it is untyped, or as a shift count or a divisor.
def RightEvaluated (op : BinaryOperation) (l r : Expr) (visited : Prop) : Prop :=
  (visited ∨ EvaluatedOnCheck ctx env (.binary op l r)) ∧ (∃ v, evaluation ctx env l = .value v) ∨
  EvaluatedOnCheck ctx env (.binary op l r) ∧ (∃ t, Accepts ctx env r t ∧ t.isUntypedNumeric) ∨
  (∃ op', op = .shift op') ∨
  (∃ op', op = .arithmetic (.division op')) ∧ ∃ t, Accepts ctx env (.binary op l r) t ∧ t.isInteger

-- A constant is recorded for an expression when an evaluation that reaches the expression succeeds.
-- This one has the type of untyped integers, but no constant is recorded for it.
def Unfolded (e : Expr) (visited : Prop) : Prop :=
  Accepts ctx env e .untypedInt ∧ e.isIf = false ∧
  ¬((visited ∨ EvaluatedOnCheck ctx env e) ∧ ∃ v, evaluation ctx env e = .value v)

-- The check of an expression leaves some part of it unfolded, where `visited` tells whether the
-- evaluation of something else reaches the expression.
def Uncached : Expr → Prop → Prop
  | .unary op x, visited =>
    Unfolded ctx env (.unary op x) visited ∨
    Uncached x (visited ∨ EvaluatedOnCheck ctx env (.unary op x))
  | .logical op l r, visited =>
    Uncached l True ∨
    Uncached r (visited ∧ ∃ v b, evaluation ctx env l = .value v ∧ v.payload = .bool b ∧ op.decidedBy b = false)
  | .binary op l r, visited =>
    Unfolded ctx env (.binary op l r) visited ∨
    Uncached l (visited ∨ EvaluatedOnCheck ctx env (.binary op l r)) ∨
    Uncached r (RightEvaluated ctx env op l r visited)
  | .cast kind _ x, _ => Uncached x (kind ≠ .reinterpret)
  | .wrappingBinary _ l r, visited =>
    Uncached l visited ∨ Uncached r (visited ∧ ∃ v, evaluation ctx env l = .value v)
  | .wrappingNeg x, visited => Uncached x visited
  -- Neither the check nor the evaluation of an if-expression evaluates any part of it.
  | .ifExpr c a b, _ => Uncached c False ∨ Uncached a False ∨ Uncached b False
  | e, visited => Unfolded ctx env e visited

-- No operation on untyped integers is applied to an if-expression or is a failing negation, and each
-- untyped literal or constant is either an operand or evaluated otherwise.
def Cacheable : Expr → Prop → Prop
  | .unary op x, _ =>
    (op ≠ .bang → x.isUntypedInt ctx env → x.isIf = false ∧ ¬FailingNegation ctx env (.unary op x)) ∧
    Cacheable x True
  | .logical _ l r, _ => Cacheable l True ∧ Cacheable r True
  | .binary op l r, _ =>
    ((Expr.binary op l r).isUntypedInt ctx env → l.isIf = false ∧ r.isIf = false) ∧
    Cacheable l True ∧ Cacheable r True
  | .cast _ _ x, _           => Cacheable x True
  | .wrappingBinary _ l r, _ => Cacheable l True ∧ Cacheable r True
  | .wrappingNeg x, _        => Cacheable x True
  | .ifExpr c a b, _         => Cacheable c True ∧ Cacheable a False ∧ Cacheable b False
  | e, visited               => e.isUntypedInt ctx env → visited

end Cache

section

variable {ctx : Context κ} {env : Environment κ}

theorem Cacheable.congr (h : Accepts ctx env e t) (hp : t = .untypedInt → p) :
    Cacheable ctx env e p ↔ Cacheable ctx env e True := by
  cases e <;> try exact .rfl
  all_goals
    simp only [Cacheable, h.isUntypedInt_iff, implies_true, iff_true]
    exact hp

theorem Cacheable.congr_of_ne (h : Accepts ctx env e t) (ht : t ≠ .untypedInt) (p : Prop) :
    Cacheable ctx env e p ↔ Cacheable ctx env e True :=
  Cacheable.congr h (absurd · ht)

theorem Unfolded.uncached (h : Unfolded ctx env e p) : Uncached ctx env e p := by
  have hu := h.left.isUntypedInt_iff.mpr rfl
  cases e
  case unary | binary => exact .inl h
  case ifExpr         => exact nomatch h.right.left
  case logical | cast | wrappingBinary | wrappingNeg => cases hu
  all_goals exact h

theorem evaluation_of_isIf (h : e.isIf) : evaluation ctx env e = .failed := by
  cases e <;> first | rfl | cases h

theorem evaluation_of_leaf (h : Accepts ctx env e .untypedInt) (hf : e.isIf = false) (ho : e.operands = []) :
    ∃ v, evaluation ctx env e = .value v := by
  have hu := h.isUntypedInt_iff.mpr rfl
  cases e
  case number => exact ⟨_, rfl⟩
  case ident name =>
    simp only [Expr.isUntypedInt] at hu
    cases hs : ctx.lookup name <;> simp only [hs, Bool.false_eq_true] at hu
    case some s =>
      cases s <;> simp only [Bool.false_eq_true] at hu
      case constant c =>
        cases hc : env.values c
        case none   => simp [hc] at hu
        case some v => exact ⟨v, by simp [evaluation, evalConstExpr, hs, hc]⟩
  case field path =>
    simp only [Expr.isUntypedInt] at hu
    cases hs : ctx.lookupField path <;> simp only [hs, Bool.false_eq_true] at hu
    case constant c =>
      cases hc : env.values c
      case none   => simp [hc] at hu
      case some v => exact ⟨v, by simp [evaluation, evalConstExpr, hs, hc]⟩
  case unary | binary => cases ho
  case ifExpr => cases hf
  all_goals cases hu

theorem uncached_leaf (h : Accepts ctx env e t) (hf : e.isIf = false) (ho : e.operands = []) :
    Unfolded ctx env e p ↔ ¬(e.isUntypedInt ctx env → p) := by
  have he : ¬EvaluatedOnCheck ctx env e := by
    cases e <;> first | exact id | cases ho
  rw [h.isUntypedInt_iff, Classical.not_imp, Unfolded]
  constructor
  case mp =>
    intro ⟨ha, _, hv⟩
    obtain rfl := Succeeds.unique h ha
    exact ⟨rfl, fun hp => hv ⟨.inl hp, evaluation_of_leaf h hf ho⟩⟩
  case mpr =>
    rintro ⟨rfl, hp⟩
    exact ⟨h, hf, fun ⟨hv, _⟩ => hv.elim hp he⟩

theorem known_of_value (h : Accepts ctx env x .untypedInt) (hv : evaluation ctx env x = .value v) :
    ∃ z, Known ctx env x (.ofInt .untypedInt z) := by
  have ht := h.type_eq hv
  have ha : Agrees (evaluation ctx env x) _ _ := evalConstExpr_agrees x
  rw [hv] at ha
  have ⟨hw, hd, _⟩ := ha
  obtain ⟨type, payload⟩ := v
  obtain rfl := ht
  obtain ⟨i, hi, _⟩ := hw.integer rfl
  simp only at hi
  subst hi
  exact ⟨i.toInt, ⟨_, h⟩, hd⟩

-- Unless its own operand is left unfolded, an operation on an untyped integer is.
theorem evaluates_of_cacheable {x : Expr} (h : Accepts ctx env x .untypedInt) (hf : x.isIf = false)
    (hc : ¬Uncached ctx env x True) : ∃ v, evaluation ctx env x = .value v := by
  by_contra hv
  exact hc (Unfolded.uncached ⟨h, hf, fun h => hv h.right⟩)

theorem succeeds_checkComparison_untypedInt (h : Succeeds env.values (checkComparison ctx e l r op tl tr) t)
    (hu : tl = .untypedInt ∨ tr = .untypedInt) : tl.isNumeric ∧ tr.isNumeric := by
  have hp : tl.isPointerNullPair tr = false := by
    rcases hu with rfl | rfl
    case inl => rfl
    case inr => simp [Ty.isPointerNullPair, Ty.isNullablePointer, Ty.isRawPointer, Ty.isCFunctionPointer, Ty.kind]
  have hi : tl.pointerIdentityEqualIgnoringQualifiers tr = false := by
    rcases hu with rfl | rfl
    case inl => rfl
    case inr => cases tl <;> rfl
  have he : tl.typeEqual tr → tl.isNumeric && tr.isNumeric := by
    intro he
    obtain rfl := Ty.typeEqual_iff.mp he
    obtain rfl : tl = .untypedInt := by simpa using hu
    rfl
  rw [← Bool.and_eq_true]
  unfold checkComparison at h
  repeat' split at h
  all_goals try exact absurd h succeeds_error
  all_goals simp_all

theorem operation_evaluated (h : Accepts ctx env (.binary op l r) t) (hl : Accepts ctx env l tl)
    (hr : Accepts ctx env r tr) (hu : tl = .untypedInt ∨ tr = .untypedInt) :
    EvaluatedOnCheck ctx env (.binary op l r) := by
  cases op
  case comparison =>
    have ⟨_, _, hl', hr', h⟩ := h.binary
    cases Succeeds.unique hl hl'
    cases Succeeds.unique hr hr'
    have ⟨hnl, hnr⟩ := succeeds_checkComparison_untypedInt h hu
    exact ⟨⟨tl, hl, hnl⟩, tr, hr, hnr⟩
  all_goals trivial

-- If the operands are folded, then a unary operation is unfolded for one of the given reasons.
theorem unfolded_unary_iff (h : Accepts ctx env (.unary op x) t) (hc : ¬Uncached ctx env x True) :
    Unfolded ctx env (.unary op x) p ↔
    ¬(op ≠ .bang → x.isUntypedInt ctx env → x.isIf = false ∧ ¬FailingNegation ctx env (.unary op x)) := by
  by_cases hb : op = .bang
  case pos =>
    subst hb
    refine iff_of_false (fun hu => ?_) (by simp)
    cases hu.left.isUntypedInt_iff.mpr rfl
  case neg =>
    have hx : Accepts ctx env x t := by
      cases op
      case minus => exact h.minus
      case tilde => exact h.tilde
      case bang  => exact absurd rfl hb
    have he : EvaluatedOnCheck ctx env (.unary op x) := by
      cases op
      case bang  => exact absurd rfl hb
      all_goals trivial
    by_cases ht : t = .untypedInt
    case neg =>
      refine iff_of_false (fun hu => ht (Succeeds.unique h hu.left)) ?_
      simp [hx.isUntypedInt_iff, ht]
    case pos =>
      subst ht
      have hu : Unfolded ctx env (.unary op x) p ↔ ∀ v, evaluation ctx env (.unary op x) ≠ .value v := by
        simp [Unfolded, h, Expr.isIf, he]
      simp only [hu, hb, not_false_eq_true, hx.isUntypedInt_iff, forall_const, not_and, ne_eq]
      cases hi : x.isIf
      case true =>
        refine iff_of_true (fun v hv => ?_) nofun
        have ⟨_, ha, _⟩ := evaluation_unary.mp hv
        cases ha.symm.trans (evaluation_of_isIf hi)
      case false =>
        have ⟨v, hv⟩ := evaluates_of_cacheable hx hi hc
        have ⟨z, hk⟩ := known_of_value hx hv
        simp only [forall_const, not_not]
        rcases h.evaluation with ⟨w, hw, hd⟩ | ⟨hf, hd⟩
        case inl =>
          refine iff_of_false (fun hn => hn w hw) fun hf => ?_
          cases hd.symm.trans hf.knownFailure.denotes
        case inr =>
          refine iff_of_true (by simp [hf]) ?_
          have := knownFailure_reports_iff (.unary hk rfl hd)
          simpa [h.quiet] using this

theorem unfolded_binary_iff (h : Accepts ctx env (.binary op l r) t) (hl : ¬Uncached ctx env l True)
    (hr : ¬Uncached ctx env r True) :
    Unfolded ctx env (.binary op l r) p ↔
    ¬((Expr.binary op l r).isUntypedInt ctx env → l.isIf = false ∧ r.isIf = false) := by
  by_cases ht : t = .untypedInt
  case neg =>
    refine iff_of_false (fun hu => ht (Succeeds.unique h hu.left)) ?_
    simp [h.isUntypedInt_iff, ht]
  case pos =>
    subst ht
    have hu : Unfolded ctx env (.binary op l r) p ↔ ∀ v, evaluation ctx env (.binary op l r) ≠ .value v := by
      have he : EvaluatedOnCheck ctx env (.binary op l r) := by
        cases op
        case comparison => cases h.isUntypedInt_iff.mpr rfl
        all_goals trivial
      simp [Unfolded, h, Expr.isIf, he]
    rw [hu, h.isUntypedInt_iff, forall_prop_of_true rfl]
    by_cases hi : l.isIf = false ∧ r.isIf = false
    case neg =>
      refine iff_of_true (fun v hv => hi ?_) hi
      have ⟨_, ha, _, hb, _⟩ := evaluation_binary.mp hv
      constructor
      · cases hi : l.isIf
        case false => rfl
        case true  => cases ha.symm.trans (evaluation_of_isIf hi)
      · cases hi : r.isIf
        case false => rfl
        case true  => cases hb.symm.trans (evaluation_of_isIf hi)
    case pos =>
      refine iff_of_false ?_ (not_not.mpr hi)
      have operands (hla : Accepts ctx env l .untypedInt) (hra : Accepts ctx env r .untypedInt) :
          ∃ v, evaluation ctx env (.binary op l r) = .value v := by
        have ⟨v, hv⟩ := evaluates_of_cacheable hla hi.left hl
        have ⟨w, hw⟩ := evaluates_of_cacheable hra hi.right hr
        have ⟨x, hx⟩ := known_of_value hla hv
        have ⟨y, hy⟩ := known_of_value hra hw
        rcases h.evaluation with ⟨u, hu, _⟩ | ⟨_, hd⟩
        case inl => exact ⟨u, hu⟩
        case inr => exact absurd h.quiet (binary_reports hx hy rfl rfl hd)
      suffices ∃ v, evaluation ctx env (.binary op l r) = .value v from
        fun hn => this.elim hn
      cases op
      case comparison => cases h.isUntypedInt_iff.mpr rfl
      case arithmetic =>
        have ⟨tl, tr, hl', hr', hc⟩ := h.arithmetic
        obtain ⟨rfl, rfl⟩ := (commonNumericType_untypedInt hc).mp rfl
        exact operands hl' hr'
      case bitwise =>
        have ⟨tl, tr, hl', hr', hc⟩ := h.bitwise
        obtain ⟨rfl, rfl⟩ := (commonIntegerType_untypedInt hc).mp rfl
        exact operands hl' hr'
      case shift =>
        have ⟨_, _, hs⟩ := h.shift
        rcases hs with ⟨v, hv, _⟩ | ⟨_, hk⟩
        case inl => exact ⟨v, hv⟩
        case inr => cases hk

theorem uncached_iff (h : Accepts ctx env e t) (p : Prop) : Uncached ctx env e p ↔ ¬Cacheable ctx env e p := by
  induction e generalizing t p
  case unary op x hi =>
    have ⟨tx, hx, hu⟩ := h.unary
    have hp : tx = .untypedInt → p ∨ EvaluatedOnCheck ctx env (.unary op x) := by
      rintro rfl
      cases op
      case bang => cases (succeeds_checkBang hu).left
      all_goals exact .inr trivial
    simp only [Uncached, Cacheable, hi hx, Cacheable.congr hx hp]
    by_cases hc : Cacheable ctx env x True
    case neg => simp [hc]
    case pos => simp [hc, unfolded_unary_iff h (by simp [hi hx, hc])]
  case logical op l r hl hr =>
    have ⟨hl', hr', _⟩ := h.logical
    simp only [Uncached, Cacheable, hl hl', hr hr', Cacheable.congr_of_ne hr' nofun, not_and_or]
  case binary op l r hl hr =>
    have ⟨tl, tr, hl', hr', hu⟩ := h.binary
    have hp : tl = .untypedInt → p ∨ EvaluatedOnCheck ctx env (.binary op l r) :=
      fun ht => .inr (operation_evaluated h hl' hr' (.inl ht))
    have hq : tr = .untypedInt → RightEvaluated ctx env op l r p :=
      fun ht => .inr (.inl ⟨operation_evaluated h hl' hr' (.inr ht), tr, hr', ht ▸ rfl⟩)
    simp only [Uncached, Cacheable, hl hl', hr hr', Cacheable.congr hl' hp, Cacheable.congr hr' hq]
    by_cases hcl : Cacheable ctx env l True
    case neg => simp [hcl]
    case pos =>
      by_cases hcr : Cacheable ctx env r True
      case neg => simp [hcr]
      case pos => 
        have := unfolded_binary_iff (p := p) h (by simp [hl hl', hcl]) (by simp [hr hr', hcr])
        simp [hcl, hcr, this]
  case cast kind target x hi =>
    simp only [Uncached, Cacheable]
    have ⟨tx, hx, hp⟩ : ∃ tx, Accepts ctx env x tx ∧ (tx = .untypedInt → kind ≠ .reinterpret) := by
      cases kind
      case checked     => have ⟨_, tx, _, hx, _⟩ := h.checkedCast; exact ⟨tx, hx, nofun⟩
      case truncating  => have ⟨_, tx, _, hx, _⟩ := h.truncatingCast; exact ⟨tx, hx, nofun⟩
      case reinterpret =>
        have ⟨_, tx, _, hx, hr⟩ := h.reinterpret
        refine ⟨tx, hx, ?_⟩
        rintro rfl
        cases (succeeds_checkReinterpret hr).right
    rw [hi hx, Cacheable.congr hx hp]
  case wrappingBinary op l r hl hr =>
    have ⟨tl, tr, hl', hr', hc⟩ := h.wrappingBinary
    have ⟨hcl, hcr, _⟩ := wrappingBinary_concrete hc
    simp only [Uncached, Cacheable, hl hl', hr hr', Cacheable.congr_of_ne hl' hcl,
      Cacheable.congr_of_ne hr' hcr, not_and_or]
  case wrappingNeg x hi =>
    have ⟨tx, hx, hc⟩ := h.wrappingNeg
    simp only [Uncached, Cacheable, hi hx, Cacheable.congr_of_ne hx (wrappingNeg_concrete hc).left]
  case ifExpr c a b hc ha hb =>
    have ⟨ta, tb, hc', ha', hb', _⟩ := h.ifExpr
    simp only [Uncached, Cacheable, hc hc', ha ha', hb hb', Cacheable.congr_of_ne hc' nofun, not_and_or]
  all_goals exact uncached_leaf h rfl rfl

end

inductive Expr.Sub : Expr → Expr → Prop
  | refl    : Sub e e
  | operand : x ∈ e.operands → Sub s x → Sub s e

section Destinations

variable (ctx : Context κ) (env : Environment κ)

def UncachedBranches : Expr → Prop
  | .ifExpr c a b => Uncached ctx env c False ∨ UncachedBranches a ∨ UncachedBranches b
  | e             => Uncached ctx env e True

-- A statement does not evaluate its expression, the inference of a type evaluates untyped ones, and a
-- destination of known type evaluates everything but if-expressions, of which it evaluates the branches.
def UncachedAt (e : Expr) : Destination → Prop
  | .statement => Uncached ctx env e False
  | .inferred  => Uncached ctx env e (∃ t, Accepts ctx env e t ∧ t.isUntypedNumeric)
  | .typed _   => UncachedBranches ctx env e

def CacheableBranches : Expr → Prop
  | .ifExpr c a b => Cacheable ctx env c True ∧ CacheableBranches a ∧ CacheableBranches b
  | e             => Cacheable ctx env e True

def CacheableAt (e : Expr) : Destination → Prop
  | .statement => Cacheable ctx env e False
  | .inferred  => Cacheable ctx env e True
  | .typed _   => CacheableBranches ctx env e

-- Known failures are errors, so that no program that is accepted contains one, and constants are
-- recorded for all of its untyped integers.
structure ReportsKnownFailures (e : Expr) (d : Destination) : Prop where
  reported : ∀ s, s.Sub e → KnownFailure ctx env s → diagnostics env.values (checkExpression ctx s) ≠ []
  absent   : Succeeds env.values (checkDestination ctx e d) () → ∀ s, s.Sub e → ¬KnownFailure ctx env s
  cached   : Succeeds env.values (checkDestination ctx e d) () → ¬UncachedAt ctx env e d

variable {ctx env}

theorem Accepts.sub (h : Accepts ctx env e t) (hs : s.Sub e) : ∃ t, Accepts ctx env s t := by
  induction hs generalizing t
  case refl => exact ⟨t, h⟩
  case operand hx _ hi =>
    have ⟨_, h⟩ := h.operand hx
    exact hi h

theorem accepts_of_checkDestination (h : Succeeds env.values (checkDestination ctx e d) ()) :
    ∃ t, Accepts ctx env e t := by
  cases d
  case statement =>
    have ⟨t, ht, _⟩ := succeeds_bind.mp h
    exact ⟨t, ht⟩
  case inferred =>
    have ⟨t, ht, _⟩ := succeeds_bind.mp h
    exact ⟨t, .ofValue ht⟩
  case typed =>
    have ⟨t, ht, _⟩ := succeeds_bind.mp h
    exact ⟨t, .ofValue ht⟩

theorem uncachedBranches_iff (h : Accepts ctx env e t) :
    UncachedBranches ctx env e ↔ ¬CacheableBranches ctx env e := by
  induction e generalizing t
  case ifExpr c a b _ ha hb =>
    have ⟨ta, tb, hc', ha', hb', _⟩ := h.ifExpr
    simp only [UncachedBranches, CacheableBranches, uncached_iff hc', ha ha', hb hb',
      Cacheable.congr_of_ne hc' nofun, not_and_or]
  all_goals exact uncached_iff h True

theorem uncachedAt_iff (h : Accepts ctx env e t) (d : Destination) :
    UncachedAt ctx env e d ↔ ¬CacheableAt ctx env e d := by
  cases d
  case statement => exact uncached_iff h False
  case typed     => exact uncachedBranches_iff h
  case inferred =>
    simp only [UncachedAt, CacheableAt, uncached_iff h]
    exact not_congr (Cacheable.congr h fun ht => ⟨t, h, ht ▸ rfl⟩)

end Destinations

end Coglet
