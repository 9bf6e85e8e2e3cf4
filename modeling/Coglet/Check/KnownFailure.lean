import Coglet.Check.Accepts

open Demand

namespace Coglet

-- The types of constant integers and of members of enums.
def Ty.isIntegral (type : Ty) : Bool :=
  type.isInteger || type.kind = .enum

section Known

variable (ctx : Context κ) (env : Environment κ)

-- An operand that is known at compile time.
structure Known (x : Expr) (m : Meaning) : Prop where
  accepted : ∃ t, Accepts ctx env x t
  denotes  : denote ctx env.meanings true x = some m

-- An operation on operands that are known, whose result is undefined.
inductive KnownFailure : Expr → Prop
  | unary :
    Known ctx env x (.ofInt type z) → type.isIntegral → denote ctx env.meanings true (.unary op x) = none →
    KnownFailure (.unary op x)
  | binary :
    Known ctx env l (.ofInt a x) → Known ctx env r (.ofInt b y) → a.isIntegral → b.isIntegral →
    denote ctx env.meanings true (.binary op l r) = none → KnownFailure (.binary op l r)
  | cast :
    Known ctx env x m → kind ≠ .reinterpret →
    denote ctx env.meanings true (.cast kind target x) = none → KnownFailure (.cast kind target x)

-- A negation of an untyped or signed integer whose result lies outside of its type.
inductive FailingNegation : Expr → Prop
  | intro :
    Known ctx env x (.ofInt type z) →
    type.kind = .untypedInt ∨ type.kind.isSignedInteger → type.kind.contains (-z) = false →
    FailingNegation (.unary .minus x)

end Known

section Reported

variable {ctx : Context κ} {env : Environment κ}

theorem Known.evaluates (h : Known ctx env x m) :
    ∃ v, evaluation ctx env x = .value v ∧ v.WellTyped ∧ v.meaning = m := by
  have ⟨t, ht⟩ := h.accepted
  have ha : Agrees (evaluation ctx env x) _ _ := evalConstExpr_agrees x
  cases hv : evaluation ctx env x <;> rw [hv] at ha
  case value v => exact ⟨v, rfl, ha.left, Option.some.inj (ha.right.left.symm.trans h.denotes)⟩
  case failed  => cases ha.left.symm.trans h.denotes
  case aborted => exact absurd ha ht.not_negatesMinimum

theorem Folded.Refines.error_of_none {r : Folded ConstValue} (h : r.Refines m) (hm : m = none) :
    ∃ d, r = .error d := by
  cases r
  case ok        => cases hm.symm.trans h.right
  case error m   => exact ⟨m, rfl⟩
  case assertion => exact h.elim

-- An operand that is accepted only contributes its type.
theorem diagnostics_operand {f : Ty → Checked κ Ty} (h : Accepts ctx env x t)
    (hf : t.kind ≠ .void → diagnostics env.values (f t) ≠ []) :
    diagnostics env.values ((checkExpression ctx x >>= requireValue) >>= f) ≠ [] := by
  have ho := Succeeds.value h
  by_cases hv : t.kind = .void
  case pos => simp [requireValue, ho, hv, Outcome.bind]
  case neg => simp [requireValue, ho, hv, Outcome.bind, hf hv]

section Binary

variable {l r : Expr} {a b : ConstValue}

theorem outcome_tryEval_value (h : evaluation ctx env e = .value v) :
    outcome env.values (tryEvalConstExpr ctx e) = .value (some v) := by
  simp [tryEvalConstExpr, show outcome env.values (evalConstExpr ctx true e) = _ from h]

theorem outcome_tryEval_failed (h : evaluation ctx env e = .failed) :
    outcome env.values (tryEvalConstExpr ctx e) = .value none := by
  simp [tryEvalConstExpr, show outcome env.values (evalConstExpr ctx true e) = _ from h]

theorem diagnostics_tryEval : diagnostics env.values (tryEvalConstExpr ctx e) = [] := by
  simp [tryEvalConstExpr]

variable (ha : evaluation ctx env l = .value a) (hb : evaluation ctx env r = .value b)
  (hf : evalBinary op a b = .error m)

include ha hb hf

theorem evaluation_binary_failed : evaluation ctx env (.binary op l r) = .failed := by
  unfold evaluation at *
  simp [evalConstExpr, ha, hb, hf, Outcome.bind, Folded.lift]

theorem diagnostics_binary_failed :
    diagnostics env.values (evalConstExpr ctx true (.binary op l r)) ≠ [] := by
  unfold evaluation at *
  simp [evalConstExpr, ha, hb, hf, Folded.lift]

theorem checkBinaryConstantOperands_reports :
    diagnostics env.values
      (checkBinaryConstantOperands ctx (.binary op l r) l r tl tr operation m₁ m₂) ≠ [] := by
  simp [checkBinaryConstantOperands, outcome_tryEval_failed (evaluation_binary_failed ha hb hf),
    diagnostics_tryEval, diagnoseConstantOperation, outcome_tryEval_value, ha, hb,
    diagnostics_binary_failed ha hb hf]

theorem checkArithmetic_reports (op' : ArithmeticOperation) :
    diagnostics env.values (checkArithmetic ctx (.binary op l r) l r op' tl tr) ≠ [] := by
  unfold checkArithmetic
  repeat' split
  all_goals try simp
  intro h
  exact absurd h (checkBinaryConstantOperands_reports ha hb hf)

theorem checkBitwise_reports :
    diagnostics env.values (checkBitwise ctx (.binary op l r) l r tl tr) ≠ [] := by
  unfold checkBitwise
  repeat' split
  all_goals try simp
  exact checkBinaryConstantOperands_reports ha hb hf

theorem checkNumericComparison_reports :
    diagnostics env.values (checkNumericComparison ctx (.binary op l r) l r tl tr) ≠ [] := by
  unfold checkNumericComparison
  split
  case h_1 => simp
  case h_2 =>
    simp only [diagnostics_bind, ne_eq, List.append_eq_nil_iff, not_and]
    exact fun h => absurd h (checkBinaryConstantOperands_reports ha hb hf)

end Binary

theorem Ty.isIntegral_spec {type : Ty} (h : type.isIntegral) :
    type.kind ≠ .null ∧ type.isNullablePointer = false ∧ type.isRawPointer = false ∧
    (type.isNumeric = false → type.kind = .enum) := by
  cases type <;> first | cases h; done | exact ⟨by decide, rfl, rfl, by decide⟩ | exact ⟨nofun, rfl, rfl, fun _ => rfl⟩

theorem pointerIdentity_of_not_raw {a b : Ty} (h : a.isRawPointer = false) :
    a.pointerIdentityEqualIgnoringQualifiers b = false := by
  cases a <;> first | rfl | cases h

-- Enums are compared without being folded, but the comparison of known members never fails.
theorem checkComparison_reports {op : ComparisonOperation} {x y : IntegerValue}
    (ha : evaluation ctx env l = .value ⟨ta, .int x⟩) (hb : evaluation ctx env r = .value ⟨tb, .int y⟩)
    (hf : evalBinary (.comparison op) ⟨ta, .int x⟩ ⟨tb, .int y⟩ = .error m) (hi : ta.isIntegral)
    (hj : tb.isIntegral) :
    diagnostics env.values (checkComparison ctx (.binary (.comparison op) l r) l r op ta tb) ≠ [] := by
  have hn : diagnostics env.values (checkNumericComparison ctx _ l r ta tb) ≠ [] :=
    checkNumericComparison_reports ha hb hf
  have ⟨hna, hpa, hra, hea⟩ := ta.isIntegral_spec hi
  have ⟨hnb, hpb, _, _⟩ := tb.isIntegral_spec hj
  unfold checkComparison
  cases ho : op.isEquality
  case false =>
    cases hc : ta.isNumeric && tb.isNumeric <;> simp only [Bool.and_eq_true, Bool.and_eq_false_iff] at hc
    case true  => simpa [hc] using hn
    case false => rcases hc with hc | hc <;> simp [hc]
  case true =>
    simp only [hna, hnb, hpa, hpb, Ty.isPointerNullPair, pointerIdentity_of_not_raw hra]
    cases hc : ta.isNumeric && tb.isNumeric
    case true  => simpa [hc] using hn
    case false =>
      cases he : ta.typeEqual tb
      case false => simp
      case true =>
        obtain rfl := Ty.typeEqual_iff.mp he
        have hn : ta.isNumeric = false := by simpa using hc
        simp [evalBinary, evalConstComparison, hn, hea hn, he, ho] at hf

theorem ownKind_isSome (ht : type.isInteger) (hz : type.kind.contains z) :
    ∃ kind info, Meaning.ownKind type z = some kind ∧ kind.integerTypeInfo = some info := by
  unfold Meaning.ownKind
  cases hc : type.kind.isConcreteInteger
  case true =>
    have ⟨info, hi⟩ := info_of_isConcreteInteger hc
    exact ⟨type.kind, info, by simp, hi⟩
  case false =>
    have hu : type.kind = .untypedInt := by
      simpa [Ty.isInteger, TypeKind.isInteger, hc] using ht
    rcases defaultIntegerKind_cases z with ⟨_, h⟩ | ⟨hd, _⟩ | ⟨hd, _⟩ | ⟨hd, _⟩
    case inl => simp [hu, h] at hz
    case inr.inl     => exact ⟨.s32, _, by simp [hu, hd], rfl⟩
    case inr.inr.inl => exact ⟨.s64, _, by simp [hu, hd], rfl⟩
    case inr.inr.inr => exact ⟨.u64, _, by simp [hu, hd], rfl⟩

theorem builtinType_kind {kind : TypeKind} (h : kind.integerTypeInfo = some info) :
    ∃ t, kind.builtinType = some t ∧ t.kind = kind := by
  cases kind <;> first | exact ⟨_, rfl, rfl⟩ | cases h

-- A shift is carried out in the type of its left operand, or in the default type of an untyped one.
theorem outcome_shiftResultType {x : IntegerValue} (ha : evaluation ctx env l = .value ⟨ta, .int x⟩)
    (hx : x.Canonical) (hk : Meaning.ownKind ta x.toInt = some kind) (hi : kind.integerTypeInfo = some info) :
    ∃ t, outcome env.values (shiftResultType ctx l ta) = .value t ∧ t.kind = kind := by
  have hc : kind.isConcreteInteger := by simp [TypeKind.isConcreteInteger, hi]
  unfold Meaning.ownKind at hk
  split at hk
  case isTrue h =>
    obtain rfl := Option.some.inj hk
    have hu : ta.kind ≠ .untypedInt := by
      intro hu
      rw [hu] at h
      cases h
    exact ⟨ta, by simp [shiftResultType, concretizeUntypedInt, hu, hc, Outcome.bind], rfl⟩
  case isFalse =>
    split at hk
    case isFalse => cases hk
    case isTrue hu =>
      obtain ⟨t, ht, htk⟩ := builtinType_kind hi
      obtain rfl := kind_eq_untypedInt.mp hu
      refine ⟨t, ?_, htk⟩
      unfold evaluation at ha
      simp [shiftResultType, concretizeUntypedInt, concretizeInferredType, hu, Ty.isUntypedNumeric,
        TypeKind.isUntypedNumeric, ConstValue.defaultConcreteType, ha, Outcome.bind,
        IntegerValue.defaultIntegerKind_eq hx, hk, ht, Folded.lift, htk, hc]

theorem checkShift_reports {op : ShiftOperation} {x y : IntegerValue}
    (ha : evaluation ctx env l = .value ⟨ta, .int x⟩) (hb : evaluation ctx env r = .value ⟨tb, .int y⟩)
    (hx : ConstValue.WellTyped ⟨ta, .int x⟩) (hy : y.Canonical)
    (hf : evalBinary (.shift op) ⟨ta, .int x⟩ ⟨tb, .int y⟩ = .error m)
    (hs : Meaning.shift op (.ofInt ta x.toInt) (.ofInt tb y.toInt) = none) :
    diagnostics env.values (checkShift ctx (.binary (.shift op) l r) l r ta tb) ≠ [] := by
  unfold checkShift
  cases hia : ta.isInteger
  case false => simp
  case true =>
    cases hib : tb.isInteger
    case false => simp
    case true =>
      have hx' := hx.canonical x rfl
      have ⟨kind, info, hk, hi⟩ := ownKind_isSome hia (hx.contains hia)
      have ⟨t, ht, htk⟩ := outcome_shiftResultType ha hx' hk hi
      have hw := TypeKind.integerBitWidth_of_info hi
      have hr : ¬(0 ≤ y.toInt ∧ y.toInt < info.bitWidth) := by
        intro h
        simp [Meaning.shift, Meaning.ofInt, hib, hk, hi, h, guard] at hs
      have hd : diagnostics env.values (checkKnownShiftCount ctx r t) ≠ [] := by
        rcases (classifyShiftCount_eq hy info.bitWidth).right hr with hc | hc <;>
          simp [checkKnownShiftCount, htk, hw, outcome_tryEval_value hb, hc]
      simp [outcome_tryEval_failed (evaluation_binary_failed ha hb hf), ht, hd]

-- A known integer is evaluated to a constant of the type that the checker assigns to it.
theorem Known.integer (h : Known ctx env x (.ofInt type z)) :
    ∃ i : IntegerValue, Accepts ctx env x type ∧ evaluation ctx env x = .value ⟨type, .int i⟩ ∧
      ConstValue.WellTyped ⟨type, .int i⟩ ∧ i.toInt = z := by
  have ⟨⟨type', payload⟩, hv, hw, hm⟩ := h.evaluates
  have ⟨t, ht⟩ := h.accepted
  have htt := ht.type_eq hv
  simp only [ConstValue.meaning, Constant.map, Meaning.ofInt, Constant.mk.injEq] at hm
  obtain ⟨rfl, hp⟩ := hm
  obtain rfl := htt
  cases payload <;> cases hp
  case int.refl i => exact ⟨i, ht, hv, hw, rfl⟩

theorem binary_reports (hl : Known ctx env l (.ofInt ta x)) (hr : Known ctx env r (.ofInt tb y))
    (hi : ta.isIntegral) (hj : tb.isIntegral)
    (hn : denote ctx env.meanings true (.binary op l r) = none) :
    diagnostics env.values (checkExpression ctx (.binary op l r)) ≠ [] := by
  have hd : Meaning.binary op (.ofInt ta x) (.ofInt tb y) = none := by
    simpa [denote, hl.denotes, hr.denotes] using hn
  obtain ⟨i, hla, hle, hlw, rfl⟩ := hl.integer
  obtain ⟨j, hra, hre, hrw, rfl⟩ := hr.integer
  obtain ⟨m, hf⟩ := (evalBinary_refines hlw hrw op).error_of_none hd
  refine diagnostics_operand hla fun _ => ?_
  cases overloadedOperator op ta
  case some => simp
  case none =>
    refine diagnostics_operand hra fun _ => ?_
    cases op
    case arithmetic op => exact checkArithmetic_reports hle hre hf op
    case bitwise       => exact checkBitwise_reports hle hre hf
    case shift         => exact checkShift_reports hle hre hlw (hrw.canonical j rfl) hf hd
    case comparison    => exact checkComparison_reports hle hre hf hi hj

theorem checkCheckedCast_reports (hv : evaluation ctx env x = .value v)
    (he : diagnostics env.values (evalConstExpr ctx true e) ≠ []) :
    diagnostics env.values (checkCheckedCast ctx e x target tx) ≠ [] := by
  unfold checkCheckedCast
  split
  case isTrue  => simp
  case isFalse => simp [outcome_tryEval_value hv, he]

theorem checkTruncatingCast_reports (hv : evaluation ctx env x = .value v)
    (he : diagnostics env.values (evalConstExpr ctx true e) ≠ []) :
    diagnostics env.values (checkTruncatingCast ctx e x target tx) ≠ [] := by
  unfold checkTruncatingCast
  split
  case isTrue  => simp
  case isFalse => simp [outcome_tryEval_value hv, he]

theorem cast_reports (h : Known ctx env x m) (hk : kind ≠ .reinterpret)
    (hn : denote ctx env.meanings true (.cast kind target x) = none) :
    diagnostics env.values (checkExpression ctx (.cast kind target x)) ≠ [] := by
  obtain ⟨t, ht⟩ := h.accepted
  obtain ⟨v, hv, hw, hm⟩ := h.evaluates
  have hv' : outcome env.values (evalConstExpr ctx true x) = .value v := hv
  cases kind
  case reinterpret => exact absurd rfl hk
  case checked =>
    cases target
    case error => exact List.cons_ne_nil _ _
    case ok target =>
      have hd : Meaning.checkedCast ctx.enums target.type v.meaning = none := by
        simpa [denote, h.denotes, hm, Except.toOption] using hn
      obtain ⟨d, hf⟩ := (evalCheckedCast_refines hw target.notUntyped).error_of_none hd
      show diagnostics env.values (if _ then _ else _) ≠ []
      split
      case isTrue => simp
      case isFalse =>
        refine diagnostics_operand ht fun _ => checkCheckedCast_reports hv ?_
        simp [evalConstExpr, hv', TypeRef.resolve, hf, Folded.lift]
  case truncating =>
    cases target
    case error => exact List.cons_ne_nil _ _
    case ok target =>
      have hd : Meaning.truncatingCast target.type v.meaning = none := by
        simpa [denote, h.denotes, hm, Except.toOption] using hn
      obtain ⟨d, hf⟩ := (evalTruncatingCast_refines hw).error_of_none hd
      show diagnostics env.values (if _ then _ else _) ≠ []
      split
      case isTrue => simp
      case isFalse =>
        refine diagnostics_operand ht fun _ => checkTruncatingCast_reports hv ?_
        simp [evalConstExpr, hv', TypeRef.resolve, hf, Folded.lift]

theorem tilde_isSome (ht : type.isInteger) (hz : type.kind.contains z) :
    Meaning.tilde (.ofInt type z) ≠ none := by
  have ⟨kind, info, hk, hi⟩ := ownKind_isSome ht hz
  simp [Meaning.tilde, Meaning.ofInt, hk, hi]

-- The check of a negation does not evaluate it again for the sake of a diagnostic.
theorem diagnostics_foldedType : diagnostics env.values (foldedType ctx e tx) = [] := by
  simp only [foldedType, diagnostics_bind, diagnostics_tryEval, List.nil_append]
  split
  case h_1 o _ => cases o <;> rfl
  case h_2     => rfl

theorem diagnostics_checkMinus (ht : tx.isNumeric) (hu : tx.kind.isUnsignedInteger = false) :
    diagnostics env.values (checkUnary ctx e .minus tx) = [] := by
  have hf : diagnostics env.values (foldedType ctx e tx) = [] := diagnostics_foldedType
  cases tx <;> first | cases ht; done | cases hu; done | exact hf

theorem checkMinus_reports (h : tx.isNumeric = false ∨ tx.kind.isUnsignedInteger) :
    diagnostics env.values (checkUnary ctx e .minus tx) ≠ [] := by
  unfold checkUnary
  simp only
  split
  case h_1 => simp
  case h_2 =>
    cases hn : tx.isNumeric
    case false => simp
    case true  => simp [h.resolve_left (by simp [hn])]

-- Negation is defined for untyped and signed integers.
theorem Ty.isIntegral_cases {type : Ty} (h : type.isIntegral) :
    (type.isNumeric = false ∨ type.kind.isUnsignedInteger) ∧
      ¬(type.kind = .untypedInt ∨ type.kind.isSignedInteger) ∨
    type.isNumeric ∧ type.kind.isUnsignedInteger = false ∧
      (type.kind = .untypedInt ∨ type.kind.isSignedInteger) := by
  cases type <;> first | cases h; done | simp [Ty.isNumeric, Ty.kind]; decide

theorem minus_reports (h : Known ctx env x (.ofInt type z)) (hi : type.isIntegral)
    (hn : denote ctx env.meanings true (.unary .minus x) = none) :
    diagnostics env.values (checkExpression ctx (.unary .minus x)) ≠ [] ↔
    ¬FailingNegation ctx env (.unary .minus x) := by
  obtain ⟨i, hx, _, _, rfl⟩ := h.integer
  rcases type.isIntegral_cases hi with ⟨hu, hk⟩ | ⟨hs, hu, hk⟩
  case inl =>
    refine iff_of_true (diagnostics_operand hx fun _ => checkMinus_reports hu) fun hf => ?_
    cases hf with | intro hd hk' _ =>
    cases Option.some.inj (hd.denotes.symm.trans h.denotes)
    exact hk hk'
  case inr =>
    refine iff_of_false (not_not.mpr ?_) (not_not.mpr (.intro h hk ?_))
    case refine_1 =>
      have hv : type.kind ≠ .void := by rintro hv; simp [hv] at hk; cases hk
      simp [checkExpression, requireValue, hx.quiet, Succeeds.value hx, hv, Outcome.bind, diagnostics_checkMinus hs hu]
    case refine_2 =>
      have hm : Meaning.minus (.ofInt type i.toInt) = none := by
        simpa [denote, h.denotes, Meaning.unary] using hn
      simp [Meaning.minus, Meaning.ofInt] at hm
      exact hm (hk.imp decide_eq_true id)

theorem unary_reports (h : Known ctx env x (.ofInt type z)) (hi : type.isIntegral)
    (hn : denote ctx env.meanings true (.unary op x) = none) :
    diagnostics env.values (checkExpression ctx (.unary op x)) ≠ [] ↔ ¬FailingNegation ctx env (.unary op x) := by
  cases op
  case minus => exact minus_reports h hi hn
  case tilde =>
    obtain ⟨i, hx, _, hw, rfl⟩ := h.integer
    refine iff_of_true (diagnostics_operand hx fun _ => ?_) (fun h => by cases h)
    cases ht : type.isInteger
    case false => simp [checkUnary, ht]
    case true  =>
      refine absurd ?_ (tilde_isSome ht (hw.contains ht))
      simpa [denote, h.denotes, Meaning.unary] using hn
  case bang =>
    obtain ⟨i, hx, _, hw, rfl⟩ := h.integer
    refine iff_of_true (diagnostics_operand hx fun _ => ?_) (fun h => by cases h)
    have hb : type.kind ≠ .bool := by
      intro hb
      simp [Ty.isIntegral, Ty.isInteger, hb] at hi
      cases hi
    simp [checkUnary, hb]

theorem FailingNegation.knownFailure (h : FailingNegation ctx env e) : KnownFailure ctx env e := by
  cases h with | @intro x type z h hk hc =>
  have hi : type.isIntegral := by
    rcases hk with hk | hk
    case inl => simp [Ty.isIntegral, Ty.isInteger, TypeKind.isInteger, hk]
    case inr => cases type <;> first | rfl | cases hk
  exact .unary h hi (by simp [denote, h.denotes, Meaning.unary, Meaning.minus, Meaning.ofInt, hc])

theorem KnownFailure.denotes (h : KnownFailure ctx env e) : denote ctx env.meanings true e = none := by
  cases h <;> assumption

theorem knownFailure_reports_iff (h : KnownFailure ctx env e) :
    diagnostics env.values (checkExpression ctx e) ≠ [] ↔ ¬FailingNegation ctx env e := by
  cases h
  case unary h hi hn          => exact unary_reports h hi hn
  case binary hl hr hi hj hn  => exact iff_of_true (binary_reports hl hr hi hj hn) nofun
  case cast h hk hn           => exact iff_of_true (cast_reports h hk hn) nofun

end Reported
end Coglet
