import Coglet.Const.Semantics

open TwosComplement

namespace Coglet

namespace IntegerValue

variable {i : IntegerValue} {kind : TypeKind} {info : IntegerTypeInfo}

theorem fitsType_untyped_iff (hc : i.Canonical) :
    i.fitsType .untypedInt ↔ -2 ^ 63 ≤ i.toInt ∧ i.toInt < 2 ^ 64 := by
  have hl := i.magnitude.isLt
  simp only [fitsType, ite_true, toInt]
  cases hn : i.isNegative <;> simp [BitVec.le_def]
  case false => omega
  case true =>
    have hz : i.magnitude.toNat ≠ 0 := by
      intro h
      have := hc (BitVec.eq_of_toNat_eq h)
      simp [this] at hn
    omega

theorem fitsType_eq_contains (hc : i.Canonical) : i.fitsType kind = kind.contains i.toInt := by
  rw [Bool.eq_iff_iff]
  cases h : kind.integerTypeInfo
  case some info =>
    rw [fitsType_iff_inRange h hc]
    simp [TypeKind.contains, h]
  case none =>
    by_cases hk : kind = .untypedInt
    case pos =>
      subst hk
      rw [fitsType_untyped_iff hc]
      simp [TypeKind.contains, h]
    case neg => simp [TypeKind.contains, fitsType, h, hk]

theorem defaultIntegerKind_eq (hc : i.Canonical) :
    i.defaultIntegerKind = Coglet.defaultIntegerKind i.toInt := by
  simp only [defaultIntegerKind, Coglet.defaultIntegerKind, fitsType_eq_contains hc, List.find?]
  cases TypeKind.contains .s32 i.toInt <;> cases TypeKind.contains .s64 i.toInt <;>
    cases TypeKind.contains .u64 i.toInt <;> rfl

theorem ofInt_toInt (hc : i.Canonical) : ofInt i.toInt = i := by
  apply Canonical.toInt_injective make_canonical hc
  rw [make_toInt, toInt]
  cases hn : i.isNegative <;> simp

-- Every concrete integer type is part of the untyped integers.
theorem fitsType_untyped_of_fitsType (h : kind.integerTypeInfo = some info) (hf : i.fitsType kind) :
    i.fitsType .untypedInt := by
  have hl := TypeKind.bitWidth_le h
  have hp : 2 ^ (info.bitWidth - 1) ≤ 2 ^ 63 := Nat.pow_le_pow_right (by decide) (by omega)
  rw [fitsType_of_info h] at hf
  simp only [fitsType, ite_true]
  cases hi : info.isSigned <;> cases hn : i.isNegative <;> simp [hi, hn, BitVec.le_def] at hf ⊢
  case true.true => omega

theorem truncate_exact (h : kind.integerTypeInfo = some info) :
    ∃ v, i.truncate kind = some v ∧ v.Represents kind (wrap info.isSigned info.bitWidth i.toInt) := by
  have hl := TypeKind.bitWidth_le h
  have hm : i.magnitude.setWidth info.bitWidth = BitVec.ofNat info.bitWidth i.magnitude.toNat := by
    apply BitVec.eq_of_toNat_eq
    simp
  simp only [truncate, TypeKind.integerBitWidth_of_info h, Option.bind_eq_bind, Option.bind_some, wrap]
  cases hn : i.isNegative
  case false =>
    have ⟨v, hv, hr⟩ := fromBitPattern_represents h (i.magnitude &&& integerWidthMask info.bitWidth)
    rw [setWidth_and_mask hl, hm] at hr
    rw [toInt_nonneg hn, BitVec.ofInt_natCast]
    exact ⟨v, by simpa using hv, hr⟩
  case true =>
    have ⟨v, hv, hr⟩ := fromBitPattern_represents h
      ((0#64 - (i.magnitude &&& integerWidthMask info.bitWidth)) &&& integerWidthMask info.bitWidth)
    rw [setWidth_and_mask hl, BitVec.zero_sub, BitVec.setWidth_neg_of_le hl, setWidth_and_mask hl, hm,
      ← BitVec.ofInt_natCast, ← BitVec.ofInt_neg] at hr
    rw [toInt_neg hn]
    exact ⟨v, by simpa using hv, hr⟩

end IntegerValue

namespace ConstValue

-- The payload of a constant is determined by its type, and integers lie in the range of theirs.
structure WellTyped (value : ConstValue) : Prop where
  integer   : value.type.isInteger → ∃ i, value.payload = .int i ∧ i.fitsType value.type.kind
  float     : value.type.kind.isFloat → ∃ f, value.payload = .float f
  canonical : ∀ i, value.payload = .int i → i.Canonical

variable {a b value : ConstValue}

theorem encode_meaning (h : value.WellTyped) : value.meaning.encode = value := by
  obtain ⟨type, payload⟩ := value
  cases payload <;> simp [meaning, Meaning.encode, Constant.map]
  case int i => exact IntegerValue.ofInt_toInt (h.canonical i rfl)

theorem defaultNumericKind_meaning (h : value.WellTyped) :
    value.meaning.defaultNumericKind = value.defaultNumericKind := by
  obtain ⟨type, payload⟩ := value
  cases payload <;> simp [meaning, Constant.map, Meaning.defaultNumericKind, defaultNumericKind]
  case int i => rw [IntegerValue.defaultIntegerKind_eq (h.canonical i rfl)]

theorem operationKind_meaning (ha : a.WellTyped) (hb : b.WellTyped) (type : Ty) :
    a.meaning.operationKind b.meaning type = a.numericOperationKind b type := by
  simp [Meaning.operationKind, numericOperationKind, defaultNumericKind_meaning, ha, hb]

theorem WellTyped.bool : WellTyped (boolConstant x) where
  integer   := nofun
  float     := nofun
  canonical := nofun

theorem WellTyped.int (ht : type.isInteger → i.fitsType type.kind) (hf : type.kind.isFloat = false)
    (hc : i.Canonical) : WellTyped ⟨type, .int i⟩ where
  integer h   := ⟨i, rfl, ht h⟩
  float h     := by simp [hf] at h
  canonical _ := by rintro ⟨⟩; exact hc

end ConstValue

-- A helper of the evaluator computes what an operation means, and no assertion fails on the way.
def Folded.Refines (r : Folded ConstValue) (m : Option Meaning) : Prop :=
  match r with
  | ok value  => value.WellTyped ∧ m = some value.meaning
  | error _   => m = none
  | assertion => False

namespace Folded.Refines

theorem self {r : Folded ConstValue} (hw : ∀ v, r = .ok v → v.WellTyped) (hn : r ≠ .assertion) :
    r.Refines r.meaning := by
  cases r
  case ok v      => exact ⟨hw v rfl, rfl⟩
  case error     => rfl
  case assertion => contradiction

theorem safe {r : Folded ConstValue} (h : r.Refines m) :
    (∀ v, r = .ok v → v.WellTyped) ∧ r ≠ .assertion := by
  cases r
  case ok v      => simpa using h.left
  case error     => simp
  case assertion => exact h.elim

end Folded.Refines

section Results

variable {type : Ty} {kind : TypeKind} {info : IntegerTypeInfo} {v : IntegerValue}

theorem isFloat_of_isInteger (h : kind.isInteger) : kind.isFloat = false := by
  cases kind <;> first | rfl | contradiction

-- A result that lies in the kind of the operation is never rejected afterward.
theorem integerConstantResult_refines (ht : type.isInteger) (hk : kind.integerTypeInfo = some info)
    (he : type.kind = kind ∨ type.kind = .untypedInt) (hv : v.Represents kind z) :
    (integerConstantResult type kind v).Refines (some (.ofInt type z)) := by
  have hu := IntegerValue.fitsType_untyped_of_fitsType hk hv.fits
  have hc := TypeKind.isConcreteInteger_of_info hk
  simp only [integerConstantResult, ht, hc, hv.fits, hu, Bool.not_true, Bool.or_self, Bool.and_false,
    Bool.false_eq_true, ite_false]
  constructor
  case left =>
    refine .int (fun _ => ?_) (isFloat_of_isInteger ht) hv.canonical
    rcases he with he | he <;> rw [he]
    exacts [hv.fits, hu]
  case right => simp [ConstValue.meaning, Constant.map, Meaning.ofInt, hv.toInt_eq]

theorem floatConstantResult_wellTyped (h : floatConstantResult type kind f = .ok value) :
    value.WellTyped := by
  unfold floatConstantResult at h
  split at h <;> try contradiction
  split at h <;> try contradiction
  case h_2 hf _ _ _ =>
    obtain ⟨⟩ := h
    simp only [Bool.or_eq_true, Bool.not_eq_true', not_or, Bool.not_eq_false] at hf
    refine ⟨fun hi => ?_, fun _ => ⟨_, rfl⟩, nofun⟩
    simp [isFloat_of_isInteger hi] at hf

theorem floatConstantResult_ne_assertion : floatConstantResult type kind f ≠ .assertion := by
  unfold floatConstantResult
  split <;> simp
  split <;> simp

end Results

section Unary

variable {type : Ty} {kind : TypeKind} {info : IntegerTypeInfo} {v : ConstValue}

theorem contains_of_info (h : kind.integerTypeInfo = some info) :
    kind.contains z ↔ InRange info.isSigned info.bitWidth z := by
  simp [TypeKind.contains, h]

theorem contains_untypedInt : TypeKind.contains .untypedInt z ↔ -2 ^ 63 ≤ z ∧ z < 2 ^ 64 := by
  simp [TypeKind.contains, TypeKind.integerTypeInfo]

theorem defaultIntegerKind_cases (z : Int) :
    (defaultIntegerKind z = none ∧ TypeKind.contains .untypedInt z = false) ∨
    (defaultIntegerKind z = some .s32 ∧ TypeKind.contains .s32 z = true) ∨
    (defaultIntegerKind z = some .s64 ∧ TypeKind.contains .s64 z = true) ∨
    (defaultIntegerKind z = some .u64 ∧ TypeKind.contains .u64 z = true ∧ 2 ^ 63 ≤ z) := by
  simp only [defaultIntegerKind, List.find?]
  cases h32 : TypeKind.contains .s32 z <;> cases h64 : TypeKind.contains .s64 z <;>
    cases hu : TypeKind.contains .u64 z <;>
    simp [TypeKind.contains, TypeKind.integerTypeInfo, InRange] at h32 h64 hu ⊢ <;> omega

theorem kind_eq_untypedInt {type : Ty} : type.kind = .untypedInt ↔ type = .untypedInt := by
  cases type <;> simp [Ty.kind]

-- The concrete kind of an operation on a single operand contains that operand.
theorem ownKind_spec (h : Meaning.ownKind type z = some kind)
    (hz : type.isInteger → type.kind.contains z) :
    ∃ info, kind.integerTypeInfo = some info ∧ kind.contains z ∧ type.isInteger ∧
      (type.kind = kind ∨ type.kind = .untypedInt) := by
  unfold Meaning.ownKind at h
  split at h
  case isTrue hc =>
    obtain ⟨⟩ := h
    have ht : type.isInteger := by simp [Ty.isInteger, TypeKind.isInteger, hc]
    have ⟨info, hi⟩ := Option.isSome_iff_exists.mp hc
    exact ⟨info, hi, hz ht, ht, .inl rfl⟩
  case isFalse =>
    split at h <;> try contradiction
    case isTrue hu =>
      have ht : type.isInteger := by simp [Ty.isInteger, TypeKind.isInteger, hu]
      rcases defaultIntegerKind_cases z with ⟨hd, _⟩ | ⟨hd, hc⟩ | ⟨hd, hc⟩ | ⟨hd, hc, _⟩ <;>
        rw [hd] at h <;> try contradiction
      all_goals
        obtain ⟨⟩ := h
        exact ⟨_, rfl, hc, ht, .inr hu⟩

theorem complementKind_eq (type : Ty) {i : IntegerValue} (hc : i.Canonical) :
    ∃ m, complementKind type i = .ofOption m (Meaning.ownKind type i.toInt) := by
  rw [complementKind, Meaning.ownKind, IntegerValue.defaultIntegerKind_eq hc]
  split
  case isTrue  => exact ⟨"", rfl⟩
  case isFalse => split <;> exact ⟨_, rfl⟩

theorem shiftKind_eq (type : Ty) {i : IntegerValue} (hc : i.Canonical) :
    ∃ m, shiftKind type i = .ofOption m (Meaning.ownKind type i.toInt) := by
  rw [shiftKind, Meaning.ownKind, IntegerValue.defaultIntegerKind_eq hc]
  split
  case isTrue  => exact ⟨"", rfl⟩
  case isFalse => split <;> exact ⟨_, rfl⟩

-- The one operand of a negation on which the evaluator aborts.
def negatedMinimum : Meaning :=
  .ofInt .untypedInt (-2 ^ 63)

theorem ConstValue.WellTyped.contains {i : IntegerValue} (h : ConstValue.WellTyped ⟨type, .int i⟩)
    (ht : type.isInteger) : type.kind.contains i.toInt := by
  have ⟨_, hi, hf⟩ := h.integer ht
  obtain ⟨⟩ := hi
  rwa [← IntegerValue.fitsType_eq_contains (h.canonical i rfl)]

theorem evalUnaryMinus_untyped_of_kind {i : IntegerValue} (hk : kind.integerTypeInfo = some info)
    (hs : info.isSigned = true) (hd : defaultIntegerKind (-i.toInt) = some kind)
    (hc : kind.contains (-i.toInt)) :
    (evalUnaryMinus ⟨.untypedInt, .int i⟩).Refines (Meaning.minus (.ofInt .untypedInt i.toInt)) := by
  have hr := contains_of_info hk |>.mp hc
  rw [hs] at hr
  have ⟨v, hv, hr⟩ := IntegerValue.evaluateCheckedNegation_exact (a := i) hk hs |>.left hr
  have hm : TypeKind.contains .untypedInt (-i.toInt) := by
    rw [← hr.toInt_eq, ← IntegerValue.fitsType_eq_contains hr.canonical]
    exact IntegerValue.fitsType_untyped_of_fitsType hk hr.fits
  have hi := IntegerValue.defaultIntegerKind_eq (i := i.negated) IntegerValue.negated_canonical
  rw [IntegerValue.negated_toInt, hd] at hi
  simp only [evalUnaryMinus, negationKind, Ty.kind, show TypeKind.isUnsignedInteger .untypedInt = false from rfl,
    Bool.false_eq_true, ite_false, ite_true, hi, Meaning.minus, Meaning.ofInt, decide_true,
    Bool.true_or, Bool.true_and, hm, Folded.ofOption_some, Folded.ok_bind, hv]
  exact integerConstantResult_refines rfl hk (.inr rfl) hr

theorem evalUnaryMinus_untyped (i : IntegerValue) (hf : TypeKind.contains .untypedInt i.toInt) :
    (i.toInt = -2 ^ 63 → evalUnaryMinus ⟨.untypedInt, .int i⟩ = .assertion) ∧
    (i.toInt ≠ -2 ^ 63 → (evalUnaryMinus ⟨.untypedInt, .int i⟩).Refines
      (Meaning.minus (.ofInt .untypedInt i.toInt))) := by
  have hi := IntegerValue.defaultIntegerKind_eq (i := i.negated) IntegerValue.negated_canonical
  rw [IntegerValue.negated_toInt] at hi
  rw [contains_untypedInt] at hf
  -- The negation of `-2 ^ 63` is the only one whose default kind is unsigned.
  rcases defaultIntegerKind_cases (-i.toInt) with ⟨hd, hn⟩ | ⟨hd, hk⟩ | ⟨hd, hk⟩ | ⟨hd, hk, hg⟩
  case inl =>
    have hn' := Bool.eq_false_iff.mp hn
    rw [ne_eq, contains_untypedInt] at hn'
    refine ⟨by omega, fun _ => ?_⟩
    rw [hd] at hi
    simp [evalUnaryMinus, negationKind, Meaning.minus, Meaning.ofInt, Ty.kind, TypeKind.isUnsignedInteger,
      TypeKind.integerTypeInfo, hi, hn, Folded.Refines]
  case inr.inr.inr =>
    have hz : i.toInt = -2 ^ 63 := by omega
    refine ⟨fun _ => ?_, (absurd hz ·)⟩
    rw [hd] at hi
    simp [evalUnaryMinus, negationKind, Ty.kind, TypeKind.isUnsignedInteger, TypeKind.integerTypeInfo, hi,
      IntegerValue.evaluateCheckedNegation, TypeKind.isSignedInteger]
  all_goals
    refine ⟨fun hz => ?_, fun _ => evalUnaryMinus_untyped_of_kind (by rfl) rfl hd hk⟩
    simp [TypeKind.contains, TypeKind.integerTypeInfo, InRange] at hk
    omega

theorem evalUnaryMinus_signed {i : IntegerValue} (hk : type.kind.integerTypeInfo = some info)
    (hs : info.isSigned = true) :
    (evalUnaryMinus ⟨type, .int i⟩).Refines (Meaning.minus (.ofInt type i.toInt)) := by
  have hu : type.kind.isUnsignedInteger = false := by simp [TypeKind.isUnsignedInteger, hk, hs]
  have hg : type.kind.isSignedInteger = true := by simp [TypeKind.isSignedInteger, hk, hs]
  have hn := TypeKind.ne_untypedInt_of_info hk
  have ht : type.isInteger := by simp [Ty.isInteger, TypeKind.isInteger, TypeKind.isConcreteInteger_of_info hk]
  obtain ⟨hv, ho⟩ := IntegerValue.evaluateCheckedNegation_exact (a := i) hk hs
  have hc := contains_of_info hk (z := -i.toInt)
  rw [hs] at hc
  simp only [evalUnaryMinus, negationKind, hu, hn, hg, Bool.false_eq_true, ite_false, ite_true, Folded.ok_bind,
    Meaning.minus, Meaning.ofInt, decide_false, Bool.or_true, Bool.true_and]
  by_cases hr : type.kind.contains (-i.toInt)
  case pos =>
    obtain ⟨v, hv, hr'⟩ := hv (hc.mp hr)
    simp only [hv, hr, ite_true]
    exact integerConstantResult_refines ht hk (.inl rfl) hr'
  case neg => simp [ho (mt hc.mpr hr), hr, Folded.Refines]

theorem evalUnaryMinus_spec (h : v.WellTyped) :
    (v.meaning = negatedMinimum → evalUnaryMinus v = .assertion) ∧
    (v.meaning ≠ negatedMinimum → (evalUnaryMinus v).Refines (Meaning.minus v.meaning)) := by
  obtain ⟨type, payload⟩ := v
  cases payload
  case int i =>
    have hm : ConstValue.meaning ⟨type, .int i⟩ = .ofInt type i.toInt := rfl
    rw [hm]
    by_cases hu : type = .untypedInt
    case pos =>
      subst hu
      simpa [negatedMinimum, Meaning.ofInt] using evalUnaryMinus_untyped i (h.contains rfl)
    case neg =>
      refine ⟨fun hn => absurd (congrArg Constant.type hn) hu, fun _ => ?_⟩
      have hu : type.kind ≠ .untypedInt := kind_eq_untypedInt.not.mpr hu
      cases hk : type.kind.integerTypeInfo
      case none =>
        simp [evalUnaryMinus, negationKind, Meaning.minus, Meaning.ofInt, TypeKind.isUnsignedInteger,
          TypeKind.isSignedInteger, hk, hu, bind, Folded.bind, Folded.Refines]
      case some info =>
        cases hs : info.isSigned
        case true => exact evalUnaryMinus_signed hk hs
        case false =>
          simp [evalUnaryMinus, Meaning.minus, Meaning.ofInt, TypeKind.isUnsignedInteger,
            TypeKind.isSignedInteger, hk, hs, hu, Folded.Refines]
  all_goals
    refine ⟨by simp [ConstValue.meaning, Constant.map, negatedMinimum, Meaning.ofInt], fun _ => ?_⟩
    have he := ConstValue.encode_meaning h
    simp only [Meaning.minus, ConstValue.meaning, Constant.map] at he ⊢
    rw [he]
    apply Folded.Refines.self
  case float.hw f =>
    intro v hv
    simp only [evalUnaryMinus] at hv
    split at hv <;> try contradiction
    split at hv <;> try contradiction
    exact floatConstantResult_wellTyped hv
  case float.hn f =>
    simp only [evalUnaryMinus]
    split <;> try simp
    split <;> try simp
    exact floatConstantResult_ne_assertion
  all_goals simp [evalUnaryMinus]

theorem evalUnaryTilde_refines (h : v.WellTyped) : (evalUnaryTilde v).Refines (Meaning.tilde v.meaning) := by
  obtain ⟨type, payload⟩ := v
  cases payload <;> try rfl
  case int i =>
    have hi := h.canonical i rfl
    have ⟨m, hm⟩ := complementKind_eq type hi
    simp only [evalUnaryTilde, Meaning.tilde, ConstValue.meaning, Constant.map, hm]
    cases ho : Meaning.ownKind type i.toInt
    case none => rfl
    case some kind =>
      have ⟨info, hk, hc, ht, he⟩ := ownKind_spec ho h.contains
      have hf : i.fitsType kind := by rwa [IntegerValue.fitsType_eq_contains hi]
      have ⟨r, hr, hv⟩ := IntegerValue.bitwiseNot_exact hk hf
      simp only [Folded.ofOption_some, Folded.ok_bind, hr, hk, Option.bind_eq_bind, Option.bind_some]
      exact integerConstantResult_refines ht hk he hv

theorem evalUnaryBang_refines : (evalUnaryBang v).Refines (Meaning.bang v.meaning) := by
  obtain ⟨type, payload⟩ := v
  cases payload <;> try rfl
  case bool b => exact ⟨.bool, rfl⟩

end Unary
section Types

variable {a b type : Ty} {kind : TypeKind}

theorem commonNumericType_isInteger (hc : a.commonNumericType b = some type) (ha : a.isInteger)
    (hb : b.isInteger) : type.isInteger := by
  unfold Ty.commonNumericType at hc
  repeat' split at hc
  all_goals simp_all

theorem isNumeric_of_commonNumericType (hc : a.commonNumericType b = some type) :
    a.isNumeric ∧ b.isNumeric := by
  unfold Ty.commonNumericType at hc
  split at hc
  case isTrue  => contradiction
  case isFalse h => simpa using h

theorem isInteger_of_commonIntegerType (hc : a.commonIntegerType b = some type) :
    a.isInteger ∧ b.isInteger ∧ type.isInteger := by
  unfold Ty.commonIntegerType at hc
  repeat' split at hc
  all_goals simp_all

theorem info_of_isConcreteInteger (h : kind.isConcreteInteger) : ∃ info, kind.integerTypeInfo = some info :=
  Option.isSome_iff_exists.mp h

theorem not_isConcreteInteger (h : kind.integerTypeInfo = none) : kind.isConcreteInteger = false := by
  simp [TypeKind.isConcreteInteger, h]

end Types

section Binary

variable {type ta tb : Ty} {kind : TypeKind} {info : IntegerTypeInfo} {a b : ConstValue}
  {x y : IntegerValue}

-- A numeric constant with an integer payload has an integer type.
theorem ConstValue.WellTyped.isInteger (h : ConstValue.WellTyped ⟨type, .int x⟩)
    (hn : type.isNumeric) : type.isInteger := by
  simp only [Ty.isNumeric, TypeKind.isNumeric, Bool.or_eq_true] at hn
  rcases hn with hi | hf
  case inl => exact hi
  case inr =>
    have ⟨_, hp⟩ := h.float hf
    contradiction

theorem numericOperationKind_kind (h : a.numericOperationKind b type = some kind) (ht : type.isInteger) :
    type.kind = kind ∨ type.kind = .untypedInt := by
  unfold ConstValue.numericOperationKind at h
  split at h
  case isTrue  => exact .inl (by simpa using h)
  case isFalse hc =>
    simp only [Bool.or_eq_true, not_or, Bool.not_eq_true] at hc
    simp only [Ty.isInteger, TypeKind.isInteger, hc.left, Bool.false_or, decide_eq_true_eq] at ht
    exact .inr ht

theorem evalBitwise_refines (ha : a.WellTyped) (hb : b.WellTyped) (op : BitwiseOperation) :
    (evalBitwise op a b).Refines (Meaning.bitwise op a.meaning b.meaning) := by
  have hk := ConstValue.operationKind_meaning ha hb
  obtain ⟨ta, pa⟩ := a
  obtain ⟨tb, pb⟩ := b
  cases pa <;> cases pb <;> try rfl
  case int.int x y =>
    have hx k := (IntegerValue.fitsType_eq_contains (ha.canonical x rfl) : _ = TypeKind.contains k _)
    have hy k := (IntegerValue.fitsType_eq_contains (hb.canonical y rfl) : _ = TypeKind.contains k _)
    simp only [ConstValue.meaning, Constant.map] at hk
    simp only [evalBitwise, Meaning.bitwise, ConstValue.meaning, Constant.map, hk]
    cases ht : ta.commonIntegerType tb
    case none => split <;> simp [Folded.Refines]
    case some type =>
      have ⟨hta, htb, hi⟩ := isInteger_of_commonIntegerType ht
      cases ho : ConstValue.numericOperationKind ⟨ta, .int x⟩ ⟨tb, .int y⟩ type
      case none => simp [hta, htb, ho, Folded.Refines]
      case some kind =>
        cases hc : kind.integerTypeInfo
        case none => simp [hta, htb, ho, hc, not_isConcreteInteger, Folded.Refines]
        case some info =>
          have hcc := TypeKind.isConcreteInteger_of_info hc
          cases hxk : x.fitsType kind <;> cases hyk : y.fitsType kind
          case true.true =>
            have ⟨v, hv, hr⟩ := IntegerValue.bitwise_exact hc hxk hyk op
            have := integerConstantResult_refines hi hc (numericOperationKind_kind ho hi) hr
            simpa [hta, htb, ho, hc, hcc, ← hx, ← hy, hxk, hyk, hv, guard, IntegerValue.bits] using this
          all_goals simp [hta, htb, ho, hc, hcc, ← hx, ← hy, hxk, hyk, Folded.Refines, guard]

theorem classifyShiftCount_eq (hc : y.Canonical) (width : Nat) :
    (0 ≤ y.toInt ∧ y.toInt < width → y.classifyShiftCount width = .valid y.toInt.toNat) ∧
    (¬(0 ≤ y.toInt ∧ y.toInt < width) →
      y.classifyShiftCount width = .negative ∨ y.classifyShiftCount width = .outOfRange) := by
  simp only [IntegerValue.classifyShiftCount, IntegerValue.toInt]
  cases hn : y.isNegative
  case false =>
    by_cases hg : y.magnitude.toNat ≥ width <;> simp [hg]
  case true =>
    have hz : y.magnitude.toNat ≠ 0 := by
      intro h
      have := hc (BitVec.eq_of_toNat_eq h)
      simp [this] at hn
    simp
    omega

theorem evalShift_refines (ha : a.WellTyped) (hb : b.WellTyped) (op : ShiftOperation) :
    (evalShift op a b).Refines (Meaning.shift op a.meaning b.meaning) := by
  obtain ⟨ta, pa⟩ := a
  obtain ⟨tb, pb⟩ := b
  cases pa <;> cases pb <;> try rfl
  case int.int x y =>
    have hx := ha.canonical x rfl
    have ⟨m, hm⟩ := shiftKind_eq ta hx
    simp only [evalShift, Meaning.shift, ConstValue.meaning, Constant.map, hm]
    by_cases htb : tb.isInteger
    case neg =>
      simp only [htb, guard]
      split <;> simp [Folded.Refines]
    case pos =>
      cases ho : Meaning.ownKind ta x.toInt
      case none =>
        simp only [htb, guard]
        split <;> simp [Folded.Refines]
      case some kind =>
        have ⟨info, hk, hc, hta, he⟩ := ownKind_spec ho ha.contains
        have hf : x.fitsType kind := by rwa [IntegerValue.fitsType_eq_contains hx]
        have hw := TypeKind.integerBitWidth_of_info hk
        have hcount := classifyShiftCount_eq (hb.canonical y rfl) info.bitWidth
        by_cases hr : 0 ≤ y.toInt ∧ y.toInt < info.bitWidth
        case pos =>
          have hlt : y.toInt.toNat < info.bitWidth := by omega
          have ⟨v, hv, hr'⟩ := IntegerValue.shift_exact hk hf hlt op
          have := integerConstantResult_refines hta hk he hr'
          simpa [hta, htb, hk, hf, hw, hcount.left hr, hr, hv, guard, Folded.require, IntegerValue.bits] using this
        case neg =>
          have hg : ¬(0 ≤ y.toInt ∧ y.toInt < info.bitWidth) := hr
          rcases hcount.right hr with hs | hs <;>
            simp [hta, htb, hk, hf, hw, hs, hg, guard, Folded.require, Folded.Refines]
  all_goals
    simp only [evalShift]
    split <;> rfl

theorem compare_eq (hx : x.Canonical) (hy : y.Canonical) : x.compare y = compare x.toInt y.toInt := by
  have hz {v : IntegerValue} (hc : v.Canonical) (hn : v.isNegative = true) : v.magnitude.toNat ≠ 0 := by
    intro h
    have := hc (BitVec.eq_of_toNat_eq h)
    simp [this] at hn
  have he : x.magnitude = y.magnitude ↔ x.magnitude.toNat = y.magnitude.toNat := BitVec.toNat_inj.symm
  simp only [IntegerValue.compare, IntegerValue.toInt, gt_iff_lt, BitVec.lt_def, beq_iff_eq, he]
  cases hnx : x.isNegative <;> cases hny : y.isNegative <;> simp [compareOfLessAndEq, compare]
  case false.false => grind
  case false.true =>
    have := hz hy hny
    grind
  case true.false =>
    have := hz hx hnx
    grind
  case true.true => grind

theorem evalConstComparison_ok (h : evalConstComparison op a b = .ok v) : v.WellTyped := by
  unfold evalConstComparison at h
  repeat' split at h
  all_goals first
    | contradiction
    | obtain ⟨⟩ := h
      exact .bool

theorem evalConstComparison_ne_assertion : evalConstComparison op a b ≠ .assertion := by
  unfold evalConstComparison
  repeat' split
  all_goals nofun

-- The operations whose meaning is taken from the evaluator.
theorem encode_meaning_refines {f : ConstValue → ConstValue → Folded ConstValue} (ha : a.WellTyped)
    (hb : b.WellTyped) (hw : ∀ v, f a b = .ok v → v.WellTyped) (hn : f a b ≠ .assertion) :
    (f a b).Refines (f a.meaning.encode b.meaning.encode).meaning := by
  rw [ConstValue.encode_meaning ha, ConstValue.encode_meaning hb]
  exact .self hw hn

theorem evalConstComparison_refines (ha : a.WellTyped) (hb : b.WellTyped) (op : ComparisonOperation) :
    (evalConstComparison op a b).Refines (Meaning.compare op a.meaning b.meaning) := by
  have hf := encode_meaning_refines ha hb (f := evalConstComparison op)
    (fun _ => evalConstComparison_ok) evalConstComparison_ne_assertion
  have hk := ConstValue.operationKind_meaning ha hb
  obtain ⟨ta, pa⟩ := a
  obtain ⟨tb, pb⟩ := b
  cases pa <;> cases pb <;> try exact hf
  case int.int x y =>
    have hx k := (IntegerValue.fitsType_eq_contains (ha.canonical x rfl) : _ = TypeKind.contains k _)
    have hy k := (IntegerValue.fitsType_eq_contains (hb.canonical y rfl) : _ = TypeKind.contains k _)
    have hc := compare_eq (ha.canonical x rfl) (hb.canonical y rfl)
    simp only [ConstValue.meaning, Constant.map] at hk hf ⊢
    unfold Meaning.compare
    simp only [hk]
    by_cases hn : ta.isNumeric ∧ tb.isNumeric
    case neg =>
      have hn' : (ta.isNumeric && tb.isNumeric) = false := by simpa using hn
      simp only [evalConstComparison, hn', Bool.false_eq_true, ite_false, hc, ← Ty.typeEqual_iff]
      split
      case isTrue h  => exact ⟨.bool, by simp_all [guard, ConstValue.meaning, Constant.map, boolConstant]⟩
      case isFalse h => simp_all [Folded.Refines, guard]
    case pos =>
      cases ht : ta.commonNumericType tb
      case none => simp [evalConstComparison, hn, ht, Folded.Refines]
      case some type =>
        cases ho : ConstValue.numericOperationKind ⟨ta, .int x⟩ ⟨tb, .int y⟩ type
        case none => simp [evalConstComparison, hn, ht, ho, Folded.Refines]
        case some kind =>
          by_cases hcc : kind.isConcreteInteger
          case neg => simpa [hn, ho, hcc] using hf
          case pos =>
            cases hxk : x.fitsType kind <;> cases hyk : y.fitsType kind
            case true.true =>
              simp [evalConstComparison, hn, ht, ho, hcc, ← hx, ← hy, hxk, hyk, hc, guard]
              exact ⟨.bool, rfl⟩
            all_goals
              simp [evalConstComparison, hn, ht, ho, hcc, ← hx, ← hy, hxk, hyk, guard, Folded.Refines]

theorem evalFloatBinaryOperation_ok (h : evalFloatBinaryOperation op type kind a b = .ok v) :
    v.WellTyped := by
  unfold evalFloatBinaryOperation at h
  repeat' split at h
  all_goals first
    | contradiction
    | exact floatConstantResult_wellTyped h

theorem evalFloatBinaryOperation_ne_assertion : evalFloatBinaryOperation op type kind a b ≠ .assertion := by
  unfold evalFloatBinaryOperation
  repeat' split
  all_goals first
    | exact floatConstantResult_ne_assertion
    | simp

-- Two operands that fit a concrete kind never violate the assertions of the checked operations.
theorem evalIntegerArithmetic_refines (ht : type.isInteger) (hk : kind.integerTypeInfo = some info)
    (he : type.kind = kind ∨ type.kind = .untypedInt) (hx : x.fitsType kind) (hy : y.fitsType kind)
    (op : ArithmeticOperation) :
    (evalIntegerArithmetic op x y type kind).Refines
      ((Meaning.exact info op x.toInt y.toInt).bind fun z => some (.ofInt type z)) := by
  cases op
  case checked op =>
    have ⟨hv, ho⟩ := IntegerValue.evaluateCheckedBinary_exact hk hx hy op
    by_cases hr : InRange info.isSigned info.bitWidth (op.exact x.toInt y.toInt)
    case pos =>
      have ⟨v, hv, hr'⟩ := hv hr
      simpa [evalIntegerArithmetic, Meaning.exact, hv, hr] using integerConstantResult_refines ht hk he hr'
    case neg => simp [evalIntegerArithmetic, Meaning.exact, ho hr, hr, Folded.Refines]
  case division op =>
    have hv := IntegerValue.classifyDivision_valid_iff (a := x) (b := y) hk
    by_cases hd : IntegerValue.DivisionFails info x.toInt y.toInt
    case neg =>
      have hr := IntegerValue.divide_represents hk hx hy hd op
      simpa [evalIntegerArithmetic, Meaning.exact, hv.mpr hd, hd] using
        integerConstantResult_refines ht hk he hr
    case pos =>
      simp only [evalIntegerArithmetic, Meaning.exact, hd, ite_true]
      cases hc : x.classifyDivision y kind
      case valid => exact absurd hd (hv.mp hc)
      all_goals rfl

theorem evalArithmetic_cases (op : ArithmeticOperation) (a b : ConstValue) :
    (∃ m, evalArithmetic op a b = .error m) ∨
    (∃ op' type kind, evalArithmetic op a b = evalFloatBinaryOperation op' type kind a b) ∨
    (∃ x y type kind, a.payload = .int x ∧ b.payload = .int y ∧
      a.type.commonNumericType b.type = some type ∧ a.numericOperationKind b type = some kind ∧
      kind.isConcreteInteger) := by
  generalize hr : evalArithmetic op a b = r
  unfold evalArithmetic at hr
  repeat' split at hr
  all_goals first
    | exact .inl ⟨_, hr.symm⟩
    | exact .inr (.inl ⟨_, _, _, hr.symm⟩)
    | exact .inr (.inr ⟨_, _, _, _, by assumption, by assumption, by assumption, by assumption, by assumption⟩)

-- Outside of integer arithmetic the evaluator has no assertions.
theorem evalArithmetic_inexact (op : ArithmeticOperation) (h : ∀ x y type kind, a.payload = .int x → b.payload = .int y →
      a.type.commonNumericType b.type = some type → a.numericOperationKind b type = some kind →
      kind.isConcreteInteger = false) :
    (∀ v, evalArithmetic op a b = .ok v → v.WellTyped) ∧ evalArithmetic op a b ≠ .assertion := by
  rcases evalArithmetic_cases op a b with ⟨m, hm⟩ | ⟨op', type, kind, he⟩ | ⟨x, y, type, kind, hx, hy, ht, hk, hc⟩
  case inl => simp [hm]
  case inr.inl =>
    rw [he]
    exact ⟨fun _ => evalFloatBinaryOperation_ok, evalFloatBinaryOperation_ne_assertion⟩
  case inr.inr => simp [h x y type kind hx hy ht hk] at hc

theorem evalArithmetic_refines (ha : a.WellTyped) (hb : b.WellTyped) (op : ArithmeticOperation) :
    (evalArithmetic op a b).Refines (Meaning.arithmetic op a.meaning b.meaning) := by
  have hk := ConstValue.operationKind_meaning ha hb
  have hf h := encode_meaning_refines ha hb (evalArithmetic_inexact op h).left (evalArithmetic_inexact op h).right
  obtain ⟨ta, pa⟩ := a
  obtain ⟨tb, pb⟩ := b
  cases pa <;> cases pb
  case int.int x y =>
    have hx k := (IntegerValue.fitsType_eq_contains (ha.canonical x rfl) : _ = TypeKind.contains k _)
    have hy k := (IntegerValue.fitsType_eq_contains (hb.canonical y rfl) : _ = TypeKind.contains k _)
    simp only [ConstValue.meaning, Constant.map] at hk hf ⊢
    unfold Meaning.arithmetic
    simp only [hk]
    cases ht : ta.commonNumericType tb
    case none =>
      simp only [evalArithmetic, ht]
      repeat' split
      all_goals rfl
    case some type =>
      have ⟨hna, hnb⟩ := isNumeric_of_commonNumericType ht
      have hia := ha.isInteger hna
      have hib := hb.isInteger hnb
      have hi := commonNumericType_isInteger ht hia hib
      cases ho : ConstValue.numericOperationKind ⟨ta, .int x⟩ ⟨tb, .int y⟩ type
      case none => simp [evalArithmetic, hna, hnb, hia, hib, ht, ho, Folded.Refines]
      case some kind =>
        cases hc : kind.integerTypeInfo
        case none =>
          simp only [Option.bind_eq_bind, Option.bind_some, ho, hc]
          apply hf
          rintro _ _ _ _ ⟨⟩ ⟨⟩ ht' ho'
          obtain rfl := Option.some.inj (ht.symm.trans ht')
          obtain rfl := Option.some.inj (ho.symm.trans ho')
          exact not_isConcreteInteger hc
        case some info =>
          have hcc := TypeKind.isConcreteInteger_of_info hc
          cases hxk : x.fitsType kind <;> cases hyk : y.fitsType kind
          case true.true =>
            have := evalIntegerArithmetic_refines hi hc (numericOperationKind_kind ho hi) hxk hyk op
            simpa [evalArithmetic, hna, hnb, hia, hib, ht, ho, hc, hcc, ← hx, ← hy, hxk, hyk, guard] using this
          all_goals
            simp [evalArithmetic, hna, hnb, hia, hib, ht, ho, hc, hcc, ← hx, ← hy, hxk, hyk, guard,
              Folded.Refines]
  all_goals exact hf (by simp)

theorem evalWrappingBinaryCall_refines (ha : a.WellTyped) (hb : b.WellTyped) (op : WrappingBuiltin) :
    (evalWrappingBinaryCall op a b).Refines (Meaning.wrappingBinary op a.meaning b.meaning) := by
  unfold evalWrappingBinaryCall classifyWrappingBinaryTypes
  by_cases hc : a.type.kind.isConcreteInteger ∧ b.type.kind.isConcreteInteger
  case neg =>
    have hc' : (!a.type.kind.isConcreteInteger || !b.type.kind.isConcreteInteger) = true := by
      rw [← Bool.not_and, Bool.not_eq_true']
      exact Bool.eq_false_iff.mpr (by simpa using hc)
    simp only [hc', ite_true, Folded.Refines]
    obtain ⟨ta, pa⟩ := a
    obtain ⟨tb, pb⟩ := b
    cases pa <;> cases pb <;> try rfl
    case int.int =>
      simp only [Meaning.wrappingBinary, ConstValue.meaning, Constant.map]
      by_cases he : ta = tb
      case neg => simp [guard, he]
      case pos =>
        subst he
        cases hi : ta.kind.integerTypeInfo
        case none   => simp
        case some _ => simp [TypeKind.isConcreteInteger_of_info hi] at hc
  case pos =>
    have ⟨info, hi⟩ := info_of_isConcreteInteger hc.left
    have hia : a.type.isInteger := by simp [Ty.isInteger, TypeKind.isInteger, hc.left]
    have hib : b.type.isInteger := by simp [Ty.isInteger, TypeKind.isInteger, hc.right]
    have ⟨x, hx, hfx⟩ := ha.integer hia
    have ⟨y, hy, hfy⟩ := hb.integer hib
    by_cases he : a.type = b.type
    case neg =>
      have he' : a.type.typeEqual b.type = false := Bool.eq_false_iff.mpr (mt Ty.eq_of_typeEqual he)
      simp [hc, he', Folded.Refines, Meaning.wrappingBinary, ConstValue.meaning, Constant.map, hx, hy, he,
        guard]
    case pos =>
      rw [← he] at hfy
      have ⟨v, hv, hr⟩ := IntegerValue.evaluateWrappingBinary_exact hi hfx hfy op
      have := integerConstantResult_refines hia hi (.inl rfl) hr
      simpa [hc, ← he, Ty.typeEqual_refl, hx, hy, hv, Meaning.wrappingBinary, ConstValue.meaning,
        Constant.map, hi, guard] using this

theorem evalWrappingNegCall_refines (ha : a.WellTyped) :
    (evalWrappingNegCall a).Refines (Meaning.wrappingNeg a.meaning) := by
  unfold evalWrappingNegCall classifyWrappingNegType
  cases hc : a.type.kind.integerTypeInfo
  case none =>
    simp only [not_isConcreteInteger hc, Bool.not_false, ite_true, Folded.Refines]
    obtain ⟨ta, pa⟩ := a
    cases pa <;> simp [Meaning.wrappingNeg, ConstValue.meaning, Constant.map]
    simp [hc]
  case some info =>
    have hcc := TypeKind.isConcreteInteger_of_info hc
    have hia : a.type.isInteger := by simp [Ty.isInteger, TypeKind.isInteger, hcc]
    have ⟨x, hx, hfx⟩ := ha.integer hia
    have ⟨v, hv, hr⟩ := IntegerValue.evaluateWrappingNegation_exact hc hfx
    have := integerConstantResult_refines hia hc (.inl rfl) hr
    simpa [hcc, hx, hv, Meaning.wrappingNeg, ConstValue.meaning, Constant.map, hc] using this

theorem evalTruncatingCast_refines (ha : a.WellTyped) :
    (evalTruncatingCast type a).Refines (Meaning.truncatingCast type a.meaning) := by
  obtain ⟨ta, pa⟩ := a
  unfold evalTruncatingCast
  cases hc : type.kind.integerTypeInfo
  case none =>
    simp only [not_isConcreteInteger hc, Bool.not_false, ite_true, Folded.Refines]
    cases pa <;> simp [Meaning.truncatingCast, ConstValue.meaning, Constant.map, hc]
  case some info =>
    have hcc := TypeKind.isConcreteInteger_of_info hc
    cases pa <;> simp only [hcc, Bool.not_true, Bool.false_eq_true, ite_false] <;> try rfl
    case int i =>
      have ⟨v, hv, hr⟩ := IntegerValue.truncate_exact (i := i) hc
      have hf : type.kind.isFloat = false := isFloat_of_isInteger (by simp [TypeKind.isInteger, hcc])
      simp only [hv, Folded.ofOption_some, Folded.ok_bind, Meaning.truncatingCast, ConstValue.meaning,
        Constant.map, hc, Option.bind_eq_bind, Option.bind_some]
      exact ⟨.int (fun _ => hr.fits) hf hr.canonical, by
        simp [ConstValue.meaning, Constant.map, Meaning.ofInt, hr.toInt_eq]⟩

end Binary

section Cast

variable {enums : EnumId → EnumInfo} {target : Ty} {v : ConstValue}

theorem findMemberByValue_eq (info : EnumInfo) {i : IntegerValue} (hc : i.Canonical) :
    info.findMemberByValue i = info.members.any (·.2.toInt = i.toInt) := by
  rw [Bool.eq_iff_iff]
  simp only [EnumInfo.findMemberByValue, List.any_eq_true, IntegerValue.equal, Bool.and_eq_true,
    beq_iff_eq, decide_eq_true_eq]
  constructor <;> rintro ⟨m, hm, he⟩ <;> refine ⟨m, hm, ?_⟩
  case mp => simp [IntegerValue.toInt, he]
  case mpr =>
    rw [IntegerValue.Canonical.toInt_injective (info.canonical m hm) hc he]
    exact ⟨rfl, rfl⟩

theorem classifyCheckedFloatToIntegerCast_valid
    (h : classifyCheckedFloatToIntegerCast f kind = .valid i) : i.fitsType kind ∧ i.Canonical := by
  unfold classifyCheckedFloatToIntegerCast at h
  simp only [IntegerValue.classifyCheckedCast] at h
  repeat' split at h
  all_goals try contradiction
  all_goals
    obtain ⟨⟩ := h
    refine ⟨?_, IntegerValue.make_canonical⟩
    by_contra hf
    simp_all

theorem castToEnum_refines {i : IntegerValue} (hi : i.Canonical) (info : EnumInfo) (e : EnumId) :
    (castToEnum info (.enum e) (.int i)).Refines
      (if info.backing.contains i.toInt && info.members.any (·.2.toInt = i.toInt) then
        some (.ofInt (.enum e) i.toInt) else none) := by
  simp only [castToEnum, IntegerValue.fitsType_eq_contains hi, findMemberByValue_eq info hi]
  cases info.backing.contains i.toInt <;> try rfl
  cases info.members.any (·.2.toInt = i.toInt) <;> try rfl
  exact ⟨⟨nofun, nofun, by rintro _ ⟨⟩; exact hi⟩, rfl⟩

theorem castToInteger_refines {i : IntegerValue} (hi : i.Canonical)
    (hc : target.kind.isConcreteInteger) :
    (castToInteger target (.int i)).Refines
      (if target.kind.contains i.toInt then some (.ofInt target i.toInt) else none) := by
  simp only [castToInteger, hc, Bool.not_true, Bool.false_eq_true, ite_false,
    IntegerValue.classifyCheckedCast, IntegerValue.fitsType_eq_contains hi]
  by_cases h : target.kind.contains i.toInt
  case neg => simp [h, Folded.Refines]
  case pos =>
    have hf : target.kind.isFloat = false := isFloat_of_isInteger (by simp [TypeKind.isInteger, hc])
    simp only [h, ite_true]
    refine ⟨.int (fun _ => ?_) hf hi, rfl⟩
    rwa [IntegerValue.fitsType_eq_contains hi]

theorem castToInteger_float (hc : target.kind.isConcreteInteger) :
    (∀ r, castToInteger target (.float f) = .ok r → r.WellTyped) ∧
    castToInteger target (.float f) ≠ .assertion := by
  simp only [castToInteger, hc, Bool.not_true, Bool.false_eq_true, ite_false]
  cases h : classifyCheckedFloatToIntegerCast f target.kind <;> simp
  case valid i =>
    have ⟨hf, hi⟩ := classifyCheckedFloatToIntegerCast_valid h
    exact .int (fun _ => hf) (isFloat_of_isInteger (by simp [TypeKind.isInteger, hc])) hi

theorem isConcreteInteger_of_isInteger (hi : target.isInteger) (ht : target.isUntypedNumeric = false) :
    target.kind.isConcreteInteger := by
  simp only [Ty.isUntypedNumeric, TypeKind.isUntypedNumeric, Bool.or_eq_false_iff,
    decide_eq_false_iff_not] at ht
  simpa [Ty.isInteger, TypeKind.isInteger, ht.left] using hi

theorem castToPointer_safe (hp : target.isRawPointer) (payload : Payload IntegerValue) :
    (∀ r, castToPointer target payload = .ok r → r.WellTyped) ∧ castToPointer target payload ≠ .assertion := by
  cases payload <;> simp [castToPointer]
  cases target <;> simp [Ty.isRawPointer] at hp <;> exact ⟨nofun, nofun, nofun⟩

theorem castToInteger_safe (hv : v.WellTyped) (hc : target.kind.isConcreteInteger) :
    (∀ r, castToInteger target v.payload = .ok r → r.WellTyped) ∧
    castToInteger target v.payload ≠ .assertion := by
  obtain ⟨type, payload⟩ := v
  cases payload
  case float f => exact castToInteger_float hc
  case int i   => exact (castToInteger_refines (hv.canonical i rfl) hc).safe
  all_goals simp [castToInteger, hc]

theorem castToFloat_safe (hf : target.kind.isFloat) :
    (∀ r, castToFloat target v = .ok r → r.WellTyped) ∧ castToFloat target v ≠ .assertion := by
  unfold castToFloat
  split <;> simp
  refine ⟨fun hi => ?_, fun _ => ⟨_, rfl⟩, nofun⟩
  simp [isFloat_of_isInteger hi] at hf

-- Source types rule out the assertion that the target of a cast is a concrete integer type.
theorem evalCheckedCast_safe (hv : v.WellTyped) (ht : target.isUntypedNumeric = false) :
    (∀ r, evalCheckedCast enums target v = .ok r → r.WellTyped) ∧
    evalCheckedCast enums target v ≠ .assertion := by
  have hc (hi : target.isInteger) := isConcreteInteger_of_isInteger hi ht
  unfold evalCheckedCast
  split
  case isTrue => simp
  case isFalse =>
    split
    case h_1 | h_2 => exact castToPointer_safe rfl _
    case h_3 =>
      obtain ⟨type, payload⟩ := v
      cases payload
      case int => exact (castToEnum_refines (hv.canonical _ rfl) _ _).safe
      all_goals simp [castToEnum]
    case h_4 =>
      split
      case isTrue hi => exact castToInteger_safe hv (hc hi)
      case isFalse =>
        split
        case isTrue hf => exact castToFloat_safe hf
        case isFalse =>
          split <;> try simp
          case isTrue hb =>
            cases v.payload <;> simp [castToBool]
            refine ⟨fun hi => ?_, fun hf => ?_, nofun⟩
            case refine_1 => simp [Ty.isInteger, hb, TypeKind.isInteger, TypeKind.isConcreteInteger, TypeKind.integerTypeInfo] at hi
            case refine_2 => simp [hb, TypeKind.isFloat, TypeKind.isConcreteFloat] at hf

theorem evalCheckedCast_integer (hi : target.isInteger) :
    evalCheckedCast enums target v =
      if target.isAllowedExplicitCast v.type then castToInteger target v.payload
      else .error "invalid explicit cast" := by
  cases ha : target.isAllowedExplicitCast v.type
  case false => simp [evalCheckedCast, ha]
  case true =>
    unfold evalCheckedCast
    split <;> simp_all
    split <;> try contradiction
    rfl

theorem evalCheckedCast_refines (hv : v.WellTyped) (ht : target.isUntypedNumeric = false) :
    (evalCheckedCast enums target v).Refines (Meaning.checkedCast enums target v.meaning) := by
  have hf : (evalCheckedCast enums target v).Refines (evalCheckedCast enums target v.meaning.encode).meaning := by
    rw [ConstValue.encode_meaning hv]
    exact .self (evalCheckedCast_safe hv ht).left (evalCheckedCast_safe hv ht).right
  obtain ⟨type, payload⟩ := v
  cases payload <;> try exact hf
  case int i =>
    have hi := hv.canonical i rfl
    simp only [ConstValue.meaning, Constant.map] at hf ⊢
    cases target
    case enum e =>
      have hr := castToEnum_refines hi (enums e) e
      cases ha : Ty.isAllowedExplicitCast (.enum e) type
      case false => simp [evalCheckedCast, Meaning.checkedCast, ha, Folded.Refines]
      case true =>
        simp only [evalCheckedCast, Meaning.checkedCast, ha, Bool.not_true, Bool.true_and,
          Bool.false_eq_true, ite_false]
        exact hr
    all_goals
      simp only [Meaning.checkedCast]
      split
      case isFalse => exact hf
      case isTrue hn =>
        have hr := castToInteger_refines hi (isConcreteInteger_of_isInteger hn ht)
        rw [evalCheckedCast_integer hn]
        split
        case isTrue ha  => simpa only [ha, Bool.true_and] using hr
        case isFalse ha => simp [ha, Folded.Refines]

end Cast

theorem evalBinary_refines {a b : ConstValue} (ha : a.WellTyped) (hb : b.WellTyped) (op : BinaryOperation) :
    (evalBinary op a b).Refines (Meaning.binary op a.meaning b.meaning) := by
  cases op
  case comparison op => exact evalConstComparison_refines ha hb op
  case bitwise op    => exact evalBitwise_refines ha hb op
  case shift op      => exact evalShift_refines ha hb op
  case arithmetic op => exact evalArithmetic_refines ha hb op

end Coglet
