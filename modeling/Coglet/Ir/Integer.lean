import Coglet.Const.Arithmetic
import Coglet.Const.Refinement

open TwosComplement

-- The integer operations of the intermediate representation.

namespace Coglet.Ir

-- A concrete integer type together with its width and signedness.
structure IntegerType where
  type      : Coglet.Ty
  info      : IntegerTypeInfo
  isInteger : type.kind.integerTypeInfo = some info

namespace IntegerType

def width (t : IntegerType) : Nat :=
  t.info.bitWidth

def isSigned (t : IntegerType) : Bool :=
  t.info.isSigned

def Contains (t : IntegerType) (z : Int) : Prop :=
  InRange t.isSigned t.width z

instance (t : IntegerType) (z : Int) : Decidable (t.Contains z) :=
  inferInstanceAs (Decidable (InRange _ _ _))

def constant (t : IntegerType) (value : IntegerValue) : ConstValue where
  type    := t.type
  payload := .int value

theorem width_cases (t : IntegerType) : t.width = 8 ∨ t.width = 16 ∨ t.width = 32 ∨ t.width = 64 :=
  TypeKind.integerTypeInfo_width t.isInteger

theorem width_pos (t : IntegerType) : 0 < t.width :=
  TypeKind.bitWidth_pos t.isInteger

theorem width_le (t : IntegerType) : t.width ≤ 64 :=
  TypeKind.bitWidth_le t.isInteger

end IntegerType

inductive IntegerInstruction
  | constant (type : IntegerType) (value : IntegerValue) (fits : value.fitsType type.type.kind)
    (canonical : value.Canonical)
  | checked (op : CheckedOperation) (type : IntegerType)
  | checkedDivision (op : DivisionOperation) (type : IntegerType)
  | checkedNeg (type : IntegerType)
  | wrap (op : WrappingBuiltin) (type : IntegerType)
  | wrapNeg (type : IntegerType)
  | bitwise (op : BitwiseOperation) (type : IntegerType)
  | bitNot (type : IntegerType)
  | shl (type count : IntegerType)
  | shrSigned (type count : IntegerType)
  | shrUnsigned (type count : IntegerType)
  | castChecked (source target : IntegerType)
  | truncate (source target : IntegerType)

-- The bits of a constant.
def integerValueBits (value : IntegerValue) (width : Nat) : BitVec 64 :=
  let mask := if width = 64 then BitVec.allOnes 64 else (1#64 <<< width) - 1#64
  if value.isNegative then (~~~value.magnitude + 1#64) &&& mask else value.magnitude &&& mask

theorem integerValueBits_eq {t : IntegerType} {value : IntegerValue} (hf : value.fitsType t.type.kind) :
    integerValueBits value t.width = (BitVec.ofInt t.width value.toInt).setWidth 64 := by
  have hp : value.toBitPattern t.type.kind = some (integerValueBits value t.width) := by
    simp only [IntegerValue.toBitPattern, TypeKind.integerBitWidth_of_info t.isInteger, hf, guard,
      Option.bind_eq_bind, Option.bind_some, ite_true, Option.pure_def]
    split
    case isTrue h  => simp only [integerValueBits, h]; rfl
    case isFalse h => simp only [integerValueBits, h]; rfl
  rw [IntegerValue.toBitPattern_eq t.isInteger hf] at hp
  exact (Option.some.inj hp).symm

namespace IntegerInstruction

-- The kind of a right shift has to match the signedness of the shifted operand.
def verify : IntegerInstruction → Bool
  | shrSigned type _   => type.isSigned
  | shrUnsigned type _ => !type.isSigned
  | _                  => true

-- The type of the left or only operand.
def lhsType : IntegerInstruction → IntegerType
  | constant t .. | checked _ t | checkedDivision _ t | checkedNeg t | wrap _ t | wrapNeg t | bitwise _ t | bitNot t |
    shl t _ | shrSigned t _ | shrUnsigned t _ | castChecked t _ | truncate t _ => t

-- Constants ignore both operands, and unary instructions ignore the right one.
def rhsType : IntegerInstruction → IntegerType
  | constant t .. | checked _ t | checkedDivision _ t | checkedNeg t | wrap _ t | wrapNeg t | bitwise _ t | bitNot t |
    shl _ t | shrSigned _ t | shrUnsigned _ t | castChecked t _ | truncate t _ => t

def resultType : IntegerInstruction → IntegerType
  | constant t .. | checked _ t | checkedDivision _ t | checkedNeg t | wrap _ t | wrapNeg t | bitwise _ t | bitNot t |
    shl t _ | shrSigned t _ | shrUnsigned t _ | castChecked _ t | truncate _ t => t

-- The same operation in a constant expression.
def evaluate (enums : EnumId → EnumInfo) (x y : IntegerValue) : IntegerInstruction → Folded ConstValue
  | constant t value ..  => .ok (t.constant value)
  | checked op t         => evalArithmetic (.checked op) (t.constant x) (t.constant y)
  | checkedDivision op t => evalArithmetic (.division op) (t.constant x) (t.constant y)
  | checkedNeg t         => evalUnaryMinus (t.constant x)
  | wrap op t            => evalWrappingBinaryCall op (t.constant x) (t.constant y)
  | wrapNeg t            => evalWrappingNegCall (t.constant x)
  | bitwise op t         => evalBitwise op (t.constant x) (t.constant y)
  | bitNot t             => evalUnaryTilde (t.constant x)
  | shl t count          => evalShift .shiftLeft (t.constant x) (count.constant y)
  | shrSigned t count    => evalShift .shiftRight (t.constant x) (count.constant y)
  | shrUnsigned t count  => evalShift .shiftRight (t.constant x) (count.constant y)
  | castChecked s t      => evalCheckedCast enums t.type (s.constant x)
  | truncate s t         => evalTruncatingCast t.type (s.constant x)

def shiftMeaning (t : IntegerType) (op : ShiftOperation) (x y : Int) : Option Int :=
  if 0 ≤ y ∧ y < t.width then
    some (decode t.isSigned (op.onBits t.isSigned (BitVec.ofInt t.width x) y.toNat))
  else none

-- The result as a number, if there is one.
def meaning (x y : Int) : IntegerInstruction → Option Int
  | constant _ value ..  => some value.toInt
  | checked op t         => if t.Contains (op.exact x y) then some (op.exact x y) else none
  | checkedDivision op t => if IntegerValue.DivisionFails t.info x y then none else some (op.exact x y)
  | checkedNeg t         => if t.Contains (-x) then some (-x) else none
  | wrap op t            => some (TwosComplement.wrap t.isSigned t.width (op.exact x y))
  | wrapNeg t            => some (TwosComplement.wrap t.isSigned t.width (-x))
  | bitwise op t         => some (decode t.isSigned (op.onBits (BitVec.ofInt t.width x) (BitVec.ofInt t.width y)))
  | bitNot t             => some (decode t.isSigned (~~~BitVec.ofInt t.width x))
  | shl t _              => shiftMeaning t .shiftLeft x y
  | shrSigned t _        => shiftMeaning t .shiftRight x y
  | shrUnsigned t _      => shiftMeaning t .shiftRight x y
  | castChecked _ t      => if t.Contains x then some x else none
  | truncate _ t         => some (TwosComplement.wrap t.isSigned t.width x)

-- There is no negation of unsigned constants, not even of zero.
def NegatesUnsigned : IntegerInstruction → Prop
  | checkedNeg t => t.isSigned = false
  | _            => False

end IntegerInstruction

-- Evaluation succeeds precisely if there is a result, and then yields it.
def EvaluatesTo (t : IntegerType) (folded : Folded ConstValue) : Option Int → Prop
  | some z => ∃ v : IntegerValue, folded = .ok (t.constant v) ∧ v.Represents t.type.kind z
  | none   => ∃ message, folded = .error message

section Evaluation

variable {t s : IntegerType} {x y : IntegerValue} {enums : EnumId → EnumInfo}

theorem IntegerType.isConcreteInteger (t : IntegerType) : t.type.kind.isConcreteInteger :=
  TypeKind.isConcreteInteger_of_info t.isInteger

theorem IntegerType.type_isInteger (t : IntegerType) : t.type.isInteger := by
  simp [Coglet.Ty.isInteger, TypeKind.isInteger, t.isConcreteInteger]

theorem evaluates_of_represents {v : IntegerValue} (h : v.Represents t.type.kind z) :
    EvaluatesTo t (integerConstantResult t.type t.type.kind v) (some z) :=
  ⟨v, integerConstantResult_of_represents t.isInteger h, h⟩

theorem commonIntegerType_self (t : IntegerType) : t.type.commonIntegerType t.type = some t.type := by
  have h := t.isInteger
  cases ht : t.type <;> simp [ht, Coglet.Ty.kind, TypeKind.integerTypeInfo] at h <;> rfl

theorem checked_evaluates (hx : x.fitsType t.type.kind) (hy : y.fitsType t.type.kind) (op : CheckedOperation) :
    EvaluatesTo t (evalArithmetic (.checked op) (t.constant x) (t.constant y))
      ((IntegerInstruction.checked op t).meaning x.toInt y.toInt) := by
  have he := IntegerValue.evaluateCheckedBinary_exact t.isInteger hx hy op
  rw [IntegerType.constant, IntegerType.constant, evalArithmetic_typed t.isInteger hx hy, evalIntegerArithmetic,
    IntegerInstruction.meaning]
  by_cases h : t.Contains (op.exact x.toInt y.toInt)
  case pos =>
    obtain ⟨v, hv, hr⟩ := he.left h
    rw [if_pos h, hv]
    exact evaluates_of_represents hr
  case neg =>
    rw [if_neg h, he.right h]
    exact ⟨_, rfl⟩

theorem division_evaluates (hx : x.fitsType t.type.kind) (hy : y.fitsType t.type.kind) (op : DivisionOperation) :
    EvaluatesTo t (evalArithmetic (.division op) (t.constant x) (t.constant y))
      ((IntegerInstruction.checkedDivision op t).meaning x.toInt y.toInt) := by
  have he := evalArithmetic_division_exact t.isInteger hx hy op
  rw [IntegerInstruction.meaning]
  split
  case isTrue h  => exact he.left h
  case isFalse h => exact he.right h

theorem neg_evaluates (hs : t.isSigned = true) :
    EvaluatesTo t (evalUnaryMinus (t.constant x)) ((IntegerInstruction.checkedNeg t).meaning x.toInt 0) := by
  have he := IntegerValue.evaluateCheckedNegation_exact (a := x) t.isInteger hs
  have hk : t.type.kind.isSignedInteger := by rw [TypeKind.isSignedInteger_of_info t.isInteger]; exact hs
  have hu : t.type.kind.isUnsignedInteger = false := by
    simp [TypeKind.isUnsignedInteger, t.isInteger, show t.info.isSigned = true from hs]
  have hn : negationKind t.type x = .ok t.type.kind := by
    simp [negationKind, TypeKind.ne_untypedInt_of_info t.isInteger, hk]
  simp only [evalUnaryMinus, IntegerType.constant, hu, Bool.false_eq_true, ite_false, hn, Folded.ok_bind,
    IntegerInstruction.meaning, IntegerType.Contains, hs]
  by_cases h : InRange true t.width (-x.toInt)
  case pos =>
    obtain ⟨v, hv, hr⟩ := he.left h
    rw [if_pos h, hv]
    exact evaluates_of_represents hr
  case neg =>
    rw [if_neg h, he.right h]
    exact ⟨_, rfl⟩

theorem wrap_evaluates (hx : x.fitsType t.type.kind) (hy : y.fitsType t.type.kind) (op : WrappingBuiltin) :
    EvaluatesTo t (evalWrappingBinaryCall op (t.constant x) (t.constant y))
      ((IntegerInstruction.wrap op t).meaning x.toInt y.toInt) := by
  obtain ⟨v, hv, hr⟩ := IntegerValue.evaluateWrappingBinary_exact t.isInteger hx hy op
  simp only [evalWrappingBinaryCall, classifyWrappingBinaryTypes, IntegerType.constant, t.isConcreteInteger,
    Coglet.Ty.typeEqual_refl, Bool.not_true, Bool.or_self, Bool.false_eq_true, ite_false, hv, Folded.ofOption_some, Folded.ok_bind]
  exact evaluates_of_represents hr

theorem wrapNeg_evaluates (hx : x.fitsType t.type.kind) :
    EvaluatesTo t (evalWrappingNegCall (t.constant x)) ((IntegerInstruction.wrapNeg t).meaning x.toInt 0) := by
  obtain ⟨v, hv, hr⟩ := IntegerValue.evaluateWrappingNegation_exact t.isInteger hx
  simp only [evalWrappingNegCall, classifyWrappingNegType, IntegerType.constant, t.isConcreteInteger, Bool.not_true,
    Bool.false_eq_true, ite_false, hv, Folded.ofOption_some, Folded.ok_bind]
  exact evaluates_of_represents hr

theorem bitwise_evaluates (hx : x.fitsType t.type.kind) (hy : y.fitsType t.type.kind) (op : BitwiseOperation) :
    EvaluatesTo t (evalBitwise op (t.constant x) (t.constant y))
      ((IntegerInstruction.bitwise op t).meaning x.toInt y.toInt) := by
  obtain ⟨v, hv, hr⟩ := IntegerValue.bitwise_exact t.isInteger hx hy op
  simp only [evalBitwise, IntegerType.constant, t.type_isInteger, commonIntegerType_self,
    numericOperationKind_self t.isInteger, t.isConcreteInteger, hx, hy, Bool.not_true, Bool.or_self,
    Bool.false_eq_true, ite_false, hv, Folded.ofOption_some, Folded.ok_bind]
  exact evaluates_of_represents hr

theorem bitNot_evaluates (hx : x.fitsType t.type.kind) :
    EvaluatesTo t (evalUnaryTilde (t.constant x)) ((IntegerInstruction.bitNot t).meaning x.toInt 0) := by
  obtain ⟨v, hv, hr⟩ := IntegerValue.bitwiseNot_exact t.isInteger hx
  simp only [evalUnaryTilde, complementKind, IntegerType.constant, t.isConcreteInteger, ite_true, Folded.ok_bind, hv,
    Folded.ofOption_some]
  exact evaluates_of_represents hr

theorem shift_evaluates (hx : x.fitsType t.type.kind) (hy : y.Canonical) (op : ShiftOperation) :
    EvaluatesTo t (evalShift op (t.constant x) (s.constant y))
      (IntegerInstruction.shiftMeaning t op x.toInt y.toInt) := by
  have hc := classifyShiftCount_eq hy t.width
  simp only [evalShift, shiftKind, IntegerType.constant, t.type_isInteger, s.type_isInteger, t.isConcreteInteger, hx,
    TypeKind.integerBitWidth_of_info t.isInteger, Bool.not_true, Bool.false_eq_true, ite_false, ite_true,
    Folded.require, Folded.ofOption_some, Folded.ok_bind, IntegerInstruction.shiftMeaning]
  by_cases h : 0 ≤ y.toInt ∧ y.toInt < t.width
  case pos =>
    have hlt : y.toInt.toNat < t.info.bitWidth := by
      have := h.right
      simp only [IntegerType.width] at this
      omega
    obtain ⟨v, hv, hr⟩ := IntegerValue.shift_exact t.isInteger hx hlt op
    have hcount := hc.left h
    simp only [IntegerType.width] at hcount
    rw [if_pos h, hcount]
    simp only [hv, Folded.ofOption_some, Folded.ok_bind]
    exact evaluates_of_represents hr
  case neg =>
    rw [if_neg h]
    cases hc.right h
    case inl hc =>
      simp only [IntegerType.width] at hc
      rw [hc]
      exact ⟨_, rfl⟩
    case inr hc =>
      simp only [IntegerType.width] at hc
      rw [hc]
      exact ⟨_, rfl⟩

theorem castChecked_evaluates (hx : x.Canonical) :
    EvaluatesTo t (evalCheckedCast enums t.type (s.constant x))
      ((IntegerInstruction.castChecked s t).meaning x.toInt 0) := by
  have hn : t.type.isNumeric = true := by
    simp [Coglet.Ty.isNumeric, TypeKind.isNumeric, TypeKind.isInteger, t.isConcreteInteger]
  have hn' : s.type.isNumeric = true := by
    simp [Coglet.Ty.isNumeric, TypeKind.isNumeric, TypeKind.isInteger, s.isConcreteInteger]
  have ha : t.type.isAllowedExplicitCast s.type = true := by
    simp [Coglet.Ty.isAllowedExplicitCast, hn, hn']
  have he : evalCheckedCast enums t.type (s.constant x) = castToInteger t.type (.int x) := by
    have h := t.isInteger
    have hi := t.type_isInteger
    cases ht : t.type <;> simp [ht, Coglet.Ty.kind, TypeKind.integerTypeInfo] at h <;> rw [ht] at ha hi <;>
      simp [evalCheckedCast, IntegerType.constant, ha, hi]
  have hf := IntegerValue.fitsType_iff_inRange t.isInteger hx
  simp only [he, castToInteger, t.isConcreteInteger, IntegerValue.classifyCheckedCast, Bool.not_true,
    Bool.false_eq_true, ite_false, IntegerInstruction.meaning]
  by_cases h : t.Contains x.toInt
  case pos =>
    rw [if_pos h, if_pos (hf.mpr h)]
    exact ⟨x, rfl, rfl, hf.mpr h, hx⟩
  case neg =>
    rw [if_neg h, if_neg (mt hf.mp h)]
    exact ⟨_, rfl⟩

theorem truncate_evaluates :
    EvaluatesTo t (evalTruncatingCast t.type (s.constant x))
      ((IntegerInstruction.truncate s t).meaning x.toInt 0) := by
  obtain ⟨v, hv, hr⟩ := IntegerValue.truncate_exact (i := x) t.isInteger
  simp only [evalTruncatingCast, IntegerType.constant, t.isConcreteInteger, Bool.not_true, Bool.false_eq_true,
    ite_false, hv, Folded.ofOption_some, Folded.ok_bind]
  exact ⟨v, rfl, hr⟩

theorem IntegerInstruction.evaluate_exact (i : IntegerInstruction) (enums : EnumId → EnumInfo) (hx : x.fitsType i.lhsType.type.kind)
    (hy : y.fitsType i.rhsType.type.kind) (hcx : x.Canonical) (hcy : y.Canonical) (hn : ¬i.NegatesUnsigned) :
    EvaluatesTo i.resultType (i.evaluate enums x y) (i.meaning x.toInt y.toInt) := by
  cases i
  case constant t value hf hc => exact ⟨value, rfl, rfl, hf, hc⟩
  case checked op t        => exact checked_evaluates hx hy op
  case checkedDivision op t => exact division_evaluates hx hy op
  case checkedNeg t        => exact neg_evaluates (t := t) (Bool.not_eq_false _ ▸ hn)
  case wrap op t           => exact wrap_evaluates hx hy op
  case wrapNeg t           => exact wrapNeg_evaluates hx
  case bitwise op t        => exact bitwise_evaluates hx hy op
  case bitNot t            => exact bitNot_evaluates hx
  case shl t count         => exact shift_evaluates hx hcy .shiftLeft
  case shrSigned t count   => exact shift_evaluates hx hcy .shiftRight
  case shrUnsigned t count => exact shift_evaluates hx hcy .shiftRight
  case castChecked s t     => exact castChecked_evaluates hcx
  case truncate s t        => exact truncate_evaluates (s := s)

end Evaluation
end Coglet.Ir
