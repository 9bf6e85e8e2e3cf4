import Coglet.Const.Value
import Coglet.Integer.Folding

open TwosComplement

namespace Coglet

section Typed

variable {a b : IntegerValue} {type : Ty} {info : IntegerTypeInfo}

theorem integerConstantResult_of_represents (h : type.kind.integerTypeInfo = some info)
    (hr : v.Represents type.kind z) :
    integerConstantResult type type.kind v = .ok ⟨type, .int v⟩ := by
  have hk := TypeKind.isConcreteInteger_of_info h
  have hn := TypeKind.ne_untypedInt_of_info h
  simp [integerConstantResult, Ty.isInteger, TypeKind.isInteger, hk, hr.fits, hn]

theorem commonNumericType_self (h : type.kind.integerTypeInfo = some info) :
    type.commonNumericType type = some type := by
  cases type <;> simp [Ty.kind, TypeKind.integerTypeInfo] at h <;> rfl

theorem numericOperationKind_self (h : type.kind.integerTypeInfo = some info) (x y : ConstValue) :
    x.numericOperationKind y type = some type.kind := by
  simp [ConstValue.numericOperationKind, TypeKind.isConcreteInteger_of_info h]

-- Operands of the same concrete integer type are handed to the integer operations as they are.
theorem evalArithmetic_typed (h : type.kind.integerTypeInfo = some info)
    (ha : a.fitsType type.kind) (hb : b.fitsType type.kind) (op : ArithmeticOperation) :
    evalArithmetic op ⟨type, .int a⟩ ⟨type, .int b⟩ = evalIntegerArithmetic op a b type type.kind := by
  have hk := TypeKind.isConcreteInteger_of_info h
  have hi : type.isInteger = true := by simp [Ty.isInteger, TypeKind.isInteger, hk]
  have hn : type.isNumeric = true := by
    simp [Ty.isNumeric, TypeKind.isNumeric, TypeKind.isInteger, hk]
  simp [evalArithmetic, hi, hn, commonNumericType_self h, numericOperationKind_self h, hk, ha, hb]

theorem evalArithmetic_division_exact (h : type.kind.integerTypeInfo = some info)
    (ha : a.fitsType type.kind) (hb : b.fitsType type.kind) (op : DivisionOperation) :
    (IntegerValue.DivisionFails info a.toInt b.toInt →
      ∃ m, evalArithmetic (.division op) ⟨type, .int a⟩ ⟨type, .int b⟩ = .error m) ∧
    (¬IntegerValue.DivisionFails info a.toInt b.toInt →
      ∃ v, evalArithmetic (.division op) ⟨type, .int a⟩ ⟨type, .int b⟩ = .ok ⟨type, .int v⟩ ∧
        v.Represents type.kind (op.exact a.toInt b.toInt)) := by
  rw [evalArithmetic_typed h ha hb]
  have hv := IntegerValue.classifyDivision_valid_iff (a := a) (b := b) h
  constructor <;> intro hd <;> simp only [evalIntegerArithmetic]
  case left =>
    cases hc : a.classifyDivision b type.kind
    case valid => exact absurd hd (hv.mp hc)
    case zeroDivisor | signedOverflow => exact ⟨_, rfl⟩
  case right =>
    have hr := IntegerValue.divide_represents h ha hb hd op
    refine ⟨_, ?_, hr⟩
    simp [hv.mpr hd, integerConstantResult_of_represents h hr]

end Typed

-- Every operation on constants of one concrete integer type is the corresponding operation on
-- fixed-width integers. Negation is not defined for unsigned types.
structure FoldsExactly (type : Ty) (info : IntegerTypeInfo) (a b : IntegerValue) : Prop where
  checkedBinary (op : CheckedOperation) :
    (InRange info.isSigned info.bitWidth (op.exact a.toInt b.toInt) →
      ∃ v, IntegerValue.evaluateCheckedBinary op a b type.kind = .valid v ∧
        v.Represents type.kind (op.exact a.toInt b.toInt)) ∧
    (¬InRange info.isSigned info.bitWidth (op.exact a.toInt b.toInt) →
      IntegerValue.evaluateCheckedBinary op a b type.kind = .overflow)
  checkedNegation (signed : info.isSigned = true) :
    (InRange true info.bitWidth (-a.toInt) →
      ∃ v, a.evaluateCheckedNegation type.kind = .valid v ∧ v.Represents type.kind (-a.toInt)) ∧
    (¬InRange true info.bitWidth (-a.toInt) → a.evaluateCheckedNegation type.kind = .overflow)
  bitwise (op : BitwiseOperation) :
    ∃ v, a.bitwise b type.kind op = some v ∧ v.Represents type.kind
      (decode info.isSigned (op.onBits (a.bits info.bitWidth) (b.bits info.bitWidth)))
  bitwiseNot :
    ∃ v, a.bitwiseNot type.kind = some v ∧
      v.Represents type.kind (decode info.isSigned (~~~(a.bits info.bitWidth)))
  shift (op : ShiftOperation) (count : Nat) (lt : count < info.bitWidth) :
    ∃ v, a.shift type.kind op count = some v ∧ v.Represents type.kind
      (decode info.isSigned (op.onBits info.isSigned (a.bits info.bitWidth) count))
  wrappingBinary (op : WrappingBuiltin) :
    ∃ v, IntegerValue.evaluateWrappingBinary op a b type.kind = some v ∧
      v.Represents type.kind (wrap info.isSigned info.bitWidth (op.exact a.toInt b.toInt))
  wrappingNegation :
    ∃ v, a.evaluateWrappingNegation type.kind = some v ∧
      v.Represents type.kind (wrap info.isSigned info.bitWidth (-a.toInt))
  division (op : DivisionOperation) :
    (IntegerValue.DivisionFails info a.toInt b.toInt →
      ∃ m, evalArithmetic (.division op) ⟨type, .int a⟩ ⟨type, .int b⟩ = .error m) ∧
    (¬IntegerValue.DivisionFails info a.toInt b.toInt →
      ∃ v, evalArithmetic (.division op) ⟨type, .int a⟩ ⟨type, .int b⟩ = .ok ⟨type, .int v⟩ ∧
        v.Represents type.kind (op.exact a.toInt b.toInt))

theorem integer_folding_exact {type : Ty} {info : IntegerTypeInfo} {a b : IntegerValue}
    (h : type.kind.integerTypeInfo = some info)
    (ha : a.fitsType type.kind) (hb : b.fitsType type.kind) : FoldsExactly type info a b where
  checkedBinary      := IntegerValue.evaluateCheckedBinary_exact h ha hb
  checkedNegation    := IntegerValue.evaluateCheckedNegation_exact h
  bitwise            := IntegerValue.bitwise_exact h ha hb
  bitwiseNot         := IntegerValue.bitwiseNot_exact h ha
  shift op _ hc      := IntegerValue.shift_exact h ha hc op
  wrappingBinary     := IntegerValue.evaluateWrappingBinary_exact h ha hb
  wrappingNegation   := IntegerValue.evaluateWrappingNegation_exact h ha
  division           := evalArithmetic_division_exact h ha hb

-- The minimum of `s8` divided by `-1`.
theorem integer_folding_exact_s8 :
    FoldsExactly .s8 ⟨8, true⟩ ⟨128, true⟩ ⟨1, true⟩ :=
  integer_folding_exact rfl (by decide) (by decide)

-- The negation of an unsigned zero would be in range, but unsigned operands are ruled out by an
-- assertion.
theorem unsigned_negation_asserts :
    ¬∀ (kind : TypeKind) (info : IntegerTypeInfo) (a : IntegerValue),
      kind.integerTypeInfo = some info → a.fitsType kind →
      InRange info.isSigned info.bitWidth (-a.toInt) →
      ∃ v, a.evaluateCheckedNegation kind = .valid v ∧ v.Represents kind (-a.toInt) := by
  intro h
  have ⟨_, hv, _⟩ := h .u8 ⟨8, false⟩ ⟨0, false⟩ rfl (by decide) (by decide)
  have hu : IntegerValue.evaluateCheckedNegation ⟨0, false⟩ .u8 = .assertion := rfl
  rw [hu] at hv
  contradiction

end Coglet
