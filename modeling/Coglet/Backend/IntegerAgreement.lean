import Coglet.Backend.CIntegerChecked
import Coglet.Backend.LlvmInteger

open TwosComplement Coglet.Ir
open CInteger (Outcome)

-- Both backends compute what the evaluator of constant expressions computes.

namespace Coglet.Backend

section C

open C.Integer

variable {result : ValueId} {s : CInteger.Store C.Integer.Name} {lhs rhs : Expression} {t : IntegerType} {x y : Int}

theorem integerConstant_reads {value : IntegerValue} (hf : value.fitsType t.type.kind) (hc : value.Canonical) :
    Reads result s (integerConstantExpr t (integerValueBits value t.width)) t value.toInt := by
  intro s' _
  have hv := decode_ofInt t.width_pos ((IntegerValue.fitsType_iff_inRange t.isInteger hc).mp hf)
  have h := integerConstantExpr_has (s := s') (t := t) (v := BitVec.ofInt t.width value.toInt)
  rw [← integerValueBits_eq hf] at h
  exact hv ▸ h

-- The text of a constant is not stored in a variable.
theorem integerConstant_yields {value : IntegerValue} (hf : value.fitsType t.type.kind) (hc : value.Canonical) :
    Emission.Yields { statements := [], text := integerConstantExpr t (integerValueBits value t.width) } result s t
      (some value.toInt) := by
  have h : Reads result s (integerConstantExpr t (integerValueBits value t.width)) t value.toInt :=
    integerConstant_reads hf hc
  exact ⟨s, CInteger.exec_nil, .refl, h.has .refl⟩

theorem shrSigned_onBits (hs : t.isSigned = true) (v : BitVec t.width) (n : Nat) :
    Shift.shrSigned.onBits v n = ShiftOperation.shiftRight.onBits t.isSigned v n := by
  simp [Shift.onBits, ShiftOperation.onBits, hs]

theorem shrUnsigned_onBits (hs : t.isSigned = false) (v : BitVec t.width) (n : Nat) :
    Shift.shrUnsigned.onBits v n = ShiftOperation.shiftRight.onBits t.isSigned v n := by
  simp [Shift.onBits, ShiftOperation.onBits, hs]

theorem emitIntegerInstruction_yields (i : IntegerInstruction) (hv : i.verify) (hn : ¬i.NegatesUnsigned)
    (hx : Reads result s lhs i.lhsType x) (hy : Reads result s rhs i.rhsType y) (hcx : i.lhsType.Contains x)
    (hcy : i.rhsType.Contains y) :
    (emitIntegerInstruction result lhs rhs i).Yields result s i.resultType (i.meaning x y) := by
  cases i
  case constant t value hf hc => exact integerConstant_yields hf hc
  case checked op t           => exact emitCheckedBinary_yields hx hy hcx hcy op
  case checkedDivision op t   => exact emitCheckedDivision_yields hx hy hcx hcy op
  case checkedNeg t           => exact emitCheckedNeg_signed (Bool.not_eq_false _ ▸ hn) hx hcx
  case wrap op t              => exact emitWrappingBinary_yields hx hy op
  case wrapNeg t              => exact emitWrappingNeg_yields hx
  case bitwise op t           => exact emitBitwise_yields hx hy hcx hcy op
  case bitNot t               => exact emitBitNot_yields hx hcx
  case shl t count            => exact emitShift_yields hx hy hcy .shiftLeft fun _ _ => rfl
  case shrSigned t count      => exact emitShift_yields hx hy hcy .shiftRight (shrSigned_onBits hv)
  case shrUnsigned t count    =>
    have hs : t.isSigned = false := by simpa [IntegerInstruction.verify] using hv
    exact emitShift_yields hx hy hcy .shiftRight (shrUnsigned_onBits hs)
  case castChecked source t   => exact emitCheckedCast_yields hx hcx
  case truncate source t      => exact emitTruncating_yields hx

end C

-- An instruction on the values of its operands, which the C code reads from two texts.
structure Operands (i : IntegerInstruction) (result : ValueId) where
  x      : IntegerValue
  y      : IntegerValue
  xFits  : x.fitsType i.lhsType.type.kind ∧ x.Canonical
  yFits  : y.fitsType i.rhsType.type.kind ∧ y.Canonical
  store  : CInteger.Store C.Integer.Name
  lhs    : C.Integer.Expression
  rhs    : C.Integer.Expression
  lhsIsX : C.Integer.Reads result store lhs i.lhsType x.toInt
  rhsIsY : C.Integer.Reads result store rhs i.rhsType y.toInt

namespace Operands

variable {i : IntegerInstruction} {result : ValueId} (operands : Operands i result)

-- The statements that are emitted as C end with the result, or abort if there is none.
def InC : Option Int → Prop :=
  (C.Integer.emitIntegerInstruction result operands.lhs operands.rhs i).Yields result operands.store i.resultType

def inLlvm : Outcome (BitVec i.resultType.width) :=
  Llvm.lowerIntegerInstruction i (BitVec.ofInt _ operands.x.toInt) (BitVec.ofInt _ operands.y.toInt)

def evaluate (enums : EnumId → EnumInfo) : Folded ConstValue :=
  i.evaluate enums operands.x operands.y

-- All three implementations have the same result, or none of them has a result.
def Agree (enums : EnumId → EnumInfo) : Prop :=
  match operands.evaluate enums with
  | .ok value => ∃ v : IntegerValue, value = i.resultType.constant v ∧ operands.InC (some v.toInt) ∧
    operands.inLlvm = .value (BitVec.ofInt _ v.toInt)
  | .error _  => operands.InC none ∧ operands.inLlvm = .aborted
  | .assertion => False

theorem x_contains : i.lhsType.Contains operands.x.toInt :=
  (IntegerValue.fitsType_iff_inRange i.lhsType.isInteger operands.xFits.right).mp operands.xFits.left

theorem y_contains : i.rhsType.Contains operands.y.toInt :=
  (IntegerValue.fitsType_iff_inRange i.rhsType.isInteger operands.yFits.right).mp operands.yFits.left

theorem inC_meaning (hv : i.verify) (hn : ¬i.NegatesUnsigned) :
    operands.InC (i.meaning operands.x.toInt operands.y.toInt) :=
  emitIntegerInstruction_yields i hv hn operands.lhsIsX operands.rhsIsY operands.x_contains operands.y_contains

theorem inLlvm_meaning (hv : i.verify) (hn : ¬i.NegatesUnsigned) :
    operands.inLlvm = Llvm.ofMeaning _ (i.meaning operands.x.toInt operands.y.toInt) := by
  rw [inLlvm, Llvm.lowerIntegerInstruction_eq i hv hn, decode_ofInt i.lhsType.width_pos operands.x_contains,
    decode_ofInt i.rhsType.width_pos operands.y_contains]

theorem agree_of_meaning (hv : i.verify) (hn : ¬i.NegatesUnsigned) (enums : EnumId → EnumInfo) :
    operands.Agree enums := by
  have he := i.evaluate_exact enums operands.xFits.left operands.yFits.left operands.xFits.right
    operands.yFits.right hn
  have hc := operands.inC_meaning hv hn
  have hl := operands.inLlvm_meaning hv hn
  unfold Agree evaluate
  cases hm : i.meaning operands.x.toInt operands.y.toInt
  case none =>
    rw [hm] at he hc hl
    obtain ⟨_, he⟩ := he
    rw [he]
    exact ⟨hc, hl⟩
  case some z =>
    rw [hm] at he hc hl
    obtain ⟨v, he, hr⟩ := he
    rw [he]
    refine ⟨v, rfl, ?_⟩
    rw [hr.toInt_eq]
    exact ⟨hc, hl⟩

-- Only zero can be negated.
theorem inC_negatesUnsigned (hn : i.NegatesUnsigned) :
    operands.InC (if operands.x.toInt = 0 then some 0 else none) := by
  cases i
  case checkedNeg t => exact C.Integer.emitCheckedNeg_unsigned hn operands.lhsIsX operands.x_contains
  all_goals exact False.elim hn

theorem inLlvm_negatesUnsigned (hn : i.NegatesUnsigned) :
    operands.inLlvm = Llvm.ofMeaning _ (if operands.x.toInt = 0 then some 0 else none) := by
  cases i
  case checkedNeg t =>
    have hs : t.isSigned = false := hn
    have hd : decode t.isSigned (BitVec.ofInt t.width operands.x.toInt) = operands.x.toInt :=
      decode_ofInt t.width_pos operands.x_contains
    have hz : BitVec.ofInt t.width operands.x.toInt = 0#t.width ↔ operands.x.toInt = 0 := by
      have he : decode t.isSigned (BitVec.ofInt t.width operands.x.toInt) = 0 ↔ _ := Llvm.decode_eq_zero_iff
      rw [← he, hd]
    have hl : operands.inLlvm = Llvm.lowerCheckedNeg false (BitVec.ofInt t.width operands.x.toInt) := hs ▸ rfl
    rw [hl, Llvm.lowerCheckedNeg_unsigned]
    by_cases h : operands.x.toInt = 0
    case pos =>
      rw [if_pos (hz.mpr h), if_pos h]
      rfl
    case neg =>
      rw [if_neg (mt hz.mp h), if_neg h]
      rfl
  all_goals exact False.elim hn

theorem evaluate_negatesUnsigned (hn : i.NegatesUnsigned) (enums : EnumId → EnumInfo) :
    ∃ message, operands.evaluate enums = .error message := by
  cases i
  case checkedNeg t =>
    have hs : t.info.isSigned = false := hn
    have hu : t.type.kind.isUnsignedInteger := by simp [TypeKind.isUnsignedInteger, t.isInteger, hs]
    exact ⟨_, if_pos hu⟩
  all_goals exact False.elim hn

end Operands

-- The checked negation of unsigned operands is the only instruction without a counterpart in constant expressions.
-- The program cannot contain it, and both backends agree on it as well.
theorem integerInstruction_agree (i : IntegerInstruction) (hv : i.verify) (result : ValueId)
    (operands : Operands i result) (enums : EnumId → EnumInfo) :
    (¬i.NegatesUnsigned → operands.Agree enums) ∧
    (i.NegatesUnsigned → (∃ message, operands.evaluate enums = .error message) ∧
      operands.InC (if operands.x.toInt = 0 then some 0 else none) ∧
      operands.inLlvm = Llvm.ofMeaning _ (if operands.x.toInt = 0 then some 0 else none)) where
  left hn  := operands.agree_of_meaning hv hn enums
  right hn :=
    ⟨operands.evaluate_negatesUnsigned hn enums, operands.inC_negatesUnsigned hn, operands.inLlvm_negatesUnsigned hn⟩

section Negation

def u8 : IntegerType where
  type      := .u8
  info      := ⟨8, false⟩
  isInteger := rfl

def s64 : IntegerType where
  type      := .s64
  info      := ⟨64, true⟩
  isInteger := rfl

-- Operands that are constants.
def constantOperands (i : IntegerInstruction) (result : ValueId) (x y : IntegerValue)
    (hx : x.fitsType i.lhsType.type.kind ∧ x.Canonical) (hy : y.fitsType i.rhsType.type.kind ∧ y.Canonical) :
    Operands i result where
  x      := x
  y      := y
  xFits  := hx
  yFits  := hy
  store  := fun _ => none
  lhs    := C.Integer.integerConstantExpr i.lhsType (integerValueBits x i.lhsType.width)
  rhs    := C.Integer.integerConstantExpr i.rhsType (integerValueBits y i.rhsType.width)
  lhsIsX := integerConstant_reads hx.left hx.right
  rhsIsY := integerConstant_reads hy.left hy.right

theorem canonical_of_mem_nil : ∀ m ∈ ([] : List (String × IntegerValue)), m.2.Canonical :=
  fun _ h => (List.not_mem_nil h).elim

def noEnums (_ : EnumId) : EnumInfo where
  name      := ""
  backing   := .s32
  members   := []
  canonical := canonical_of_mem_nil

def negatedZero : Operands (.checkedNeg u8) 0 :=
  constantOperands (.checkedNeg u8) 0 ⟨0#64, false⟩ ⟨0#64, false⟩ (by decide) (by decide)

-- The backends negate the zero that cannot be negated in a constant expression.
theorem negatedZero_not_agree : ¬∀ (i : IntegerInstruction) (result : ValueId) (operands : Operands i result)
    (enums : EnumId → EnumInfo), i.verify → operands.Agree enums := by
  intro h
  have ha : Outcome.value 0#8 = (.aborted : Outcome (BitVec 8)) :=
    (h (.checkedNeg u8) 0 negatedZero noEnums rfl).right
  cases ha

def dividedMinimum : Operands (.checkedDivision .slash s64) 0 :=
  constantOperands (.checkedDivision .slash s64) 0 ⟨1#64 <<< 63, true⟩ ⟨1#64, true⟩ (by decide) (by decide)

theorem dividedMinimum_agree : dividedMinimum.Agree noEnums :=
  (integerInstruction_agree (.checkedDivision .slash s64) rfl 0 dividedMinimum noEnums).left id

end Negation
end Coglet.Backend
