import Coglet.Ir.Function
import Coglet.Ir.Integer
import Coglet.Lib.CInteger

open TwosComplement Coglet.Ir
open CInteger (Has HasBits Decides Guards Outcome)

-- The integer instructions that are emitted by the C backend.

namespace Coglet.Backend.C.Integer

-- The first part of the name of a variable.
inductive Stem
  | v
  | checkedLhs | checkedRhs | checkedResult
  | wrapBits
  | shiftBits | shiftFill
  | castSigned | castUnsigned
  | truncBits
deriving DecidableEq, Repr

-- The second part is the value that is computed by an instruction.
structure Name where
  stem : Stem
  id   : ValueId
deriving DecidableEq, Repr

abbrev Expression := CInteger.Expr Name

abbrev Statement := CInteger.Stmt Name

-- The statements of an instruction, and the text that stands for its result from there on.
structure Emission where
  statements : List Statement
  text       : Expression
deriving DecidableEq, Repr

def runtimeIntegerType (t : IntegerType) : CInteger.Ty where
  width    := t.width
  isSigned := t.isSigned

-- The macro `UINT64_C`.
def uint64C (bits : BitVec 64) : Expression :=
  .literal .uint64 bits.toNat

def intC (z : Int) : Expression :=
  .literal .int z

-- The macros `INT8_MIN`, `INT8_MAX` and so on.
def signedIntegerMin (bits : Nat) : Expression :=
  .literal (if bits = 64 then .int64 else .int) (-2 ^ (bits - 1))

def signedIntegerMax (bits : Nat) : Expression :=
  .literal (if bits = 64 then .int64 else .int) (2 ^ (bits - 1) - 1)

-- All bits but those of the type are cleared.
def masked (t : IntegerType) (bits : Expression) : Expression :=
  if t.width = 64 then bits else .bitwise .and bits (uint64C (integerWidthMask t.width))

-- Numbers that are too large for a signed type are not converted to it, as that is not portable.
def reconstruct (t : IntegerType) (bits : Expression) : Expression :=
  let type := runtimeIntegerType t
  let signBit := 1#64 <<< (t.width - 1)
  let low := CInteger.Expr.cast .int64 (.bitwise .and bits (uint64C (signBit - 1#64)))
  if !t.isSigned then .cast type bits
  else if t.width = 64 then
    .conditional (.bitwise .and bits (uint64C signBit)) (.arithmetic .add (signedIntegerMin 64) low) (.cast .int64 bits)
  else
    .conditional (.bitwise .and bits (uint64C signBit))
      (.cast type (.arithmetic .add (.neg (.literal .int64 signBit.toNat)) low)) (.cast type bits)

def integerConstantExpr (t : IntegerType) (bits : BitVec 64) : Expression :=
  let type := runtimeIntegerType t
  let mask := integerWidthMask t.width
  let raw := bits &&& mask
  if t.isSigned ∧ raw &&& (1#64 <<< (t.width - 1)) ≠ 0#64 then
    let magnitude := (~~~raw &&& mask) + 1#64
    if magnitude = 1#64 <<< 63 then
      .cast type (.arithmetic .sub (.neg (.literal .int64 9223372036854775807)) (.literal .int64 1))
    else .cast type (.neg (.literal .int64 magnitude.toNat))
  else .cast type (uint64C raw)

section Emit

variable (result : ValueId) (t : IntegerType) (lhs rhs : Expression)

def var (stem : Stem) : Expression :=
  .var ⟨stem, result⟩

-- The variable of the result is declared last.
def emitResult (statements : List Statement) (e : Expression) : Emission where
  statements := statements ++ [.declare (runtimeIntegerType t) ⟨.v, result⟩ e]
  text       := var result .v

def wrappingOperator : WrappingBuiltin → CInteger.Arithmetic
  | .add => .add
  | .sub => .sub
  | .mul => .mul

def emitWrappingIntegerInstruction (bits : Expression) : Emission :=
  emitResult result t [.declare .uint64 ⟨.wrapBits, result⟩ (masked t bits)] (reconstruct t (var result .wrapBits))

def emitWrappingBinary (op : WrappingBuiltin) : Emission :=
  emitWrappingIntegerInstruction result t (.arithmetic (wrappingOperator op) (.cast .uint64 lhs) (.cast .uint64 rhs))

def emitWrappingNeg : Emission :=
  emitWrappingIntegerInstruction result t (.arithmetic .sub (uint64C 0#64) (.cast .uint64 lhs))

inductive Shift
  | shl | shrSigned | shrUnsigned
deriving DecidableEq, Repr

def shiftCheck (count : IntegerType) : Statement :=
  let tooLarge := CInteger.Expr.compare .ge (.cast .uint64 rhs) (uint64C (BitVec.ofNat 64 t.width))
  .abortIf (if count.isSigned then .or (.compare .lt rhs (intC 0)) tooLarge else tooLarge)

def shiftStatement (op : Shift) : Statement :=
  let bits := var result .shiftBits
  let count := CInteger.Expr.cast .uint rhs
  let shifted := CInteger.Expr.shift .right bits count
  match op with
  | .shl         => .assign ⟨.shiftBits, result⟩ (masked t (.shift .left bits count))
  | .shrUnsigned => .assign ⟨.shiftBits, result⟩ shifted
  | .shrSigned   =>
    let mask := uint64C (integerWidthMask t.width)
    .ite (.and (.compare .ne (.bitwise .and bits (uint64C (1#64 <<< (t.width - 1)))) (intC 0))
        (.compare .ne count (intC 0)))
      (.block [
        .declare .uint64 ⟨.shiftFill, result⟩ (.bitwise .xor mask (.shift .right mask count)),
        .assign ⟨.shiftBits, result⟩ (.bitwise .or shifted (var result .shiftFill))
      ])
      (.block [.assign ⟨.shiftBits, result⟩ shifted])

def emitShiftInstruction (count : IntegerType) (op : Shift) : Emission :=
  emitResult result t [
      shiftCheck t rhs count,
      .declare .uint64 ⟨.shiftBits, result⟩ (masked t (.cast .uint64 lhs)),
      shiftStatement result t rhs op
    ] (reconstruct t (var result .shiftBits))

def checkedType : CInteger.Ty :=
  if t.isSigned then .int64 else .uint64

def checkedLhs : Expression :=
  var result .checkedLhs

def checkedRhs : Expression :=
  var result .checkedRhs

-- The bounds of the type, as they are compared with the operands.
def checkedMin : Expression :=
  .cast .int64 (signedIntegerMin t.width)

def checkedMax : Expression :=
  if t.isSigned then .cast .int64 (signedIntegerMax t.width) else uint64C (integerWidthMask t.width)

def checkedOperator : CheckedOperation → CInteger.Arithmetic
  | .plus  => .add
  | .minus => .sub
  | .star  => .mul

def divisionOperator : DivisionOperation → CInteger.Arithmetic
  | .slash   => .div
  | .percent => .mod

def signedCheck : CheckedOperation → Statement
  | .plus  =>
    let lhs := checkedLhs result
    let rhs := checkedRhs result
    .abortIf (.or
      (.and (.compare .gt rhs (intC 0)) (.compare .gt lhs (.arithmetic .sub (checkedMax t) rhs)))
      (.and (.compare .lt rhs (intC 0)) (.compare .lt lhs (.arithmetic .sub (checkedMin t) rhs))))
  | .minus =>
    let lhs := checkedLhs result
    let rhs := checkedRhs result
    .abortIf (.or
      (.and (.compare .lt rhs (intC 0)) (.compare .gt lhs (.arithmetic .add (checkedMax t) rhs)))
      (.and (.compare .gt rhs (intC 0)) (.compare .lt lhs (.arithmetic .add (checkedMin t) rhs))))
  | .star  =>
    let lhs := checkedLhs result
    let rhs := checkedRhs result
    .ite (.and (.compare .ne lhs (intC 0)) (.compare .ne rhs (intC 0)))
      (.block [
        .abortIf (.or
          (.and (.compare .eq lhs (intC (-1))) (.compare .eq rhs (checkedMin t)))
          (.and (.compare .eq rhs (intC (-1))) (.compare .eq lhs (checkedMin t)))),
        .ite (.compare .gt lhs (intC 0))
          (.ite (.compare .gt rhs (intC 0))
            (.abortIf (.compare .gt lhs (.arithmetic .div (checkedMax t) rhs)))
            (.abortIf (.compare .lt rhs (.arithmetic .div (checkedMin t) lhs))))
          (.ite (.compare .gt rhs (intC 0))
            (.abortIf (.compare .lt lhs (.arithmetic .div (checkedMin t) rhs)))
            (.abortIf (.compare .lt lhs (.arithmetic .div (checkedMax t) rhs))))
      ])
      .skip

def unsignedCheck : CheckedOperation → Statement
  | .plus  =>
    .abortIf (.compare .gt (checkedLhs result) (.arithmetic .sub (checkedMax t) (checkedRhs result)))
  | .minus => .abortIf (.compare .lt (checkedLhs result) (checkedRhs result))
  | .star  =>
    .abortIf (.and (.compare .ne (checkedRhs result) (intC 0))
      (.compare .gt (checkedLhs result) (.arithmetic .div (checkedMax t) (checkedRhs result))))

def divisionCheck : Statement :=
  let isZero := CInteger.Expr.compare .eq (checkedRhs result) (intC 0)
  if t.isSigned then
    .abortIf (.or isZero
      (.and (.compare .eq (checkedLhs result) (checkedMin t)) (.compare .eq (checkedRhs result) (intC (-1)))))
  else .abortIf isZero

def declareChecked (stem : Stem) (e : Expression) : Statement :=
  .declare (checkedType t) ⟨stem, result⟩ e

-- The operands are widened to 64 bits, and the result is narrowed.
def emitCheckedIntegerInstruction (operands : List Statement) (check : Statement) (e : Expression) : Emission :=
  emitResult result t (operands ++ [check, declareChecked result t .checkedResult e])
    (.cast (runtimeIntegerType t) (var result .checkedResult))

def declareOperands : List Statement := [
    declareChecked result t .checkedLhs (.cast (checkedType t) lhs),
    declareChecked result t .checkedRhs (.cast (checkedType t) rhs)
  ]

def emitCheckedBinary (op : CheckedOperation) : Emission :=
  emitCheckedIntegerInstruction result t (declareOperands result t lhs rhs)
    (if t.isSigned then signedCheck result t op else unsignedCheck result t op)
    (.arithmetic (checkedOperator op) (checkedLhs result) (checkedRhs result))

def emitCheckedDivision (op : DivisionOperation) : Emission :=
  emitCheckedIntegerInstruction result t (declareOperands result t lhs rhs) (divisionCheck result t)
    (.arithmetic (divisionOperator op) (checkedLhs result) (checkedRhs result))

def emitCheckedNeg : Emission :=
  emitCheckedIntegerInstruction result t [declareChecked result t .checkedLhs (.cast (checkedType t) lhs)]
    (.abortIf (if t.isSigned then .compare .eq (checkedLhs result) (checkedMin t)
      else .compare .ne (checkedLhs result) (intC 0)))
    (if t.isSigned then .neg (checkedLhs result) else uint64C 0#64)

-- The types of integers are shared, so that they are identified by their widths and signedness.
def emitCheckedCastInstruction (s : IntegerType) : Emission :=
  if s.info = t.info then { statements := [], text := lhs }
  else if s.isSigned then
    let operand := var result .castSigned
    let declaration := CInteger.Stmt.declare .int64 ⟨.castSigned, result⟩ (.cast .int64 lhs)
    if t.isSigned then
      let check := CInteger.Stmt.abortIf (.or (.compare .lt operand (signedIntegerMin t.width))
        (.compare .gt operand (signedIntegerMax t.width)))
      emitResult result t (declaration :: if t.width < 64 then [check] else []) (.cast (runtimeIntegerType t) operand)
    else
      let isNegative := CInteger.Expr.compare .lt operand (intC 0)
      let check := if t.width < 64
        then .or isNegative (.compare .gt (.cast .uint64 operand) (uint64C (integerWidthMask t.width)))
        else isNegative
      emitResult result t [declaration, .abortIf check] (.cast (runtimeIntegerType t) (.cast .uint64 operand))
  else
    let operand := var result .castUnsigned
    let declaration := CInteger.Stmt.declare .uint64 ⟨.castUnsigned, result⟩ (.cast .uint64 lhs)
    let check (maxValue : BitVec 64) := CInteger.Stmt.abortIf (.compare .gt operand (uint64C maxValue))
    emitResult result t
      (declaration ::
        if t.isSigned then [check ((1#64 <<< (t.width - 1)) - 1#64)]
        else if t.width < 64 then [check (integerWidthMask t.width)]
        else [])
      (.cast (runtimeIntegerType t) operand)

def emitTruncatingIntegerInstruction : Emission :=
  emitResult result t [.declare .uint64 ⟨.truncBits, result⟩ (masked t (.cast .uint64 lhs))]
    (reconstruct t (var result .truncBits))

def bitwiseOperator : BitwiseOperation → CInteger.Bitwise
  | .and => .and
  | .or  => .or
  | .xor => .xor

def emitIntegerInstruction : IntegerInstruction → Emission
  | .constant t value ..   => { statements := [], text := integerConstantExpr t (integerValueBits value t.width) }
  | .checked op t          => emitCheckedBinary result t lhs rhs op
  | .checkedDivision op t  => emitCheckedDivision result t lhs rhs op
  | .checkedNeg t          => emitCheckedNeg result t lhs
  | .wrap op t             => emitWrappingBinary result t lhs rhs op
  | .wrapNeg t             => emitWrappingNeg result t lhs
  | .bitwise op t          => emitResult result t [] (.bitwise (bitwiseOperator op) lhs rhs)
  | .bitNot t              => emitResult result t [] (.complement lhs)
  | .shl t count           => emitShiftInstruction result t lhs rhs count .shl
  | .shrSigned t count     => emitShiftInstruction result t lhs rhs count .shrSigned
  | .shrUnsigned t count   => emitShiftInstruction result t lhs rhs count .shrUnsigned
  | .castChecked s t       => emitCheckedCastInstruction result t lhs s
  | .truncate _ t          => emitTruncatingIntegerInstruction result t lhs

end Emit
end Coglet.Backend.C.Integer
