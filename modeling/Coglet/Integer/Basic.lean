import Coglet.Types
import Mathlib.Data.Nat.Bitwise

namespace Coglet

-- A compile-time integer in sign-and-magnitude representation.
structure IntegerValue where
  magnitude  : BitVec 64
  isNegative : Bool
deriving DecidableEq, Repr

structure IntegerTypeInfo where
  bitWidth : Nat
  isSigned : Bool
deriving DecidableEq, Repr

namespace TypeKind

def integerTypeInfo : TypeKind → Option IntegerTypeInfo
  | s8  => some ⟨8, true⟩
  | s16 => some ⟨16, true⟩
  | s32 => some ⟨32, true⟩
  | s64 => some ⟨64, true⟩
  | u8  => some ⟨8, false⟩
  | u16 => some ⟨16, false⟩
  | u32 => some ⟨32, false⟩
  | u64 => some ⟨64, false⟩
  | _   => none

def isConcreteInteger (kind : TypeKind) : Bool :=
  kind.integerTypeInfo.isSome

def isSignedInteger (kind : TypeKind) : Bool :=
  kind.integerTypeInfo.any (·.isSigned)

def isUnsignedInteger (kind : TypeKind) : Bool :=
  kind.integerTypeInfo.any (!·.isSigned)

def integerBitWidth (kind : TypeKind) : Option Nat :=
  kind.integerTypeInfo.map (·.bitWidth)

def isInteger (kind : TypeKind) : Bool :=
  kind.isConcreteInteger || kind = untypedInt

def isConcreteFloat (kind : TypeKind) : Bool :=
  kind = f32 || kind = f64

def isFloat (kind : TypeKind) : Bool :=
  kind.isConcreteFloat || kind = untypedFloat

def isUntypedNumeric (kind : TypeKind) : Bool :=
  kind = untypedInt || kind = untypedFloat

def isNumeric (kind : TypeKind) : Bool :=
  kind.isInteger || kind.isFloat

-- The magnitude of the least value of a signed integer type.
def signedIntegerMinMagnitude (kind : TypeKind) : Option (BitVec 64) :=
  match kind.integerTypeInfo with
  | some info => if info.isSigned then some (1#64 <<< (info.bitWidth - 1)) else none
  | none      => none

end TypeKind

def integerWidthMask (width : Nat) : BitVec 64 :=
  if width = 64 then BitVec.allOnes 64 else (1#64 <<< width) - 1#64

inductive BitwiseOperation
  | and | or | xor
deriving DecidableEq, Repr

inductive ShiftOperation
  | shiftLeft | shiftRight
deriving DecidableEq, Repr

inductive CheckedOperation
  | plus | minus | star
deriving DecidableEq, Repr

inductive DivisionOperation
  | slash | percent
deriving DecidableEq, Repr

inductive WrappingBuiltin
  | add | sub | mul
deriving DecidableEq, Repr

inductive ShiftCountStatus
  | valid (count : Nat)
  | negative
  | outOfRange
deriving DecidableEq, Repr

inductive CheckedIntegerCastStatus
  | valid
  | outOfRange
deriving DecidableEq, Repr

inductive IntegerDivisionStatus
  | valid
  | zeroDivisor
  | signedOverflow
deriving DecidableEq, Repr

-- The outcome of checked arithmetic. The source returns a status and writes the value only if that
-- status is `VALID`; `assertion` stands for an `assert` or `UNREACHABLE` that aborts the compiler.
inductive CheckedIntegerArithmeticStatus
  | valid (value : IntegerValue)
  | overflow
  | assertion
deriving DecidableEq, Repr

namespace IntegerValue

-- The integer that a sign and a magnitude denote.
def toInt (value : IntegerValue) : Int :=
  if value.isNegative then -(value.magnitude.toNat : Int) else value.magnitude.toNat

-- There is no negative zero.
def Canonical (value : IntegerValue) : Prop :=
  value.magnitude = 0 → value.isNegative = false

instance : Decidable (Canonical value) :=
  inferInstanceAs (Decidable (_ → _))

def make (magnitude : BitVec 64) (isNegative : Bool) : IntegerValue where
  magnitude  := magnitude
  isNegative := magnitude != 0 && isNegative

def negated (value : IntegerValue) : IntegerValue :=
  make value.magnitude (!value.isNegative)

def equal (a b : IntegerValue) : Bool :=
  a.magnitude == b.magnitude && a.isNegative == b.isNegative

def compare (a b : IntegerValue) : Ordering :=
  if a.isNegative != b.isNegative then
    if a.isNegative then .lt else .gt
  else if a.magnitude == b.magnitude then
    .eq
  else if a.isNegative then
    if a.magnitude > b.magnitude then .lt else .gt
  else
    if a.magnitude < b.magnitude then .lt else .gt

-- Untyped integers retain an exact magnitude. Positive values may use all of it, while negative
-- values are limited to the magnitude of the `s64` minimum.
def fitsType (value : IntegerValue) (kind : TypeKind) : Bool :=
  if kind = .untypedInt then
    !value.isNegative || value.magnitude ≤ 1#64 <<< 63
  else
    match kind.integerTypeInfo with
    | none => false
    | some info =>
      if !info.isSigned then
        !value.isNegative && value.magnitude ≤ integerWidthMask info.bitWidth
      else
        let minimumMagnitude := 1#64 <<< (info.bitWidth - 1)
        if value.isNegative then value.magnitude ≤ minimumMagnitude
        else value.magnitude < minimumMagnitude

def toBitPattern (value : IntegerValue) (kind : TypeKind) : Option (BitVec 64) := do
  let width ← kind.integerBitWidth
  guard (value.fitsType kind)
  let mask := integerWidthMask width
  if value.isNegative then
    return (~~~value.magnitude + 1#64) &&& mask
  else
    return value.magnitude &&& mask

def fromBitPattern (pattern : BitVec 64) (kind : TypeKind) : Option IntegerValue := do
  let width ← kind.integerBitWidth
  let mask := integerWidthMask width
  let pattern := pattern &&& mask
  let signBit := 1#64 <<< (width - 1)
  if kind.isSignedInteger && pattern &&& signBit != 0 then
    return make ((~~~pattern + 1#64) &&& mask) true
  else
    return make pattern false

-- The low bits of an exact integer. In contrast to `toBitPattern` the value need not fit the type.
def truncate (value : IntegerValue) (targetKind : TypeKind) : Option IntegerValue := do
  let width ← targetKind.integerBitWidth
  let mask := integerWidthMask width
  let pattern := value.magnitude &&& mask
  fromBitPattern (if value.isNegative then (0#64 - pattern) &&& mask else pattern) targetKind

def bitwiseNot (operand : IntegerValue) (kind : TypeKind) : Option IntegerValue := do
  let width ← kind.integerBitWidth
  let pattern ← operand.toBitPattern kind
  fromBitPattern (~~~pattern &&& integerWidthMask width) kind

def bitwise (left right : IntegerValue) (kind : TypeKind) (operation : BitwiseOperation) :
    Option IntegerValue := do
  let leftPattern ← left.toBitPattern kind
  let rightPattern ← right.toBitPattern kind
  match operation with
  | .and => fromBitPattern (leftPattern &&& rightPattern) kind
  | .or  => fromBitPattern (leftPattern ||| rightPattern) kind
  | .xor => fromBitPattern (leftPattern ^^^ rightPattern) kind

def classifyShiftCount (value : IntegerValue) (bitWidth : Nat) : ShiftCountStatus :=
  if value.isNegative then .negative
  else if value.magnitude.toNat ≥ bitWidth then .outOfRange
  else .valid value.magnitude.toNat

def shift (operand : IntegerValue) (kind : TypeKind) (operation : ShiftOperation) (count : Nat) :
    Option IntegerValue := do
  let width ← kind.integerBitWidth
  guard (count < width)
  let pattern ← operand.toBitPattern kind
  let mask := integerWidthMask width
  match operation with
  | .shiftLeft => fromBitPattern ((pattern <<< count) &&& mask) kind
  | .shiftRight =>
    let resultPattern := pattern >>> count
    let signBit := 1#64 <<< (width - 1)
    -- A signed right shift is arithmetic: the vacated bits are filled with the sign.
    if count ≠ 0 && kind.isSignedInteger && pattern &&& signBit != 0 then
      fromBitPattern (resultPattern ||| (mask ^^^ (mask >>> count))) kind
    else
      fromBitPattern resultPattern kind

def evaluateWrappingBinary (builtin : WrappingBuiltin) (left right : IntegerValue)
    (operationKind : TypeKind) : Option IntegerValue := do
  let width ← operationKind.integerBitWidth
  let leftPattern ← left.toBitPattern operationKind
  let rightPattern ← right.toBitPattern operationKind
  let resultPattern := match builtin with
    | .add => leftPattern + rightPattern
    | .sub => leftPattern - rightPattern
    | .mul => leftPattern * rightPattern
  fromBitPattern (resultPattern &&& integerWidthMask width) operationKind

def evaluateWrappingNegation (operand : IntegerValue) (operationKind : TypeKind) :
    Option IntegerValue := do
  let width ← operationKind.integerBitWidth
  let operandPattern ← operand.toBitPattern operationKind
  fromBitPattern ((0#64 - operandPattern) &&& integerWidthMask width) operationKind

def classifyCheckedCast (value : IntegerValue) (targetKind : TypeKind) : CheckedIntegerCastStatus :=
  if value.fitsType targetKind then .valid else .outOfRange

-- The concrete type that an untyped integer receives when nothing else determines one.
def defaultIntegerKind (value : IntegerValue) : Option TypeKind :=
  if value.fitsType .s32 then some .s32
  else if value.fitsType .s64 then some .s64
  else if value.fitsType .u64 then some .u64
  else none

def add (left right : IntegerValue) : Option IntegerValue :=
  if left.isNegative == right.isNegative then
    if BitVec.allOnes 64 - left.magnitude < right.magnitude then none
    else some (make (left.magnitude + right.magnitude) left.isNegative)
  else if left.magnitude ≥ right.magnitude then
    some (make (left.magnitude - right.magnitude) left.isNegative)
  else
    some (make (right.magnitude - left.magnitude) right.isNegative)

def subtract (left right : IntegerValue) : Option IntegerValue :=
  left.add right.negated

def multiply (left right : IntegerValue) : Option IntegerValue :=
  if left.magnitude ≠ 0 ∧ right.magnitude > BitVec.allOnes 64 / left.magnitude then none
  else some (make (left.magnitude * right.magnitude) (left.isNegative != right.isNegative))

def classifyCheckedResult (value : IntegerValue) (operationKind : TypeKind) :
    CheckedIntegerArithmeticStatus :=
  if !operationKind.isConcreteInteger then .assertion
  else if value.fitsType operationKind then .valid value
  else .overflow

def evaluateCheckedBinary (operation : CheckedOperation) (left right : IntegerValue)
    (operationKind : TypeKind) : CheckedIntegerArithmeticStatus :=
  if !operationKind.isConcreteInteger then .assertion
  else if !left.fitsType operationKind || !right.fitsType operationKind then .assertion
  else
    let exactResult := match operation with
      | .plus  => left.add right
      | .minus => left.subtract right
      | .star  => left.multiply right
    match exactResult with
    | none       => .overflow
    | some value => value.classifyCheckedResult operationKind

-- Only the negated result is checked against the operation type, since an untyped operand such as
-- `9223372036854775808` need not fit the type that its negation has.
def evaluateCheckedNegation (operand : IntegerValue) (operationKind : TypeKind) :
    CheckedIntegerArithmeticStatus :=
  if !operationKind.isSignedInteger then .assertion
  else operand.negated.classifyCheckedResult operationKind

def classifyDivision (left right : IntegerValue) (resultKind : TypeKind) : IntegerDivisionStatus :=
  if right.magnitude = 0 then .zeroDivisor
  else
    match resultKind.signedIntegerMinMagnitude with
    | some minimumMagnitude =>
      if left.isNegative && left.magnitude = minimumMagnitude && right.isNegative &&
        right.magnitude = 1 then .signedOverflow
      else .valid
    | none => .valid

-- The values that the constant evaluator computes for a division which `classifyDivision` admits.
def divide (operation : DivisionOperation) (left right : IntegerValue) : IntegerValue :=
  match operation with
  | .slash   => make (left.magnitude / right.magnitude) (left.isNegative != right.isNegative)
  | .percent => make (left.magnitude % right.magnitude) left.isNegative

end IntegerValue
end Coglet
