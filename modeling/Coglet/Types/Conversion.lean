import Coglet.Integer.Basic

namespace Coglet.Ty

def isInteger (type : Ty) : Bool :=
  type.kind.isInteger

def isNumeric (type : Ty) : Bool :=
  type.kind.isNumeric

def isUntypedNumeric (type : Ty) : Bool :=
  type.kind.isUntypedNumeric

def isRawPointer : Ty → Bool
  | pointer .. | opaquePointer .. => true
  | _ => false

def isCFunctionPointer : Ty → Bool
  | function .c .. => true
  | _ => false

def isNullablePointer (type : Ty) : Bool :=
  type.isRawPointer || type.isCFunctionPointer

def pointerAccess : Ty → PointerAccess
  | pointer access _ _ | opaquePointer access _ | slice access _ => access
  | _ => .mutable

def pointerIsVolatile : Ty → Bool
  | pointer _ v _ | opaquePointer _ v => v
  | _ => false

-- Compares the family and the immediate pointee of two raw pointers, ignoring the qualifiers of the
-- outer pointer only.
def pointerIdentityEqualIgnoringQualifiers : Ty → Ty → Bool
  | opaquePointer .., opaquePointer .. => true
  | pointer _ _ e, pointer _ _ e'      => typeEqual e e'
  | _, _                               => false

-- Qualifiers may be added to a pointer, but neither of them may be discarded.
def pointerQualificationConversionAllowed (target source : Ty) : Bool :=
  pointerIdentityEqualIgnoringQualifiers target source &&
  !(source.pointerAccess = .readonly && target.pointerAccess = .mutable) &&
  !(source.pointerIsVolatile && !target.pointerIsVolatile) &&
  (target.pointerAccess ≠ source.pointerAccess || target.pointerIsVolatile ≠ source.pointerIsVolatile)

def sliceQualificationConversionAllowed : Ty → Ty → Bool
  | slice access e, slice access' e' =>
    typeEqual e e' && access' = .mutable && access = .readonly
  | _, _ => false

def arrayToSliceConversionAllowed : Ty → Ty → Bool
  | slice _ e, array n e' => 0 ≤ n && typeEqual e e'
  | _, _ => false

-- Reinterpretation crosses between typed and opaque pointers only.
def reinterpretPointerConversionAllowed (target source : Ty) : Bool :=
  target.isRawPointer && source.isRawPointer &&
  (target.kind = .opaquePointer) != (source.kind = .opaquePointer) &&
  !(source.pointerAccess = .readonly && target.pointerAccess = .mutable) &&
  !(source.pointerIsVolatile && !target.pointerIsVolatile)

def isAllowedExplicitCast (target source : Ty) : Bool :=
  typeEqual target source ||
  pointerQualificationConversionAllowed target source ||
  (target.isNullablePointer && source.kind = .null) ||
  (target.kind = .bool && source.kind = .bool) ||
  (target.isNumeric && source.isNumeric) ||
  (target.isInteger && source.kind = .enum) ||
  (target.kind = .enum && source.isInteger)

def isPointerNullPair (left right : Ty) : Bool :=
  (left.isNullablePointer && right.kind = .null) || (left.kind = .null && right.isNullablePointer)

def isEqualityComparable (type : Ty) : Bool :=
  type.isNumeric || type.kind = .bool || type.kind = .enum || type.isRawPointer ||
  type.isCFunctionPointer

-- If exactly one operand is untyped, the other one determines the type. Concrete operands have to
-- agree, and two untyped operands remain untyped.
def commonNumericType (a b : Ty) : Option Ty :=
  if !a.isNumeric || !b.isNumeric then none
  else if a.isUntypedNumeric && !b.isUntypedNumeric then some b
  else if b.isUntypedNumeric && !a.isUntypedNumeric then some a
  else if a.isUntypedNumeric && b.isUntypedNumeric then
    if a.kind = .untypedFloat then some a
    else if b.kind = .untypedFloat then some b
    else some a
  else if typeEqual a b then some a
  else none

def commonIntegerType (a b : Ty) : Option Ty :=
  if !a.isInteger || !b.isInteger then none
  else if a.kind = .untypedInt && b.kind ≠ .untypedInt then some b
  else if b.kind = .untypedInt && a.kind ≠ .untypedInt then some a
  else if a.kind = .untypedInt && b.kind = .untypedInt then some a
  else if typeEqual a b then some a
  else none

-- Whether a value of one type may be used where another type is expected.
def initializerCompatible (declared initType : Ty) : Bool :=
  if typeEqual declared initType then true
  else if pointerQualificationConversionAllowed declared initType then true
  else if sliceQualificationConversionAllowed declared initType ||
    arrayToSliceConversionAllowed declared initType then true
  else if declared.isNullablePointer && initType.kind = .null then true
  else if initType.kind = .untypedInt then
    declared.kind.isConcreteInteger || declared.kind.isConcreteFloat
  else if initType.kind = .untypedFloat then declared.kind.isConcreteFloat
  else false

end Coglet.Ty
