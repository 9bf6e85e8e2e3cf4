import Coglet.Types.Conversion

namespace Coglet

abbrev Diagnostic := String

-- The result of a helper of the constant evaluator: a value, failure after the given diagnostic has
-- been reported, or a failing assertion, which aborts the compiler.
inductive Folded (α : Type)
  | ok (a : α)
  | error (message : Diagnostic)
  | assertion
deriving DecidableEq, Repr

namespace Folded

def bind : Folded α → (α → Folded β) → Folded β
  | ok a,      f => f a
  | error m,   _ => error m
  | assertion, _ => assertion

instance : Monad Folded where
  pure := ok
  bind := bind

def ofOption (message : Diagnostic) : Option α → Folded α
  | some a => ok a
  | none   => error message

def require (condition : Bool) (message : Diagnostic) : Folded Unit :=
  if condition then ok () else error message

@[simp]
theorem ok_bind (f : α → Folded β) : (ok a >>= f) = f a :=
  rfl

@[simp]
theorem error_bind (f : α → Folded β) : (error m >>= f) = error m :=
  rfl

@[simp]
theorem ofOption_some : ofOption m (some a) = ok a :=
  rfl

@[simp]
theorem ofOption_none : ofOption m (none : Option α) = error m :=
  rfl

end Folded

inductive Payload (ι : Type)
  | int (value : ι)
  | float (value : Float)
  | bool (value : Bool)
  | null
deriving Repr

-- A typed constant whose integers are drawn from `ι`.
structure Constant (ι : Type) where
  type    : Ty
  payload : Payload ι
deriving Repr

abbrev ConstValue := Constant IntegerValue

def f32Max : Float :=
  340282346638528859811704183484516925440.0

def roundFloatForType (value : Float) (kind : TypeKind) : Option Float :=
  let kind := if kind = .untypedFloat then .f64 else kind
  if kind = .f32 then
    if value.isFinite && (value > f32Max || value < -f32Max) then none
    else some value.toFloat32.toFloat
  else if kind = .f64 then some value
  else none

namespace IntegerValue

def toFloat (value : IntegerValue) : Float :=
  let result := (UInt64.ofBitVec value.magnitude).toFloat
  if value.isNegative then -result else result

-- Converts the exact magnitude directly, since a detour over `f64` could round twice.
def toFloat32 (value : IntegerValue) : Float32 :=
  let converted := (UInt64.ofBitVec value.magnitude).toFloat32
  if value.isNegative then -converted else converted

end IntegerValue

inductive CheckedFloatToIntegerCastStatus
  | valid (value : IntegerValue)
  | nonFinite
  | outOfRange
deriving DecidableEq, Repr

-- Truncates finite values toward zero.
def classifyCheckedFloatToIntegerCast (source : Float) (targetKind : TypeKind) :
    CheckedFloatToIntegerCastStatus :=
  if !source.isFinite then .nonFinite
  else
    let isNegative := source < 0.0
    let magnitude := if isNegative then -source else source
    if magnitude ≥ 18446744073709551616.0 then .outOfRange
    else
      let value := IntegerValue.make magnitude.toUInt64.toBitVec isNegative
      match value.classifyCheckedCast targetKind with
      | .valid      => .valid value
      | .outOfRange => .outOfRange

def TypeKind.defaultNumericOperationRank : TypeKind → Nat
  | s8  | u8  => 1
  | s16 | u16 => 2
  | s32 | u32 => 3
  | s64 | u64 => 4
  | f32       => 5
  | f64       => 6
  | _         => 0

-- The concrete kind with which an operation on two operands of the given default kinds is evaluated.
def TypeKind.operationKindOfDefaults (leftKind rightKind : TypeKind) : Option TypeKind :=
  let leftRank := leftKind.defaultNumericOperationRank
  let rightRank := rightKind.defaultNumericOperationRank
  if leftRank = 0 || rightRank = 0 then none
  else if leftRank ≠ rightRank then some (if leftRank > rightRank then leftKind else rightKind)
  else if leftKind = u64 || rightKind = u64 then some u64
  else some leftKind

namespace ConstValue

def toFloatType (value : ConstValue) (targetKind : TypeKind) : Option Float :=
  if !targetKind.isFloat then none
  else
    match value.payload with
    | .int i =>
      if targetKind = .f32 then
        if i.toFloat32.isFinite then some i.toFloat32.toFloat else none
      else
        if i.toFloat.isFinite then some i.toFloat else none
    | .float f => roundFloatForType f targetKind
    | .bool _ | .null => none

def defaultNumericKind (value : ConstValue) : Option TypeKind :=
  if !value.type.isUntypedNumeric then
    if value.type.kind.isConcreteInteger || value.type.kind.isConcreteFloat then some value.type.kind
    else none
  else
    match value.payload with
    | .int i   => i.defaultIntegerKind
    | .float _ => some .f64
    | .bool _ | .null => none

def numericOperationKind (left right : ConstValue) (commonType : Ty) : Option TypeKind :=
  if commonType.kind.isConcreteInteger || commonType.kind.isConcreteFloat then some commonType.kind
  else if !commonType.isUntypedNumeric then none
  else do
    let leftKind ← left.defaultNumericKind
    let rightKind ← right.defaultNumericKind
    TypeKind.operationKindOfDefaults leftKind rightKind

end ConstValue

def TypeKind.builtinType : TypeKind → Option Ty
  | void => some .void | bool => some .bool
  | s8 => some .s8 | s16 => some .s16 | s32 => some .s32 | s64 => some .s64
  | u8 => some .u8 | u16 => some .u16 | u32 => some .u32 | u64 => some .u64
  | f32 => some .f32 | f64 => some .f64
  | null => some .null
  | _ => none

-- The type that a constant receives where nothing else determines one. There is none for `null`.
def ConstValue.defaultConcreteType (value : ConstValue) : Option Ty :=
  if !value.type.isUntypedNumeric then
    if value.type.kind = .null then none else some value.type
  else
    match value.payload with
    | .int i   => i.defaultIntegerKind.bind TypeKind.builtinType
    | .float _ => some .f64
    | .bool _  => some .bool
    | .null    => none

-- Gives a constant a type that its own type has been found compatible with.
def ConstValue.tryCoerceToType (value : ConstValue) (target : Ty) : Option ConstValue :=
  if target.isInteger then
    match value.payload with
    | .int i => if i.fitsType target.kind then some { type := target, payload := .int i } else none
    | _      => none
  else if target.kind.isFloat then
    (value.toFloatType target.kind).map fun f => { type := target, payload := .float f }
  else
    some { type := target, payload := value.payload }

def ConstValue.coerceToType (value : ConstValue) (target : Ty)
    (integerRangeMessage floatRangeMessage : Diagnostic) : Folded ConstValue :=
  .ofOption (if target.kind.isFloat then floatRangeMessage else integerRangeMessage)
    (value.tryCoerceToType target)

def integerConstantResult (resultType : Ty) (operationKind : TypeKind) (value : IntegerValue) :
    Folded ConstValue :=
  if !resultType.isInteger || !operationKind.isConcreteInteger then
    .error "integer constant expression has no integer operation type"
  else if !value.fitsType operationKind ||
    (resultType.kind = .untypedInt && !value.fitsType .untypedInt) then
    .error "integer overflow in constant expression"
  else
    .ok { type := resultType, payload := .int value }

def floatConstantResult (resultType : Ty) (operationKind : TypeKind) (value : Float) :
    Folded ConstValue :=
  if !resultType.kind.isFloat || !operationKind.isConcreteFloat then
    .error "floating-point overflow in constant expression"
  else
    match roundFloatForType value operationKind with
    | none         => .error "floating-point overflow in constant expression"
    | some rounded => .ok { type := resultType, payload := .float rounded }

inductive ArithmeticOperation
  | checked (operation : CheckedOperation)
  | division (operation : DivisionOperation)
deriving DecidableEq, Repr

inductive FloatOperation
  | plus | minus | star | slash
deriving DecidableEq, Repr

-- There is no remainder of floating-point numbers.
def ArithmeticOperation.toFloat : ArithmeticOperation → Option FloatOperation
  | checked .plus     => some .plus
  | checked .minus    => some .minus
  | checked .star     => some .star
  | division .slash   => some .slash
  | division .percent => none

def FloatOperation.onFloat : FloatOperation → Float → Float → Float
  | plus,  x, y => x + y
  | minus, x, y => x - y
  | star,  x, y => x * y
  | slash, x, y => x / y

def FloatOperation.onFloat32 : FloatOperation → Float32 → Float32 → Float32
  | plus,  x, y => x + y
  | minus, x, y => x - y
  | star,  x, y => x * y
  | slash, x, y => x / y

def evalFloatBinaryOperation (operation : FloatOperation) (resultType : Ty)
    (operationKind : TypeKind) (left right : ConstValue) : Folded ConstValue :=
  if !resultType.kind.isFloat || !operationKind.isConcreteFloat then
    .error "floating-point constant expression has no floating-point operation type"
  else
    match left.toFloatType operationKind, right.toFloatType operationKind with
    | some x, some y =>
      -- Operations on `f32` are performed at that precision, rather than being rounded afterward.
      floatConstantResult resultType operationKind <|
        if operationKind = .f32 then (operation.onFloat32 x.toFloat32 y.toFloat32).toFloat
        else operation.onFloat x y
    | _, _ => .error "floating-point constant operand does not fit operation type"

inductive ComparisonOperation
  | equal | notEqual | less | lessEqual | greater | greaterEqual
deriving DecidableEq, Repr

namespace ComparisonOperation

def isEquality : ComparisonOperation → Bool
  | equal | notEqual => true
  | _ => false

def ofOrdering : ComparisonOperation → Ordering → Bool
  | equal,        o => o = .eq
  | notEqual,     o => o ≠ .eq
  | less,         o => o = .lt
  | lessEqual,    o => o ≠ .gt
  | greater,      o => o = .gt
  | greaterEqual, o => o ≠ .lt

-- Unordered operands satisfy no comparison but `!=`, so there is no three-way comparison.
def onFloat : ComparisonOperation → Float → Float → Bool
  | equal,        x, y => x == y
  | notEqual,     x, y => x != y
  | less,         x, y => x < y
  | lessEqual,    x, y => x ≤ y
  | greater,      x, y => x > y
  | greaterEqual, x, y => x ≥ y

end ComparisonOperation

def boolConstant (value : Bool) : Constant ι where
  type    := .bool
  payload := .bool value

def evalConstComparison (operation : ComparisonOperation) (left right : ConstValue) :
    Folded ConstValue :=
  if left.type.isNumeric && right.type.isNumeric then
    match (left.type.commonNumericType right.type).bind (left.numericOperationKind right) with
    | none => .error "comparison operands have incompatible numeric types"
    | some operationKind =>
      if operationKind.isConcreteInteger then
        match left.payload, right.payload with
        | .int x, .int y =>
          if x.fitsType operationKind && y.fitsType operationKind then
            .ok (boolConstant (operation.ofOrdering (x.compare y)))
          else .error "integer constant operand does not fit comparison type"
        | _, _ => .error "integer constant operand does not fit comparison type"
      else if operationKind.isConcreteFloat then
        match left.toFloatType operationKind, right.toFloatType operationKind with
        | some x, some y => .ok (boolConstant (operation.onFloat x y))
        | _, _ => .error "floating-point comparison operand does not fit comparison type"
      else .error "floating-point comparison operand does not fit comparison type"
  else
    match left.payload, right.payload with
    | .bool x, .bool y =>
      if operation.isEquality then
        .ok (boolConstant (operation.ofOrdering (if x = y then .eq else if x then .gt else .lt)))
      else .error "ordered comparison requires numeric constants"
    | .null, .null =>
      if operation.isEquality then .ok (boolConstant (operation.ofOrdering .eq))
      else .error "ordered comparison requires numeric constants"
    | .int x, .int y =>
      if left.type.kind = .enum && left.type.typeEqual right.type && operation.isEquality then
        .ok (boolConstant (operation.ofOrdering (x.compare y)))
      else .error "comparison operands are not compatible constants"
    | _, _ => .error "comparison operands are not compatible constants"

inductive UnaryOperation
  | minus | tilde | bang
deriving DecidableEq, Repr

-- The mathematical result is needed in order to select the provisional kind of an untyped operand,
-- so that `-9223372036854775808` is evaluated as an `s64`.
def negationKind (type : Ty) (operand : IntegerValue) : Folded TypeKind :=
  if type.kind = .untypedInt then
    .ofOption "integer overflow in constant expression" operand.negated.defaultIntegerKind
  else if type.kind.isSignedInteger then .ok type.kind
  else .error "integer constant expression has no integer type"

def evalUnaryMinus (operand : ConstValue) : Folded ConstValue :=
  match operand.payload with
  | .int i =>
    if operand.type.kind.isUnsignedInteger then
      .error "unary '-' cannot be applied to an unsigned value"
    else do
      let operationKind ← negationKind operand.type i
      match i.evaluateCheckedNegation operationKind with
      | .valid value => integerConstantResult operand.type operationKind value
      | .overflow    => .error "integer overflow in constant expression"
      | .assertion   => .assertion
  | .float f =>
    match operand.defaultNumericKind with
    | some operationKind =>
      if operationKind.isConcreteFloat then floatConstantResult operand.type operationKind (-f)
      else .error "floating-point constant expression has no floating-point type"
    | none => .error "floating-point constant expression has no floating-point type"
  | .bool _ | .null => .error "unary '-' requires a numeric constant"

def complementKind (type : Ty) (operand : IntegerValue) : Folded TypeKind :=
  if type.kind.isConcreteInteger then .ok type.kind
  else if type.kind = .untypedInt then
    .ofOption "integer constant expression has no integer operation type" operand.defaultIntegerKind
  else .error "unary '~' requires an integer constant"

def evalUnaryTilde (operand : ConstValue) : Folded ConstValue :=
  match operand.payload with
  | .int i => do
    let operationKind ← complementKind operand.type i
    let value ← Folded.ofOption "integer constant operand does not fit operation type"
      (i.bitwiseNot operationKind)
    integerConstantResult operand.type operationKind value
  | _ => .error "unary '~' requires an integer constant"

def evalUnaryBang (operand : ConstValue) : Folded ConstValue :=
  match operand.payload with
  | .bool b => .ok (boolConstant !b)
  | _       => .error "unary '!' requires a boolean constant"

def evalUnary : UnaryOperation → ConstValue → Folded ConstValue
  | .minus => evalUnaryMinus
  | .tilde => evalUnaryTilde
  | .bang  => evalUnaryBang

def evalBitwise (operation : BitwiseOperation) (left right : ConstValue) : Folded ConstValue :=
  match left.payload, right.payload with
  | .int x, .int y =>
    if !left.type.isInteger || !right.type.isInteger then
      .error "bitwise operators require integer constants"
    else
      match left.type.commonIntegerType right.type with
      | none => .error "constant operands have incompatible integer types"
      | some resultType =>
        match left.numericOperationKind right resultType with
        | none => .error "constant operands have incompatible integer types"
        | some operationKind =>
          if !operationKind.isConcreteInteger then
            .error "constant operands have incompatible integer types"
          else if !x.fitsType operationKind || !y.fitsType operationKind then
            .error "integer constant operand does not fit operation type"
          else do
            let value ← Folded.ofOption "integer constant expression has no integer operation type"
              (x.bitwise y operationKind operation)
            integerConstantResult resultType operationKind value
  | _, _ => .error "bitwise operators require integer constants"

-- The left operand alone determines the width and the signedness of a shift.
def shiftKind (type : Ty) (left : IntegerValue) : Folded TypeKind :=
  if type.kind.isConcreteInteger then .ok type.kind
  else if type.kind = .untypedInt then
    .ofOption "shift expression has no integer operation type" left.defaultIntegerKind
  else .error "shift expression has no integer operation type"

def evalShift (operation : ShiftOperation) (left right : ConstValue) : Folded ConstValue :=
  match left.payload, right.payload with
  | .int x, .int y =>
    if !left.type.isInteger then .error "left operand of shift must be an integer constant"
    else if !right.type.isInteger then .error "right operand of shift must be an integer constant"
    else do
      let operationKind ← shiftKind left.type x
      Folded.require (x.fitsType operationKind) "left operand does not fit shift operation type"
      let width ← Folded.ofOption "shift expression has no integer operation type"
        operationKind.integerBitWidth
      match y.classifyShiftCount width with
      | .negative   => .error "shift count cannot be negative"
      | .outOfRange => .error "shift count must be less than left operand bit width"
      | .valid count => do
        let value ← Folded.ofOption "could not evaluate integer shift"
          (x.shift operationKind operation count)
        integerConstantResult left.type operationKind value
  | .int _, _ => if !left.type.isInteger then .error "left operand of shift must be an integer constant"
                 else .error "right operand of shift must be an integer constant"
  | _, _ => .error "left operand of shift must be an integer constant"

def DivisionOperation.zeroDivisorMessage : DivisionOperation → Diagnostic
  | slash   => "division by zero in constant expression"
  | percent => "remainder by zero in constant expression"

-- The arithmetic of two operands that fit a concrete integer kind.
def evalIntegerArithmetic (operation : ArithmeticOperation) (left right : IntegerValue)
    (resultType : Ty) (operationKind : TypeKind) : Folded ConstValue :=
  match operation with
  | .checked op =>
    match IntegerValue.evaluateCheckedBinary op left right operationKind with
    | .valid value => integerConstantResult resultType operationKind value
    | .overflow    => .error "integer overflow in constant expression"
    | .assertion   => .assertion
  | .division op =>
    match left.classifyDivision right operationKind with
    | .valid          => integerConstantResult resultType operationKind (IntegerValue.divide op left right)
    | .zeroDivisor    => .error op.zeroDivisorMessage
    | .signedOverflow => .error "integer overflow in constant expression"

def evalArithmetic (operation : ArithmeticOperation) (left right : ConstValue) : Folded ConstValue :=
  if !left.type.isNumeric || !right.type.isNumeric then
    .error "operands must be numeric constants"
  else if operation = .division .percent && (!left.type.isInteger || !right.type.isInteger) then
    .error "'%' requires integer constants"
  else
    match left.type.commonNumericType right.type with
    | none => .error "constant operands have incompatible numeric types"
    | some resultType =>
      match left.numericOperationKind right resultType with
      | none => .error "constant operands have incompatible numeric types"
      | some operationKind =>
        let inexact :=
          match operation.toFloat with
          | none    => .error "'%' requires integer constants"
          | some op => evalFloatBinaryOperation op resultType operationKind left right
        match left.payload, right.payload with
        | .int x, .int y =>
          if operationKind.isConcreteInteger then
            if !x.fitsType operationKind || !y.fitsType operationKind then
              .error "integer constant operand does not fit operation type"
            else evalIntegerArithmetic operation x y resultType operationKind
          else inexact
        | _, _ => inexact

-- The operators that evaluate both of their operands.
inductive BinaryOperation
  | comparison (operation : ComparisonOperation)
  | bitwise (operation : BitwiseOperation)
  | shift (operation : ShiftOperation)
  | arithmetic (operation : ArithmeticOperation)
deriving DecidableEq, Repr

def evalBinary : BinaryOperation → ConstValue → ConstValue → Folded ConstValue
  | .comparison op => evalConstComparison op
  | .bitwise op    => evalBitwise op
  | .shift op      => evalShift op
  | .arithmetic op => evalArithmetic op

structure EnumInfo where
  name      : String
  backing   : TypeKind
  members   : List (String × IntegerValue)
  canonical : ∀ m ∈ members, m.2.Canonical

def EnumInfo.findMemberByValue (info : EnumInfo) (value : IntegerValue) : Bool :=
  info.members.any fun (_, v) => v.equal value

-- A type that an annotation of the source can denote. Untyped numbers and `null` have no spelling.
structure SourceType where
  type       : Ty
  notUntyped : type.isUntypedNumeric = false
  notNull    : type.kind ≠ .null

-- A cast to a pointer remains a null constant, but carries the type of the destination.
def castToPointer (target : Ty) : Payload IntegerValue → Folded ConstValue
  | .null => .ok { type := target, payload := .null }
  | _     => .error "pointer cast requires a null constant"

-- An enum is only constructed from the value of one of its members.
def castToEnum (info : EnumInfo) (target : Ty) : Payload IntegerValue → Folded ConstValue
  | .int i =>
    if !i.fitsType info.backing then .error "enum cast value does not fit in backing type"
    else if !info.findMemberByValue i then
      .error ("integer value is not a declared member of enum " ++ info.name)
    else .ok { type := target, payload := .int i }
  | _ => .error "enum cast requires an integer constant"

def castToInteger (target : Ty) (payload : Payload IntegerValue) : Folded ConstValue :=
  if !target.kind.isConcreteInteger then .assertion
  else
    match payload with
    | .int i =>
      match i.classifyCheckedCast target.kind with
      | .valid      => .ok { type := target, payload := .int i }
      | .outOfRange => .error "integer cast value does not fit in target type"
    | .float f =>
      match classifyCheckedFloatToIntegerCast f target.kind with
      | .valid i => .ok { type := target, payload := .int i }
      | .nonFinite | .outOfRange => .error "integer cast value does not fit in target type"
    | .bool _ | .null => .error "integer cast requires numeric constant"

def castToFloat (target : Ty) (value : ConstValue) : Folded ConstValue :=
  match value.toFloatType target.kind with
  | some f => .ok { type := target, payload := .float f }
  | none   => .error "float cast value does not fit in target type"

def castToBool (target : Ty) : Payload IntegerValue → Folded ConstValue
  | .bool b => .ok { type := target, payload := .bool b }
  | _       => .error "bool cast requires boolean constant"

def evalCheckedCast (enums : EnumId → EnumInfo) (target : Ty) (value : ConstValue) :
    Folded ConstValue :=
  if !target.isAllowedExplicitCast value.type then .error "invalid explicit cast"
  else
    match target with
    | .pointer .. | .opaquePointer .. => castToPointer target value.payload
    | .enum id => castToEnum (enums id) target value.payload
    | _ =>
      if target.isInteger then castToInteger target value.payload
      else if target.kind.isFloat then castToFloat target value
      else if target.kind = .bool then castToBool target value.payload
      else .error "invalid constant cast"

def evalTruncatingCast (target : Ty) (value : ConstValue) : Folded ConstValue :=
  if !target.kind.isConcreteInteger then .error "truncate target must be a concrete integer type"
  else
    match value.payload with
    | .int i => do
      let result ← Folded.ofOption "could not evaluate truncating integer conversion"
        (i.truncate target.kind)
      return { type := target, payload := .int result }
    | _ => .error "truncate source must be an integer"

inductive CastKind
  | checked | truncating | reinterpret
deriving DecidableEq, Repr

inductive WrappingBuiltinTypeStatus
  | valid (resultType : Ty)
  | requiresConcreteInteger
  | mismatchedArguments
deriving DecidableEq, Repr

def classifyWrappingBinaryTypes (left right : Ty) : WrappingBuiltinTypeStatus :=
  if !left.kind.isConcreteInteger || !right.kind.isConcreteInteger then .requiresConcreteInteger
  else if !left.typeEqual right then .mismatchedArguments
  else .valid left

def classifyWrappingNegType (argument : Ty) : WrappingBuiltinTypeStatus :=
  if !argument.kind.isConcreteInteger then .requiresConcreteInteger
  else .valid argument

def WrappingBuiltin.name : WrappingBuiltin → String
  | add => "wrapping_add"
  | sub => "wrapping_sub"
  | mul => "wrapping_mul"

def evalWrappingBinaryCall (builtin : WrappingBuiltin) (left right : ConstValue) : Folded ConstValue :=
  match classifyWrappingBinaryTypes left.type right.type with
  | .requiresConcreteInteger =>
    .error ("builtin '" ++ builtin.name ++ "' requires concrete integer arguments")
  | .mismatchedArguments =>
    .error ("builtin '" ++ builtin.name ++ "' requires arguments of the same integer type")
  | .valid resultType =>
    match left.payload, right.payload with
    | .int x, .int y => do
      let result ← Folded.ofOption "internal error: could not evaluate wrapping integer builtin"
        (IntegerValue.evaluateWrappingBinary builtin x y resultType.kind)
      integerConstantResult resultType resultType.kind result
    | _, _ => .assertion

def evalWrappingNegCall (operand : ConstValue) : Folded ConstValue :=
  match classifyWrappingNegType operand.type with
  | .requiresConcreteInteger | .mismatchedArguments =>
    .error "builtin 'wrapping_neg' requires a concrete integer argument"
  | .valid resultType =>
    match operand.payload with
    | .int x => do
      let result ← Folded.ofOption "internal error: could not evaluate wrapping integer builtin"
        (x.evaluateWrappingNegation resultType.kind)
      integerConstantResult resultType resultType.kind result
    | _ => .assertion

end Coglet
