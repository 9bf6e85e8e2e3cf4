import Coglet.Const.Eval
import Coglet.Integer.Folding

open TwosComplement

namespace Coglet

-- The integers that an integer type contains. Untyped integers range over `s64` and `u64`.
def TypeKind.contains (kind : TypeKind) (z : Int) : Bool :=
  match kind.integerTypeInfo with
  | some info => InRange info.isSigned info.bitWidth z
  | none      => kind = .untypedInt && (-2 ^ 63 ≤ z && z < 2 ^ 64)

-- The first of `s32`, `s64` and `u64` that contains an integer.
def defaultIntegerKind (z : Int) : Option TypeKind :=
  [.s32, .s64, .u64].find? (·.contains z)

def IntegerValue.ofInt (z : Int) : IntegerValue :=
  make (BitVec.ofNat 64 z.natAbs) (z < 0)

-- What a constant means: integers are mathematical ones.
abbrev Meaning := Constant Int

namespace Constant

def map (f : ι → ι') (c : Constant ι) : Constant ι' where
  type    := c.type
  payload :=
    match c.payload with
    | .int i   => .int (f i)
    | .float x => .float x
    | .bool b  => .bool b
    | .null    => .null

end Constant

def ConstValue.meaning (value : ConstValue) : Meaning :=
  value.map IntegerValue.toInt

def Folded.meaning : Folded ConstValue → Option Meaning
  | ok value => some value.meaning
  | _        => none

namespace Meaning

def encode (m : Meaning) : ConstValue :=
  m.map IntegerValue.ofInt

def ofInt (type : Ty) (z : Int) : Meaning where
  type    := type
  payload := .int z

def defaultNumericKind (m : Meaning) : Option TypeKind :=
  if !m.type.isUntypedNumeric then
    if m.type.kind.isConcreteInteger || m.type.kind.isConcreteFloat then some m.type.kind else none
  else
    match m.payload with
    | .int z   => defaultIntegerKind z
    | .float _ => some .f64
    | .bool _ | .null => none

-- The concrete kind in which an operation is carried out.
def operationKind (a b : Meaning) (commonType : Ty) : Option TypeKind :=
  if commonType.kind.isConcreteInteger || commonType.kind.isConcreteFloat then some commonType.kind
  else if !commonType.isUntypedNumeric then none
  else do
    TypeKind.operationKindOfDefaults (← a.defaultNumericKind) (← b.defaultNumericKind)

-- The kind of an operation whose operand alone determines it.
def ownKind (type : Ty) (z : Int) : Option TypeKind :=
  if type.kind.isConcreteInteger then some type.kind
  else if type.kind = .untypedInt then defaultIntegerKind z
  else none

-- The operations on integers are those of mathematics, or of bit patterns of the width of the
-- operation's kind. The meaning of all other operations is taken from the evaluator.
section Operations

def minus (m : Meaning) : Option Meaning :=
  match m.payload with
  | .int z =>
    if (m.type.kind = .untypedInt || m.type.kind.isSignedInteger) && m.type.kind.contains (-z) then
      some (ofInt m.type (-z))
    else none
  | _ => (evalUnaryMinus m.encode).meaning

def tilde (m : Meaning) : Option Meaning := do
  match m.payload with
  | .int z =>
    let info ← (← ownKind m.type z).integerTypeInfo
    return ofInt m.type (decode info.isSigned (~~~(BitVec.ofInt info.bitWidth z)))
  | _ => none

def bang (m : Meaning) : Option Meaning :=
  match m.payload with
  | .bool b => some (boolConstant !b)
  | _       => none

def unary : UnaryOperation → Meaning → Option Meaning
  | .minus => minus
  | .tilde => tilde
  | .bang  => bang

def compare (op : ComparisonOperation) (a b : Meaning) : Option Meaning := do
  match a.payload, b.payload with
  | .int x, .int y =>
    if a.type.isNumeric && b.type.isNumeric then
      let kind ← a.operationKind b (← a.type.commonNumericType b.type)
      if kind.isConcreteInteger then
        guard (kind.contains x && kind.contains y)
        return boolConstant (op.ofOrdering (Ord.compare x y))
      else (evalConstComparison op a.encode b.encode).meaning
    else
      guard (a.type.kind = .enum && a.type = b.type && op.isEquality)
      return boolConstant (op.ofOrdering (Ord.compare x y))
  | _, _ => (evalConstComparison op a.encode b.encode).meaning

def bitwise (op : BitwiseOperation) (a b : Meaning) : Option Meaning := do
  match a.payload, b.payload with
  | .int x, .int y =>
    let type ← a.type.commonIntegerType b.type
    let kind ← a.operationKind b type
    let info ← kind.integerTypeInfo
    guard (kind.contains x && kind.contains y)
    return ofInt type
      (decode info.isSigned (op.onBits (BitVec.ofInt info.bitWidth x) (BitVec.ofInt info.bitWidth y)))
  | _, _ => none

def shift (op : ShiftOperation) (a b : Meaning) : Option Meaning := do
  match a.payload, b.payload with
  | .int x, .int y =>
    guard b.type.isInteger
    let info ← (← ownKind a.type x).integerTypeInfo
    guard (0 ≤ y && y < info.bitWidth)
    return ofInt a.type
      (decode info.isSigned (op.onBits info.isSigned (BitVec.ofInt info.bitWidth x) y.toNat))
  | _, _ => none

-- The exact result of an arithmetic operation, if it lies in the type of the operation. The remainder
-- of a signed minimum and `-1` does, but is rejected just like their quotient.
def exact (info : IntegerTypeInfo) : ArithmeticOperation → Int → Int → Option Int
  | .checked op, x, y =>
    if InRange info.isSigned info.bitWidth (op.exact x y) then some (op.exact x y) else none
  | .division op, x, y =>
    if IntegerValue.DivisionFails info x y then none else some (op.exact x y)

def arithmetic (op : ArithmeticOperation) (a b : Meaning) : Option Meaning := do
  match a.payload, b.payload with
  | .int x, .int y =>
    let type ← a.type.commonNumericType b.type
    let kind ← a.operationKind b type
    match kind.integerTypeInfo with
    | some info =>
      guard (kind.contains x && kind.contains y)
      return ofInt type (← exact info op x y)
    | none => (evalArithmetic op a.encode b.encode).meaning
  | _, _ => (evalArithmetic op a.encode b.encode).meaning

def binary : BinaryOperation → Meaning → Meaning → Option Meaning
  | .comparison op => compare op
  | .bitwise op    => bitwise op
  | .shift op      => shift op
  | .arithmetic op => arithmetic op

def checkedCast (enums : EnumId → EnumInfo) (target : Ty) (m : Meaning) : Option Meaning :=
  match m.payload with
  | .int z =>
    match target with
    | .enum e =>
      if target.isAllowedExplicitCast m.type && ((enums e).backing.contains z &&
        (enums e).members.any (·.2.toInt = z)) then some (ofInt target z)
      else none
    | _ =>
      if target.isInteger then
        if target.isAllowedExplicitCast m.type && target.kind.contains z then some (ofInt target z)
        else none
      else (evalCheckedCast enums target m.encode).meaning
  | _ => (evalCheckedCast enums target m.encode).meaning

def truncatingCast (target : Ty) (m : Meaning) : Option Meaning := do
  match m.payload with
  | .int z =>
    let info ← target.kind.integerTypeInfo
    return ofInt target (wrap info.isSigned info.bitWidth z)
  | _ => none

def wrappingBinary (builtin : WrappingBuiltin) (a b : Meaning) : Option Meaning := do
  match a.payload, b.payload with
  | .int x, .int y =>
    guard (a.type = b.type)
    let info ← a.type.kind.integerTypeInfo
    return ofInt a.type (wrap info.isSigned info.bitWidth (builtin.exact x y))
  | _, _ => none

def wrappingNeg (m : Meaning) : Option Meaning := do
  match m.payload with
  | .int z =>
    let info ← m.type.kind.integerTypeInfo
    return ofInt m.type (wrap info.isSigned info.bitWidth (-z))
  | _ => none

end Operations
end Meaning

-- The meaning of a constant expression, if it has one.
def denote (ctx : Context κ) (env : κ → Option Meaning) (checked : Bool) : Expr → Option Meaning
  | .number m => some (.ofInt .untypedInt m.toNat)
  | .float f  => some { type := .untypedFloat, payload := .float f }
  | .bool b   => some (boolConstant b)
  | .null     => some { type := .null, payload := .null }
  | .ident name =>
    match ctx.lookup name with
    | some (.constant c) => env c
    | _                  => none
  | .field path =>
    match ctx.lookupField path with
    | .target value        => some (.ofInt .u64 value.toNat)
    | .enumMember id value => some (.ofInt (.enum id) value.toInt)
    | .constant c          => env c
    | _                    => none
  | .unary operation operand => (denote ctx env checked operand).bind (Meaning.unary operation)
  | .logical operation left right => do
    match (← denote ctx env checked left).payload with
    | .bool l =>
      if operation.decidedBy l then return boolConstant l
      else
        match (← denote ctx env checked right).payload with
        | .bool r => return boolConstant (operation.apply l r)
        | _       => none
    | _ => none
  | .binary operation left right => do
    Meaning.binary operation (← denote ctx env checked left) (← denote ctx env checked right)
  | .cast .checked target expression => do
    let m ← denote ctx env checked expression
    Meaning.checkedCast ctx.enums (← target.toOption).type m
  | .cast .truncating target expression => do
    let m ← denote ctx env checked expression
    Meaning.truncatingCast (← target.toOption).type m
  | .wrappingBinary builtin left right => do
    Meaning.wrappingBinary builtin (← denote ctx env checked left) (← denote ctx env checked right)
  | .wrappingNeg argument => (denote ctx env checked argument).bind Meaning.wrappingNeg
  | .layout builtin queried => do
    guard checked
    let value ← (ctx.layout builtin (← queried.toOption).type).toOption
    return .ofInt .u64 value.toNat
  | .cast .reinterpret .. | .builtinArity .. | .ifExpr .. | .runtime _ => none

end Coglet
