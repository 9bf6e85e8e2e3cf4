import Coglet.Const.Value
import Coglet.Lib.Demand

namespace Coglet

abbrev Name := String

-- A type annotation, which is either resolved or rejected with a diagnostic.
abbrev TypeRef := Except Diagnostic SourceType

inductive LogicalOperation
  | andAnd | orOr
deriving DecidableEq, Repr

namespace LogicalOperation

-- Whether the left operand determines the result on its own.
def decidedBy : LogicalOperation → Bool → Bool
  | andAnd, left => !left
  | orOr,   left => left

def apply : LogicalOperation → Bool → Bool → Bool
  | andAnd, left, right => left && right
  | orOr,   left, right => left || right

end LogicalOperation

inductive LayoutBuiltin
  | sizeOf | alignOf
deriving DecidableEq, Repr

-- An expression as far as compile-time evaluation distinguishes it.
inductive Expr
  | number (magnitude : BitVec 64)
  | float (value : Float)
  | bool (value : Bool)
  | null
  | ident (name : Name)
  -- A dotted chain of names, such as an enum member or a module-qualified constant.
  | field (path : List Name)
  | unary (operation : UnaryOperation) (operand : Expr)
  | logical (operation : LogicalOperation) (left right : Expr)
  | binary (operation : BinaryOperation) (left right : Expr)
  | cast (kind : CastKind) (target : TypeRef) (expression : Expr)
  | wrappingBinary (builtin : WrappingBuiltin) (left right : Expr)
  | wrappingNeg (argument : Expr)
  -- A call of a builtin with the wrong number of arguments.
  | builtinArity (builtin : Name) (expected actual : Nat)
  | layout (builtin : LayoutBuiltin) (queried : TypeRef)
  | ifExpr (condition thenValue elseValue : Expr)
  -- Every other form: calls, dereferences, indexing and so on. They have a concrete type, and a value
  -- only at run time.
  | runtime (type : SourceType)

inductive Symbol (κ : Type)
  | constant (c : κ)
  | variable (type : SourceType)
  | function (type : SourceType) (isOverloaded : Bool)
  | genericFunction
  | typeName
  | builtin

-- What a dotted chain of names refers to.
inductive FieldSymbol (κ : Type)
  | target (value : BitVec 64)
  | enumMember (id : EnumId) (value : IntegerValue)
  | unknownEnumMember (name : Name)
  | constant (c : κ)
  | unresolved (message : Diagnostic)
  | value (type : SourceType)

-- The part of the semantic context that is in effect where an expression occurs. Constants are
-- identified by their declarations.
structure Context (κ : Type) where
  lookup      : Name → Option (Symbol κ)
  lookupField : List Name → FieldSymbol κ
  enums       : EnumId → EnumInfo
  structName  : StructId → Name
  layout      : LayoutBuiltin → Ty → Except Diagnostic (BitVec 64)
  isMember    : ∀ {path i v}, lookupField path = .enumMember i v → ∃ name, (name, v) ∈ (enums i).members

def Folded.lift : Folded α → Demand κ ν Diagnostic α
  | ok a      => .ret a
  | error m   => .error m
  | assertion => .abort

def TypeRef.resolve : TypeRef → Demand κ ν Diagnostic Ty
  | .ok type => .ret type.type
  | .error m => .error m

def arityMessage (builtin : Name) (expected actual : Nat) : Diagnostic :=
  "wrong number of arguments to builtin '" ++ builtin ++ "': expected " ++ toString expected ++
  ", got " ++ toString actual

def notConstantMessage : Diagnostic :=
  "expression is not a compile-time constant"

-- Evaluates an expression that must be known at compile time. The layout of a type is only known
-- once the expression has been checked.
def evalConstExpr (ctx : Context κ) (checked : Bool) :
    Expr → Demand κ ConstValue Diagnostic ConstValue
  | .number m => return { type := .untypedInt, payload := .int (.make m false) }
  | .float f  => return { type := .untypedFloat, payload := .float f }
  | .bool b   => return boolConstant b
  | .null     => return { type := .null, payload := .null }
  | .ident name =>
    match ctx.lookup name with
    | some (.constant c) => .require c
    | _                  => .error notConstantMessage
  | .field path =>
    match ctx.lookupField path with
    | .target value           => return { type := .u64, payload := .int (.make value false) }
    | .enumMember id value    => return { type := .enum id, payload := .int value }
    | .unknownEnumMember name => .error ("unknown enum member '" ++ name ++ "'")
    | .constant c             => .require c
    | .unresolved message     => .error message
    | .value _                => .error notConstantMessage
  | .unary operation operand => do
    let operand ← evalConstExpr ctx checked operand
    (evalUnary operation operand).lift
  | .logical operation left right => do
    let left ← evalConstExpr ctx checked left
    match left.payload with
    | .bool l =>
      if operation.decidedBy l then
        return boolConstant l
      else
        let right ← evalConstExpr ctx checked right
        match right.payload with
        | .bool r => return boolConstant (operation.apply l r)
        | _       => .error "operands must be boolean constants"
    | _ => .error "operands must be boolean constants"
  | .binary operation left right => do
    let left ← evalConstExpr ctx checked left
    let right ← evalConstExpr ctx checked right
    (evalBinary operation left right).lift
  | .cast .checked target expression => do
    let value ← evalConstExpr ctx checked expression
    let target ← target.resolve
    (evalCheckedCast ctx.enums target value).lift
  | .cast .truncating target expression => do
    let value ← evalConstExpr ctx checked expression
    let target ← target.resolve
    (evalTruncatingCast target value).lift
  | .cast .reinterpret _ _ =>
    .error "reinterpret is not a compile-time constant conversion"
  | .wrappingBinary builtin left right => do
    let left ← evalConstExpr ctx checked left
    let right ← evalConstExpr ctx checked right
    (evalWrappingBinaryCall builtin left right).lift
  | .wrappingNeg argument => do
    let argument ← evalConstExpr ctx checked argument
    (evalWrappingNegCall argument).lift
  | .builtinArity builtin expected actual =>
    .error (arityMessage builtin expected actual)
  | .layout builtin queried =>
    match checked, queried with
    | true, .ok type =>
      match ctx.layout builtin type.type with
      | .ok value => return { type := .u64, payload := .int (.make value false) }
      | .error _  => .error notConstantMessage
    | _, _ => .error notConstantMessage
  | .ifExpr .. | .runtime _ => .error notConstantMessage

end Coglet
