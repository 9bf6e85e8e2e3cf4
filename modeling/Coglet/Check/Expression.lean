import Coglet.Const.Eval

namespace Coglet

variable {κ : Type}

abbrev Checked (κ : Type) := Demand κ ConstValue Diagnostic

-- Optional constant folding: an expression that can not be evaluated is left for run time.
def tryEvalConstExpr (ctx : Context κ) (e : Expr) : Checked κ (Option ConstValue) :=
  (evalConstExpr ctx true e).probe

def requireValue (type : Ty) : Checked κ Ty :=
  if type.kind = .void then .error "expression does not produce a value" else pure type

def concretizeInferredType (ctx : Context κ) (e : Expr) (type : Ty) : Checked κ Ty := do
  if type.kind = .null then
    .error "cannot infer a concrete pointer type from null"
  else if !type.isUntypedNumeric then
    pure type
  else
    match ← (evalConstExpr ctx true e).attempt with
    | none => .error "cannot infer a concrete type from a non-constant untyped expression"
    | some value =>
      (Folded.ofOption "could not determine a default concrete numeric type"
        value.defaultConcreteType).lift

def checkConstantValueAgainstType (ctx : Context κ) (e : Expr) (target : Ty)
    (integerRangeMessage floatRangeMessage : Diagnostic) : Checked κ Unit := do
  match ← tryEvalConstExpr ctx e with
  | none => pure ()
  | some value =>
    let _ ← (value.coerceToType target integerRangeMessage floatRangeMessage).lift
    pure ()

def checkUntypedOperand (ctx : Context κ) (operand : Expr) (type operationType : Ty)
    (integerRangeMessage floatRangeMessage : Diagnostic) : Checked κ Unit :=
  if type.isUntypedNumeric then
    checkConstantValueAgainstType ctx operand operationType integerRangeMessage floatRangeMessage
  else pure ()

-- A failed probe of an operation can mean that it depends on run time or that a constant operation is
-- invalid. In the latter case it is evaluated again for the sake of the diagnostic.
def diagnoseConstantOperation (ctx : Context κ) (node left right : Expr) : Checked κ Unit := do
  if (← tryEvalConstExpr ctx left).isSome then
    if (← tryEvalConstExpr ctx right).isSome then
      let _ ← evalConstExpr ctx true node

-- The operands of a binary operation, one of which might only be known at run time. Returns the type
-- of the constant that the operation has been folded to, or else the type of the operation.
def checkBinaryConstantOperands (ctx : Context κ) (node left right : Expr)
    (leftType rightType operationType : Ty) (integerRangeMessage floatRangeMessage : Diagnostic) :
    Checked κ Ty := do
  match ← tryEvalConstExpr ctx node with
  | some value => pure value.type
  | none => do
    diagnoseConstantOperation ctx node left right
    checkUntypedOperand ctx left leftType operationType integerRangeMessage floatRangeMessage
    checkUntypedOperand ctx right rightType operationType integerRangeMessage floatRangeMessage
    pure operationType

def checkKnownIntegerDivisor (ctx : Context κ) (operation : ArithmeticOperation) (divisor : Expr)
    (operationType : Ty) : Checked κ Unit := do
  match operation with
  | .checked _ => pure ()
  | .division operation =>
    if !operationType.isInteger then
      pure ()
    else
      match ← tryEvalConstExpr ctx divisor with
      | none => pure ()
      | some _ =>
        match (← evalConstExpr ctx true divisor).payload with
        | .int i =>
          if i.magnitude ≠ 0 then pure ()
          else .error (if operation = .slash then "division by zero" else "remainder by zero")
        | _ => pure ()

def checkKnownShiftCount (ctx : Context κ) (count : Expr) (leftType : Ty) : Checked κ Unit := do
  match leftType.kind.integerBitWidth with
  | none => pure ()
  | some width =>
    match ← tryEvalConstExpr ctx count with
    | none => pure ()
    | some value =>
      match value.payload with
      | .int i =>
        match i.classifyShiftCount width with
        | .negative   => .error "shift count cannot be negative"
        | .outOfRange => .error "shift count must be less than left operand bit width"
        | .valid _    => pure ()
      | _ => .error "shift count must be integer"

-- The type of an operation that is folded if its operand is known.
def foldedType (ctx : Context κ) (node : Expr) (operand : Ty) : Checked κ Ty := do
  match ← tryEvalConstExpr ctx node with
  | some constant => pure constant.type
  | none          => pure operand

def checkUnary (ctx : Context κ) (node : Expr) (operation : UnaryOperation) (operand : Ty) :
    Checked κ Ty :=
  match operation with
  | .minus =>
    match operand with
    | .struct id => .error ("unary operator '-' is not defined for " ++ ctx.structName id)
    | _ =>
      if !operand.isNumeric then .error "unary '-' requires numeric operand"
      else if operand.kind.isUnsignedInteger then
        .error "unary '-' cannot be applied to an unsigned value"
      else foldedType ctx node operand
  | .tilde =>
    if !operand.isInteger then .error "unary '~' requires integer operand"
    else foldedType ctx node operand
  | .bang =>
    if operand.kind ≠ .bool then .error "unary '!' requires boolean operand"
    else pure .bool

def ArithmeticOperation.spelling : ArithmeticOperation → String
  | checked .plus     => "+"
  | checked .minus    => "-"
  | checked .star     => "*"
  | division .slash   => "/"
  | division .percent => "%"

-- The operators that a struct may define. A use of one that is defined is a call of a method.
def overloadedOperator : BinaryOperation → Ty → Option (ArithmeticOperation × StructId)
  | .arithmetic (.division .percent), _          => none
  | .arithmetic op,                   .struct id => some (op, id)
  | _, _                                         => none

def checkArithmetic (ctx : Context κ) (node left right : Expr) (operation : ArithmeticOperation)
    (leftType rightType : Ty) : Checked κ Ty := do
  if !leftType.isNumeric then .error "left operand must be numeric"
  else if !rightType.isNumeric then .error "right operand must be numeric"
  else if operation = .division .percent && (!leftType.isInteger || !rightType.isInteger) then
    .error "'%' requires integer operands"
  else
    match leftType.commonNumericType rightType with
    | none =>
      if !leftType.isUntypedNumeric && !rightType.isUntypedNumeric && !leftType.typeEqual rightType then
        .error "operands are different numeric types -- use an explicit cast"
      else .error "could not determine numeric result type"
    | some result =>
      let result ← checkBinaryConstantOperands ctx node left right leftType rightType result
        "integer constant operand does not fit operation type"
        "floating-point constant operand does not fit operation type"
      checkKnownIntegerDivisor ctx operation right result
      pure result

def checkBitwise (ctx : Context κ) (node left right : Expr) (leftType rightType : Ty) :
    Checked κ Ty :=
  if !leftType.isInteger then .error "left operand of bitwise operator must be integer"
  else if !rightType.isInteger then .error "right operand of bitwise operator must be integer"
  else
    match leftType.commonIntegerType rightType with
    | none =>
      .error "bitwise operands have incompatible integer types -- use an explicit cast"
    | some result =>
      checkBinaryConstantOperands ctx node left right leftType rightType result
        "integer constant operand does not fit operation type"
        "bitwise operators do not accept floating-point operands"

def concretizeUntypedInt (ctx : Context κ) (e : Expr) (type : Ty) : Checked κ Ty :=
  if type.kind = .untypedInt then concretizeInferredType ctx e type else pure type

-- A shift that is not constant as a whole can not retain an untyped result, so the left operand
-- receives its default type.
def shiftResultType (ctx : Context κ) (left : Expr) (leftType : Ty) : Checked κ Ty := do
  match ← (concretizeUntypedInt ctx left leftType).attempt with
  | some result =>
    if result.kind.isConcreteInteger then pure result
    else .error "could not determine shift result type"
  | none => .error "could not determine shift result type"

def checkShift (ctx : Context κ) (node left right : Expr) (leftType rightType : Ty) : Checked κ Ty := do
  if !leftType.isInteger then .error "left operand of shift operator must be integer"
  else if !rightType.isInteger then .error "right operand of shift operator must be integer"
  else
    match ← tryEvalConstExpr ctx node with
    | some constant => pure constant.type
    | none => do
      let result ← shiftResultType ctx left leftType
      checkKnownShiftCount ctx right result
      let _ ← concretizeUntypedInt ctx right rightType
      pure result

def checkNumericComparison (ctx : Context κ) (node left right : Expr) (leftType rightType : Ty) :
    Checked κ Ty := do
  match leftType.commonNumericType rightType with
  | none => .error "comparison operands have incompatible numeric types"
  | some common =>
    let _ ← checkBinaryConstantOperands ctx node left right leftType rightType common
      "integer constant operand does not fit comparison type"
      "floating-point constant operand does not fit comparison type"
    pure .bool

def checkComparison (ctx : Context κ) (node left right : Expr) (operation : ComparisonOperation)
    (leftType rightType : Ty) : Checked κ Ty :=
  if operation.isEquality then
    if leftType.kind = .null && rightType.kind = .null then
      .error "cannot compare null without a pointer type"
    else if leftType.isPointerNullPair rightType then
      pure .bool
    else if leftType.kind = .null || rightType.kind = .null then
      .error "null may only be compared with a pointer"
    else if leftType.isNumeric && rightType.isNumeric then
      checkNumericComparison ctx node left right leftType rightType
    else if !(leftType.typeEqual rightType || leftType.pointerIdentityEqualIgnoringQualifiers rightType) then
      .error "comparison type mismatch"
    else if !leftType.isEqualityComparable || !rightType.isEqualityComparable then
      .error "type does not support equality comparison"
    else
      pure .bool
  else
    if !leftType.isNumeric || !rightType.isNumeric then
      .error "ordered comparison requires numeric operands"
    else
      checkNumericComparison ctx node left right leftType rightType

def checkBinary (ctx : Context κ) (node left right : Expr) (operation : BinaryOperation)
    (leftType rightType : Ty) : Checked κ Ty :=
  match operation with
  | .arithmetic op => checkArithmetic ctx node left right op leftType rightType
  | .bitwise _     => checkBitwise ctx node left right leftType rightType
  | .shift _       => checkShift ctx node left right leftType rightType
  | .comparison op => checkComparison ctx node left right op leftType rightType

-- A cast whose source is known is carried out by the evaluator, even if its result is discarded. A
-- closed enum can not be constructed at run time.
def checkCheckedCast (ctx : Context κ) (node source : Expr) (target sourceType : Ty) : Checked κ Ty := do
  if !target.isAllowedExplicitCast sourceType then
    .error "invalid explicit cast"
  else
    match ← tryEvalConstExpr ctx source with
    | none =>
      if target.kind = .enum && sourceType.isInteger then
        .error "runtime integer-to-enum cast is not supported"
      else pure target
    | some _ =>
      let _ ← evalConstExpr ctx true node
      pure target

def checkTruncatingCast (ctx : Context κ) (node source : Expr) (target sourceType : Ty) :
    Checked κ Ty := do
  if !sourceType.isInteger then
    .error "truncate source must be an integer"
  else
    match ← tryEvalConstExpr ctx source with
    | none => pure target
    | some _ =>
      let _ ← evalConstExpr ctx true node
      pure target

def checkReinterpret (target sourceType : Ty) : Checked κ Ty :=
  if !target.isRawPointer || !sourceType.isRawPointer then
    .error "reinterpret requires raw pointer source and target types"
  else if sourceType.pointerAccess = .readonly && target.pointerAccess = .mutable then
    .error "reinterpret cannot discard readonly pointer access"
  else if sourceType.pointerIsVolatile && !target.pointerIsVolatile then
    .error "reinterpret cannot discard volatile pointer access"
  else if !target.reinterpretPointerConversionAllowed sourceType then
    .error "reinterpret must cross between typed and opaque raw pointers"
  else
    pure target

def resolveCastTarget (target : TypeRef) (message : Diagnostic) : Checked κ Ty :=
  match target with
  | .ok type => pure type.type
  | .error m => .report m (.error message)

def checkIfBranches (thenType elseType : Ty) : Checked κ Ty :=
  if thenType.typeEqual elseType then pure thenType
  else if thenType.isNumeric && elseType.isNumeric then
    (Folded.ofOption "if expression branches have incompatible types"
      (thenType.commonNumericType elseType)).lift
  else if thenType.initializerCompatible elseType then pure thenType
  else if elseType.initializerCompatible thenType then pure elseType
  else .error "if expression branches have incompatible types"

def wrappingTypeResult (builtin : Name) (plural : Bool) : WrappingBuiltinTypeStatus → Checked κ Ty
  | .valid type => pure type
  | .requiresConcreteInteger =>
    .error ("builtin '" ++ builtin ++ "' requires " ++
      if plural then "concrete integer arguments" else "a concrete integer argument")
  | .mismatchedArguments =>
    .error ("builtin '" ++ builtin ++ "' requires arguments of the same integer type")

def LayoutBuiltin.name : LayoutBuiltin → Name
  | sizeOf  => "size_of"
  | alignOf => "align_of"

-- The type of an expression, after every diagnostic about it has been reported.
def checkExpression (ctx : Context κ) : Expr → Checked κ Ty
  | .number _ => pure .untypedInt
  | .float _  => pure .untypedFloat
  | .bool _   => pure .bool
  | .null     => pure .null
  | .ident name =>
    match ctx.lookup name with
    | none => .error ("undefined identifier '" ++ name ++ "'")
    | some .builtin => .error ("builtin '" ++ name ++ "' can only be used as a call target")
    | some .typeName => .error ("type name cannot be used as a value '" ++ name ++ "'")
    | some .genericFunction =>
      .error ("generic function '" ++ name ++ "' can only be used as a call target")
    | some (.function type isOverloaded) =>
      if isOverloaded then
        .error ("overloaded function '" ++ name ++ "' can only be used as a call target")
      else pure type.type
    | some (.constant c) => return (← .require c).type
    | some (.variable type) => pure type.type
  | .field path =>
    match ctx.lookupField path with
    | .target _               => pure .u64
    | .enumMember i _         => pure (.enum i)
    | .unknownEnumMember name => .error ("unknown enum member '" ++ name ++ "'")
    | .constant c             => return (← .require c).type
    | .unresolved message     => .error message
    | .value type             => pure type.type
  | .unary operation operand => do
    let operandType ← checkExpression ctx operand >>= requireValue
    checkUnary ctx (.unary operation operand) operation operandType
  | .logical _ left right => do
    let leftType ← checkExpression ctx left >>= requireValue
    -- The right operand is checked even if the left one turns out not to be a boolean.
    let rightType ← (checkExpression ctx right >>= requireValue).attempt
    if leftType.kind = .bool then
      let _ ← tryEvalConstExpr ctx left
    if leftType.kind ≠ .bool then .error "left operand must be boolean"
    else
      match rightType with
      | none => .fail
      | some rightType =>
        if rightType.kind ≠ .bool then .error "right operand must be boolean"
        else pure .bool
  | .binary operation left right => do
    let leftType ← checkExpression ctx left >>= requireValue
    match overloadedOperator operation leftType with
    | some (op, id) => .error ("operator '" ++ op.spelling ++ "' is not defined for " ++ ctx.structName id)
    | none =>
      let rightType ← checkExpression ctx right >>= requireValue
      checkBinary ctx (.binary operation left right) left right operation leftType rightType
  | .cast .checked target source => do
    let target' ← resolveCastTarget target "could not resolve cast target type"
    if target'.kind = .void then .error "cannot cast to void"
    else
      let sourceType ← checkExpression ctx source >>= requireValue
      checkCheckedCast ctx (.cast .checked target source) source target' sourceType
  | .cast .truncating target source => do
    let target' ← resolveCastTarget target "could not resolve truncate target type"
    if !target'.kind.isConcreteInteger then .error "truncate target must be a concrete integer type"
    else
      let sourceType ← checkExpression ctx source >>= requireValue
      checkTruncatingCast ctx (.cast .truncating target source) source target' sourceType
  | .cast .reinterpret target source => do
    let target' ← resolveCastTarget target "could not resolve reinterpret target type"
    let sourceType ← checkExpression ctx source >>= requireValue
    checkReinterpret target' sourceType
  | .wrappingBinary builtin left right => do
    let leftType ← (checkExpression ctx left >>= requireValue).attempt
    let rightType ← (checkExpression ctx right >>= requireValue).attempt
    match leftType, rightType with
    | some leftType, some rightType =>
      wrappingTypeResult builtin.name true (classifyWrappingBinaryTypes leftType rightType)
    | _, _ => .fail
  | .wrappingNeg argument => do
    let type ← checkExpression ctx argument >>= requireValue
    wrappingTypeResult "wrapping_neg" false (classifyWrappingNegType type)
  | .builtinArity builtin expected actual =>
    .error (arityMessage builtin expected actual)
  | .layout builtin queried => do
    let type ← queried.resolve
    match ctx.layout builtin type with
    | .ok _    => pure .u64
    | .error m => .error ("builtin '" ++ builtin.name ++ "' " ++ m)
  | .ifExpr condition thenValue elseValue => do
    let conditionType ← checkExpression ctx condition >>= requireValue
    if conditionType.kind ≠ .bool then
      .error "if expression condition must be a boolean expression"
    else
      let thenType ← (checkExpression ctx thenValue >>= requireValue).attempt
      let elseType ← (checkExpression ctx elseValue >>= requireValue).attempt
      match thenType, elseType with
      | some thenType, some elseType => checkIfBranches thenType elseType
      | _, _ => .fail
  | .runtime type => pure type.type

def checkValueExpression (ctx : Context κ) (e : Expr) : Checked κ Ty :=
  checkExpression ctx e >>= requireValue

def Expr.isIf : Expr → Bool
  | ifExpr .. => true
  | _         => false

def integerDestinationMessage : Diagnostic :=
  "integer constant does not fit destination type"

def floatDestinationMessage : Diagnostic :=
  "floating-point constant does not fit destination type"

-- The branches of an if-expression are adapted to a destination one by one. The types of the branches
-- are those that have been recorded when they were checked.
def contextualizeIfExpressionValue (ctx : Context κ) (target : Ty) : Expr → Checked κ Unit
  | .ifExpr _ thenValue elseValue => do
    contextualizeIfExpressionValue ctx target thenValue
    contextualizeIfExpressionValue ctx target elseValue
  | e => do
    match ← (checkExpression ctx e).probe with
    | none => .fail
    | some source =>
      if !target.initializerCompatible source then .fail
      else checkConstantValueAgainstType ctx e target integerDestinationMessage floatDestinationMessage

def Expr.isIntegerZero : Expr → Bool
  | number m => m = 0
  | _        => false

def checkInitializerAgainstType (ctx : Context κ) (expected : Ty) (e : Expr) : Checked κ Unit := do
  let actual ← checkValueExpression ctx e
  if !expected.initializerCompatible actual then
    if expected.isNullablePointer && e.isIntegerZero then
      .error "integer zero is not a pointer; use null"
    else .error "initializer type does not match declared type"
  else do
    if e.isIf then contextualizeIfExpressionValue ctx expected e else pure ()
    checkConstantValueAgainstType ctx e expected integerDestinationMessage floatDestinationMessage

-- Where the value of an expression goes: nowhere, into a variable whose type is inferred from it, or
-- to a destination whose type is known.
inductive Destination
  | statement
  | inferred
  | typed (expected : Ty)

def checkDestination (ctx : Context κ) (e : Expr) : Destination → Checked κ Unit
  | .statement => do
    let _ ← checkExpression ctx e
  | .inferred => do
    let type ← checkValueExpression ctx e
    let _ ← concretizeInferredType ctx e type
  | .typed expected => checkInitializerAgainstType ctx expected e

end Coglet
