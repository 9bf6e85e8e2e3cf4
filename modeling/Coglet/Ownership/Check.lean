import Coglet.Ownership.Flow

namespace Coglet.Ownership

-- Expressions as far as they concern variables, which are identified by the order of their declarations.
inductive Expr
  -- A value that is no resource and can be computed without any variable.
  | plain
  -- A boolean that is known at compile time.
  | known (value : Bool)
  | name (x : VariableId)
  -- A use of a variable that does not transfer its value, such as taking its address.
  | address (x : VariableId)
  | move (x : VariableId)
  -- A call of a function, a constructor or an operator, all of which evaluate operands from left to right.
  | call (arguments : List Expr) (returnsResource : Bool)
  | logical (operation : LogicalOperation) (left right : Expr)
  | ifExpr (condition thenValue elseValue : Expr)

namespace Expr

section

-- The variables whose type contains a resource.
variable (owns : VariableId → Bool)

def isResource : Expr → Bool
  | plain | known _ | address _ | logical .. => false
  | name x                 => owns x
  | move _                 => true
  | call _ returnsResource => returnsResource
  | ifExpr _ thenValue _   => thenValue.isResource

end

-- The category of an if-expression is that of a temporary, no matter what its branches are.
def isLvalue : Expr → Bool
  | name _ => true
  | _      => false

def compileTimeBool : Expr → Option Bool
  | known value => some value
  | logical operation left right => do
    let l ← left.compileTimeBool
    if operation.decidedBy l then return l
    else return operation.apply l (← right.compileTimeBool)
  | _ => none

end Expr

-- Statements without a body.
inductive Simple
  | assign (x : VariableId) (value : Expr)
  | expr (e : Expr)

inductive Stmt
  | simple (statement : Simple)
  | varDecl (x : VariableId) (initializer : Option Expr)
  | block (statements : List Stmt)
  | ifStmt (condition : Expr) (thenBranch : Stmt) (elseBranch : Option Stmt)
  | whileStmt (condition : Expr) (body : Stmt)
  | forStmt (condition : Option Expr) (body : Stmt) (post : Option Simple)
  | switchStmt (subject : Expr) (cases : List Stmt) (isExhaustive : Bool)
  | breakStmt
  | continueStmt
  | returnStmt (value : Option Expr)

inductive ReturnType
  | void | other | resource
deriving DecidableEq, Repr

structure Function where
  parameters : List VariableId
  returnType : ReturnType
  body       : List Stmt

abbrev Checked := Except Diagnostic

section Expressions

variable (spelling : VariableId → Name) (owns : VariableId → Bool) (scope : List VariableId)

def checkIdentifierRead (flow : FlowState) (x : VariableId) : Checked Unit :=
  if x ∉ scope then .error ("undefined identifier '" ++ spelling x ++ "'")
  else if !flow.variableIsInitialized x then
    .error (if owns x then "resource '" ++ spelling x ++ "' may be uninitialized or moved"
      else "variable '" ++ spelling x ++ "' may be uninitialized")
  else .ok ()

def checkResourceTransfer (e : Expr) : Checked Unit :=
  if e.isResource owns && e.isLvalue then
    .error "resource value cannot be copied; use move to transfer ownership"
  else .ok ()

mutual

def checkExpression : Expr → FlowState → Checked FlowState
  | .plain, flow | .known _, flow => .ok flow
  | .name x, flow | .address x, flow => do
    checkIdentifierRead spelling owns scope flow x
    return flow
  | .move x, flow => do
    checkIdentifierRead spelling owns scope flow x
    if !owns x then .error "move requires a resource value"
    else return flow.markVariableUninitialized x
  | .call arguments _, flow => checkArguments arguments flow
  | .logical operation left right, flow => do
    let afterLeft ← checkExpression left flow
    let afterRight ← checkExpression right afterLeft
    if left.isResource owns then .error "left operand must be boolean"
    else if right.isResource owns then .error "right operand must be boolean"
    else
      match left.compileTimeBool with
      | some l => return if operation.decidedBy l then afterLeft else afterRight
      | none   => return afterLeft.mergeContinuingPaths afterRight afterLeft.count
  | .ifExpr condition thenValue elseValue, flow => do
    let incoming ← checkExpression condition flow
    if condition.isResource owns then .error "if expression condition must be a boolean expression"
    else
      let thenFlow ← checkExpression thenValue incoming
      let elseFlow ← checkExpression elseValue incoming
      if thenValue.isResource owns ≠ elseValue.isResource owns then
        .error "if expression branches have incompatible types"
      else return thenFlow.mergeContinuingPaths elseFlow incoming.count

def checkArguments : List Expr → FlowState → Checked FlowState
  | [], flow => .ok flow
  | argument :: arguments, flow => do
    let flow ← checkExpression argument flow
    checkResourceTransfer owns argument
    checkArguments arguments flow

end

def checkInitializer (expectsResource : Bool) (e : Expr) (flow : FlowState) : Checked FlowState := do
  let flow ← checkExpression spelling owns scope e flow
  checkResourceTransfer owns e
  if e.isResource owns ≠ expectsResource then .error "initializer type does not match declared type"
  else return flow

def checkCondition (message : Diagnostic) (condition : Expr) (flow : FlowState) : Checked FlowState := do
  let flow ← checkExpression spelling owns scope condition flow
  if condition.isResource owns then .error message else return flow

def checkAssignment (x : VariableId) (value : Expr) (flow : FlowState) : Checked FlowState := do
  if x ∉ scope then .error ("undefined identifier '" ++ spelling x ++ "'")
  else if owns x && !flow.variableIsDefinitelyUninitialized x then
    .error (if flow.variableMayBeInitialized x && !flow.variableIsInitialized x then
        "resource assignment may overwrite an initialized owner; move the existing owner first"
      else "resource assignment would overwrite an initialized owner; move the existing owner first")
  else
    let flow ← checkInitializer spelling owns scope (owns x) value flow
    return flow.markVariableInitialized x

def checkSimple : Simple → FlowState → Checked FlowState
  | .assign x value, flow => checkAssignment spelling owns scope x value flow
  | .expr e,         flow => checkExpression spelling owns scope e flow

def checkLoopCondition (message : Diagnostic) : Option Expr → FlowState → Checked FlowState
  | none,           flow => .ok flow
  | some condition, flow => checkCondition spelling owns scope message condition flow

def checkPost : Option Simple → FlowState → Checked FlowState
  | none,      flow => .ok flow
  | some post, flow => checkSimple spelling owns scope post flow

end Expressions

structure CheckState where
  flow  : FlowState
  scope : List VariableId
  loop  : Option LoopFlowContext

def backedgeMessage (spelling : Name) : Diagnostic :=
  "resource '" ++ spelling ++ "' changes ownership state on a loop backedge; " ++
  "restore it to its loop-entry state before the next iteration"

section Statements

variable (spelling : VariableId → Name) (owns : VariableId → Bool) (returnType : ReturnType)

def checkReturn (value : Option Expr) (scope : List VariableId) (flow : FlowState) : Checked FlowState :=
  match value, returnType with
  | none,   .void => .ok flow
  | none,   _     => .error "non-void function must return a value"
  | some _, .void => .error "void function cannot return a value"
  | some e, type  => checkInitializer spelling owns scope (type = .resource) e flow

-- The parts of a loop are checked once. `checkBody` is the check of its body in the given state.
def checkLoop (condition : Option Expr) (message : Diagnostic) (post : Option Simple)
    (checkBody : CheckState → Checked CheckState) (state : CheckState) : Checked CheckState := do
  let entry := state.flow
  let conditionExit ← checkLoopCondition spelling owns state.scope message condition entry
  let body ← checkBody { state with flow := conditionExit, loop := some (.enter entry.count) }
  let loop := body.loop.getD (.enter entry.count)
  let iteration := loop.iterationFlow body.flow
  let backedge ← checkPost spelling owns state.scope post iteration
  match entry.changedOnBackedge backedge entry.count with
  | some x => .error (backedgeMessage (spelling x))
  | none   =>
    let isAlwaysTrue := condition.all (·.compileTimeBool = some true)
    return { state with flow := loop.exitFlow conditionExit isAlwaysTrue }

def mergeCase (merged : Option FlowState) (caseFlow : FlowState) (activeVariableCount : Nat) : FlowState :=
  match merged with
  | none        => caseFlow.truncateTo activeVariableCount
  | some merged => merged.mergeContinuingPaths caseFlow activeVariableCount

mutual

def checkStatement : Stmt → CheckState → Checked CheckState
  | .simple statement, state => do
    return { state with flow := ← checkSimple spelling owns state.scope statement state.flow }
  | .varDecl x initializer, state =>
    if x ∈ state.scope then .error ("duplicate variable declaration '" ++ spelling x ++ "'")
    else do
      let flow ←
        match initializer with
        | none   => .ok state.flow
        | some e => checkInitializer spelling owns state.scope (owns x) e state.flow
      return { state with
        flow  := flow.registerVariable x initializer.isSome (owns x)
        scope := x :: state.scope }
  | .block statements, state => do
    let result ← checkStatements state.flow.reachable statements state
    return { result with
      flow  := result.flow.truncateTo state.flow.count
      scope := state.scope }
  | .ifStmt condition thenBranch elseBranch, state => do
    let incoming ←
      checkCondition spelling owns state.scope "if condition must be a boolean expression" condition state.flow
    let thenState ← checkStatement thenBranch { state with flow := incoming }
    let elseState := { state with flow := incoming, loop := thenState.loop }
    let elseState ←
      match elseBranch with
      | none            => .ok elseState
      | some elseBranch => checkStatement elseBranch elseState
    return { elseState with
      flow  := thenState.flow.mergeContinuingPaths elseState.flow incoming.count
      scope := state.scope }
  | .whileStmt condition body, state =>
    checkLoop spelling owns (some condition) "while condition must be a boolean expression" none
      (checkStatement body) state
  | .forStmt condition body post, state =>
    checkLoop spelling owns condition "for condition must be a boolean expression" post
      (checkStatement body) state
  | .switchStmt subject cases isExhaustive, state => do
    let incoming ←
      checkCondition spelling owns state.scope "switch expression must be integer, bool, or enum" subject
        state.flow
    let (merged, state) ← checkCases cases { state with flow := incoming } none
    match merged with
    | none        => return state
    | some merged =>
      return { state with
        flow := if isExhaustive then merged else merged.mergeContinuingPaths incoming incoming.count }
  | .breakStmt, state =>
    match state.loop with
    | none      => .error "break statement not inside loop"
    | some loop =>
      .ok { state with flow := state.flow.markUnreachable, loop := some (loop.recordBreak state.flow) }
  | .continueStmt, state =>
    match state.loop with
    | none      => .error "continue statement not inside loop"
    | some loop =>
      .ok { state with flow := state.flow.markUnreachable, loop := some (loop.recordContinue state.flow) }
  -- The path is marked as unreachable before the value is checked.
  | .returnStmt value, state => do
    return { state with flow := ← checkReturn spelling owns returnType value state.scope state.flow.markUnreachable }

def checkStatements (diagnoseUnreachable : Bool) : List Stmt → CheckState → Checked CheckState
  | [], state => .ok state
  | statement :: statements, state => do
    if diagnoseUnreachable && !state.flow.reachable then .error "unreachable statement"
    else
      let state ← checkStatement statement state
      checkStatements diagnoseUnreachable statements state

-- Each case starts from the same flow state. Returns the merged state of all cases, if there are any.
-- The body of a case is not a scope of its own, unless it is a block.
def checkCases : List Stmt → CheckState → Option FlowState → Checked (Option FlowState × CheckState)
  | [], state, merged => .ok (merged, state)
  | body :: cases, state, merged => do
    let result ← checkStatement body state
    checkCases cases { result with flow := state.flow } (mergeCase merged result.flow state.flow.count)

end

end Statements

def Function.start (owns : VariableId → Bool) (function : Function) : CheckState where
  flow  := function.parameters.foldl (fun flow x => flow.registerVariable x true (owns x)) .init
  scope := function.parameters
  loop  := none

def checkFunctionBody (spelling : VariableId → Name) (owns : VariableId → Bool) (function : Function) :
    Checked CheckState := do
  let state ← checkStatements spelling owns function.returnType true function.body (function.start owns)
  if function.returnType ≠ .void && state.flow.reachable then
    .error "non-void function may not return a value"
  else return state

end Coglet.Ownership
