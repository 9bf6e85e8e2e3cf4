import Coglet.Control.Check
import Coglet.Lib.BlockBuilder

namespace Coglet.Control

inductive Instruction
  | constant
  | operation (label : Nat)
deriving DecidableEq, Repr

inductive Terminator
  | branch (target : Nat)
  | condBranch (ifTrue ifFalse : Nat)
  | switch (cases : List Nat) (default : Nat)
  | ret
  | unreachable
deriving DecidableEq, Repr

abbrev Graph := BlockBuilder Instruction Terminator

namespace Graph

def emit (i : Instruction) (g : Graph) : Except String Graph :=
  match BlockBuilder.emit g i with
  | some g => .ok g
  | none   => .error "failed to emit CogIR instruction"

def setTerminator (t : Terminator) (g : Graph) (text : String) : Except String Graph :=
  match BlockBuilder.terminate g t with
  | some g => .ok g
  | none   => .error text

def setBranch (target : Nat) (g : Graph) : Except String Graph :=
  setTerminator (.branch target) g "failed to emit CogIR branch terminator"

def setCondBranch (ifTrue ifFalse : Nat) (g : Graph) : Except String Graph :=
  setTerminator (.condBranch ifTrue ifFalse) g "failed to emit CogIR conditional branch terminator"

-- The right operand of `and` is evaluated if the left one holds, that of `or` if it does not.
def setShortCircuit (op : LogicalOp) (rhs join : Nat) (g : Graph) : Except String Graph :=
  match op with
  | .and => setCondBranch rhs join g
  | .or  => setCondBranch join rhs g

def setUnreachable (g : Graph) : Except String Graph :=
  setTerminator .unreachable g "failed to emit CogIR unreachable terminator"

-- The tests behind the operands give no message of their own.
def checkOpen (g : Graph) : Except String Graph :=
  if g.isOpen then .ok g else .error ""

end Graph

open Graph

mutual

def lowerExpression : Expression → Graph → Except String Graph
  | .constant _, g        => emit .constant g
  | .operation l es, g    => do
    let g ← lowerOperands es g
    emit (.operation l) g
  | .logical op left right, g => do
    let g ← lowerExpression left g
    let g ← checkOpen g
    let rhs := g.next
    let join := g.next + 1
    let g ← emit .constant (g.addBlocks 2)
    let g ← setShortCircuit op rhs join g
    let g ← lowerExpression right (g.select rhs)
    let g ← checkOpen g
    let g ← setBranch join g
    return g.select join
  | .conditional c a b, g => do
    let g ← lowerExpression c g
    let g ← checkOpen g
    let thenBlock := g.next
    let elseBlock := g.next + 1
    let join := g.next + 2
    let g ← setCondBranch thenBlock elseBlock (g.addBlocks 3)
    let g ← lowerExpression a (g.select thenBlock)
    let g ← checkOpen g
    let g ← setBranch join g
    let g ← lowerExpression b (g.select elseBlock)
    let g ← checkOpen g
    let g ← setBranch join g
    return g.select join

def lowerOperands : List Expression → Graph → Except String Graph
  | [], g      => .ok g
  | e :: es, g => do
    let g ← lowerExpression e g
    lowerOperands es g

end

-- The operands are followed by the store.
def lowerAssignment (label : Nat) (operands : List Expression) (g : Graph) : Except String Graph :=
  lowerExpression (.operation label operands) g

-- A discarded value without a type of its own has no effect at run time.
def lowerStatementExpression : Action → Graph → Except String Graph
  | .assign label operands, g         => lowerAssignment label operands g
  | .evaluate (.constant .adaptable), g => .ok g
  | .evaluate e, g                    => lowerExpression e g

def lowerVariableDeclaration (d : Declaration) (g : Graph) : Except String Graph :=
  match d.initializer with
  | some e => lowerAssignment d.label [e] g
  | none   => .ok g

def lowerVariableDeclarations : List Declaration → Graph → Except String Graph
  | [], g      => .ok g
  | d :: ds, g => do
    let g ← lowerVariableDeclaration d g
    lowerVariableDeclarations ds g

def lowerReturnValue (value : Option Expression) (g : Graph) : Except String Graph :=
  match value with
  | some e => lowerExpression e g
  | none   => .ok g

def lowerPost (post : Option Action) (g : Graph) : Except String Graph :=
  match post with
  | some a => lowerStatementExpression a g
  | none   => .ok g

structure LoopContext where
  breakTarget    : Nat
  continueTarget : Nat
  deferBase      : Nat
  hasBreak       : Bool := false
deriving Repr

-- The deferred statements are kept with the latest first. `log` collects for every lowered statement whether
-- the block is open behind it, slots and values are left out.
structure LowerState where
  graph    : Graph
  deferred : List (Statement Facts) := []
  loop     : Option LoopContext := none
  log      : List (Facts × Bool) := []

namespace LowerState

def isOpen (σ : LowerState) : Bool :=
  BlockBuilder.isOpen σ.graph

def onGraph (σ : LowerState) (f : Graph → Except String Graph) : Except String LowerState := do
  let g ← f σ.graph
  return { σ with graph := g }

def select (σ : LowerState) (block : Nat) : LowerState :=
  { σ with graph := σ.graph.select block }

def fallTo (σ : LowerState) (target : Nat) : Except String LowerState :=
  if σ.isOpen then σ.onGraph (setBranch target) else .ok σ

def record (σ : LowerState) (note : Facts) : LowerState :=
  { σ with log := σ.log ++ [(note, σ.isOpen)] }

def rememberDefer (σ : LowerState) (s : Statement Facts) : LowerState :=
  { σ with deferred := s :: σ.deferred }

def truncateDefers (σ : LowerState) (base : Nat) : LowerState :=
  { σ with deferred := σ.deferred.drop (σ.deferred.length - base) }

def markBreak (σ : LowerState) : LowerState :=
  { σ with loop := σ.loop.map ({ · with hasBreak := true }) }

def enterLoop (σ : LowerState) (breakTarget continueTarget : Nat) : LowerState :=
  { σ with loop := some { breakTarget, continueTarget, deferBase := σ.deferred.length } }

def hasBreak (σ : LowerState) : Bool :=
  σ.loop.any (·.hasBreak)

def setUnreachableIf (σ : LowerState) (c : Bool) : Except String LowerState :=
  if c then σ.onGraph setUnreachable else .ok σ

-- The block behind a loop cannot be reached if the condition always holds and nothing breaks out.
def leaveLoop (σ : LowerState) (outer : Option LoopContext) (exit : Nat) (always : Bool) : Except String LowerState :=
  { σ.select exit with loop := outer }.setUnreachableIf (always && !σ.hasBreak)

-- Nothing leads to the block for the values that no case of an exhaustive switch has.
def setUnmatched (σ : LowerState) (block : Nat) (needed : Bool) : Except String LowerState :=
  if needed then (σ.select block).onGraph setUnreachable else .ok σ

end LowerState

section Statements

-- How a deferred statement is lowered when the statement around it is left.
variable (run : Statement Facts → LowerState → Except String LowerState)

def runDeferred : List (Statement Facts) → LowerState → Except String LowerState
  | [], σ      => .ok σ
  | s :: ss, σ => if σ.isOpen then do runDeferred ss (← run s σ) else .ok σ

def runDeferredFrom (base : Nat) (σ : LowerState) : Except String LowerState :=
  runDeferred run (σ.deferred.take (σ.deferred.length - base)) σ

def leaveScope (base : Nat) (σ : LowerState) : Except String LowerState :=
  if σ.isOpen then runDeferredFrom run base σ else .ok σ

def lowerReturnStatement (value : Option Expression) (σ : LowerState) : Except String LowerState := do
  let σ ← σ.onGraph (lowerReturnValue value)
  let σ ← runDeferredFrom run 0 σ
  if σ.isOpen then
    σ.onGraph (setTerminator .ret · "failed to emit CogIR return terminator")
  else .ok σ

def lowerBreakStatement (σ : LowerState) : Except String LowerState :=
  match σ.loop with
  | none      => .error "break has no active CogIR loop target"
  | some loop => do
    let σ ← runDeferredFrom run loop.deferBase σ.markBreak
    σ.fallTo loop.breakTarget

def lowerContinueStatement (σ : LowerState) : Except String LowerState :=
  match σ.loop with
  | none      => .error "continue has no active CogIR loop target"
  | some loop => do
    let σ ← runDeferredFrom run loop.deferBase σ
    σ.fallTo loop.continueTarget

-- The condition block of a loop ends here, a condition that is known decides where to.
def lowerLoopCondition (condition : Option Expression) (body exit : Nat) (g : Graph) : Except String Graph :=
  match condition with
  | none   => setBranch body g
  | some c => do
    let g ← lowerExpression c g
    let g ← checkOpen g
    match c.constBoolValue with
    | some value => setBranch (if value then body else exit) g
    | none       => setCondBranch body exit g

-- The blocks of the cases follow each other from `first`.
def switchTargets (first : Nat) (cases : List (Option Key × Statement Facts)) : List Nat :=
  (cases.zipIdx first).filterMap fun (c, block) => c.1.map fun _ => block

def defaultTarget (first otherwise : Nat) (cases : List (Option Key × Statement Facts)) : Nat :=
  (cases.zipIdx first).foldl (fun target (c, block) => if c.1.isNone then block else target) otherwise

mutual

def lowerStatement : Statement Facts → LowerState → Except String LowerState
  | .absent, σ            => .ok σ
  | .declaration note, σ  => .ok (σ.record note)
  | .variables note ds, σ => do
    let σ ← σ.onGraph (lowerVariableDeclarations ds)
    return σ.record note
  | .action note a, σ     => do
    let σ ← σ.onGraph (lowerStatementExpression a)
    return σ.record note
  | .asm note l es, σ     => do
    let σ ← σ.onGraph (lowerAssignment l es)
    return σ.record note
  | .return note v, σ     => do
    let σ ← lowerReturnStatement run v σ
    return σ.record note
  | .defer note s, σ      => .ok ((σ.rememberDefer s).record note)
  | .block note ss, σ     => do
    let base := σ.deferred.length
    let σ ← lowerStatements ss σ
    let σ ← leaveScope run base σ
    return (σ.truncateDefers base).record note
  | .break note, σ        => do
    let σ ← lowerBreakStatement run σ
    return σ.record note
  | .continue note, σ     => do
    let σ ← lowerContinueStatement run σ
    return σ.record note
  | .compileIf note _ t e, σ =>
    match note.compileTimeSelection with
    | 1  => do return (← lowerStatement t σ).record note
    | 2  => do return (← lowerStatement e σ).record note
    | -1 => .ok (σ.record note)
    | _  => .error "compile-time #if was not resolved before CogIR lowering"
  | .if note c t e, σ     => do
    let σ ← σ.onGraph (lowerExpression c)
    let σ ← σ.onGraph checkOpen
    let thenBlock := σ.graph.next
    let merge := σ.graph.next + 1
    let elseBlock := if e.isAbsent then merge else merge + 1
    let σ := { σ with graph := σ.graph.addBlocks (if e.isAbsent then 2 else 3) }
    let σ ← σ.onGraph (setCondBranch thenBlock elseBlock)
    let σ ← lowerStatement t (σ.select thenBlock)
    let thenFallsThrough := σ.isOpen
    let σ ← σ.fallTo merge
    if e.isAbsent then return (σ.select merge).record note
    else
      let σ ← lowerStatement e (σ.select elseBlock)
      let elseFallsThrough := σ.isOpen
      let σ ← σ.fallTo merge
      let σ ← (σ.select merge).setUnreachableIf (!thenFallsThrough && !elseFallsThrough)
      return σ.record note
  | .while note c s, σ    => do
    let condition := σ.graph.next
    let body := σ.graph.next + 1
    let exit := σ.graph.next + 2
    let outer := σ.loop
    let σ := { σ with graph := σ.graph.addBlocks 3 }
    let σ ← σ.onGraph (setBranch condition)
    let σ ← (σ.select condition).onGraph (lowerLoopCondition (some c) body exit)
    let σ ← lowerStatement s ((σ.enterLoop exit condition).select body)
    let σ ← σ.fallTo condition
    let σ ← σ.leaveLoop outer exit (alwaysTrue (some c))
    return σ.record note
  | .for note c post s, σ => do
    let condition := σ.graph.next
    let body := σ.graph.next + 1
    let postBlock := σ.graph.next + 2
    let exit := σ.graph.next + 3
    let outer := σ.loop
    let σ := { σ with graph := σ.graph.addBlocks 4 }
    let σ ← σ.onGraph (setBranch condition)
    let σ ← (σ.select condition).onGraph (lowerLoopCondition c body exit)
    let σ ← lowerStatement s ((σ.enterLoop exit postBlock).select body)
    let σ ← σ.fallTo postBlock
    let σ ← (σ.select postBlock).onGraph (lowerPost post)
    let σ ← σ.fallTo condition
    let σ ← σ.leaveLoop outer exit (alwaysTrue c)
    return σ.record note
  | .switch note selector _ cs, σ => do
    let σ ← σ.onGraph (lowerExpression selector)
    let σ ← σ.onGraph checkOpen
    let hasDefault := cs.any (·.1.isNone)
    let merge := σ.graph.next
    let first := merge + 1
    let unmatched := first + cs.length
    let needsUnmatched := !hasDefault && note.isExhaustive
    let otherwise := if needsUnmatched then unmatched else merge
    let σ := { σ with graph := σ.graph.addBlocks (1 + cs.length + if needsUnmatched then 1 else 0) }
    let term := Terminator.switch (switchTargets first cs) (defaultTarget first otherwise cs)
    let σ ← σ.onGraph (setTerminator term · "failed to emit CogIR switch terminator")
    let σ ← σ.setUnmatched unmatched needsUnmatched
    let (σ, continuing) ← lowerCases merge first cs σ
    let σ ← (σ.select merge).setUnreachableIf (!(continuing || (!hasDefault && !note.isExhaustive)))
    return σ.record note

-- Nothing is lowered behind a terminator.
def lowerStatements : List (Statement Facts) → LowerState → Except String LowerState
  | [], σ      => .ok σ
  | s :: ss, σ => if σ.isOpen then do lowerStatements ss (← lowerStatement s σ) else .ok σ

-- Also returns whether a case falls through to the block behind the switch.
def lowerCases (merge : Nat) : Nat → List (Option Key × Statement Facts) → LowerState →
    Except String (LowerState × Bool)
  | _, [], σ               => .ok (σ, false)
  | block, (_, s) :: cs, σ => do
    let σ ← lowerStatement s (σ.select block)
    let fallsThrough := σ.isOpen
    let σ ← σ.fallTo merge
    let (σ, continuing) ← lowerCases merge (block + 1) cs σ
    return (σ, fallsThrough || continuing)

end

end Statements

-- Deferred statements are lowered while others are, up to the given depth.
def lower : Nat → Statement Facts → LowerState → Except String LowerState
  | 0         => fun _ _ => .error "deferred statements run inside of each other"
  | depth + 1 => lowerStatement (lower depth)

-- What the code of a function is built from, or the code that initializes a module.
structure LoweredFunction where
  blocks : List (Block Instruction Terminator)
  log    : List (Facts × Bool)

def finishVoidFunctionIfNeeded (returnsVoid : Bool) (σ : LowerState) : Except String LoweredFunction :=
  if σ.isOpen then
    if returnsVoid then do
      let σ ← σ.onGraph (setTerminator .ret · "")
      return { blocks := σ.graph.blocks, log := σ.log }
    else .error "non-void function reached end without a lowered return terminator"
  else .ok { blocks := σ.graph.blocks, log := σ.log }

def entryState : LowerState where
  graph := { blocks := [{}], current := 0, current_lt := Nat.one_pos }

def lowerFunctionBody (depth : Nat) (returnsVoid : Bool) (body : Statement Facts) : Except String LoweredFunction := do
  let σ ← lower depth body entryState
  finishVoidFunctionIfNeeded returnsVoid σ

def nodeIsRuntimeModuleItem {ν : Type} : Statement ν → Bool
  | .variables _ ds => ds.any (·.initializer.isSome)
  | .action ..      => true
  | .block ..       => true
  | .if ..          => true
  | .compileIf ..   => true
  | .while ..       => true
  | .for ..         => true
  | .switch ..      => true
  | _               => false

def lowerModuleItem (depth : Nat) (s : Statement Facts) (σ : LowerState) : Except String LowerState :=
  if nodeIsRuntimeModuleItem s then lower depth s σ else .ok σ

def lowerModuleItems (depth : Nat) : List (Statement Facts) → LowerState → Except String LowerState
  | [], σ      => .ok σ
  | s :: ss, σ => do
    let σ ← lowerModuleItem depth s σ
    lowerModuleItems depth ss σ

-- Without items that run there is no code that initializes the module.
def lowerModuleInit (depth : Nat) (items : List (Statement Facts)) : Except String (Option LoweredFunction) :=
  if items.any nodeIsRuntimeModuleItem then do
    let σ ← lowerModuleItems depth items entryState
    let f ← finishVoidFunctionIfNeeded true σ
    return some f
  else .ok none

end Coglet.Control
