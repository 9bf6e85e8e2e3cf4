import Coglet.Control.Statement

namespace Coglet.Control

structure Context where
  functionDepth : Nat := 0
  deferDepth    : Nat := 0
  loopDepth     : Nat := 0
  returnsVoid   : Bool := true

namespace Context

def inLoop (ctx : Context) : Context :=
  { ctx with loopDepth := ctx.loopDepth + 1 }

def inDefer (ctx : Context) : Context :=
  { ctx with deferDepth := ctx.deferDepth + 1 }

end Context

-- What the checker records for the lowering, and whether it found the end of the statement to be reachable.
structure Facts where
  reachableAfter       : Bool
  isExhaustive         : Bool := false
  compileTimeSelection : Int := 0
deriving DecidableEq, Repr

-- The flow facts of variables are left out. `hasBreakFlow` belongs to the innermost loop.
structure CheckState where
  reachable    : Bool := true
  hasBreakFlow : Bool := false
  errors       : List String := []
deriving DecidableEq, Repr

namespace CheckState

def report (c : CheckState) (text : String) : CheckState :=
  { c with errors := c.errors ++ [text] }

def facts (c : CheckState) : Facts :=
  { reachableAfter := c.reachable }

def recordBreak (c : CheckState) : CheckState :=
  { c with hasBreakFlow := c.hasBreakFlow || c.reachable, reachable := false }

def recordContinue (c : CheckState) : CheckState :=
  { c with reachable := false }

-- The state behind a loop. The flow that the recorded breaks accumulated is always a reachable one.
def afterLoop (c body : CheckState) (always : Bool) : CheckState where
  reachable    := if always then body.hasBreakFlow else c.reachable || body.hasBreakFlow
  hasBreakFlow := c.hasBreakFlow
  errors       := body.errors

end CheckState

structure Labels where
  hasDefault : Bool := false
  values     : List Key := []

namespace Labels

def check (labels : Labels) : Option Key → Labels × List String
  | none     => ({ labels with hasDefault := true }, if labels.hasDefault then ["duplicate default case"] else [])
  | some key =>
    if key ∈ labels.values then (labels, ["duplicate switch case"])
    else ({ labels with values := labels.values ++ [key] }, [])

end Labels

-- The flow of the state is the merged one of all cases.
structure CasesFlow where
  state  : CheckState
  labels : Labels

def checkReturn (ctx : Context) (hasValue : Bool) (c : CheckState) : CheckState :=
  if 0 < ctx.deferDepth then c.report "return is not allowed inside defer"
  else if ctx.functionDepth = 0 then c.report "return outside function"
  else
    let c := { c with reachable := false }
    if !hasValue && !ctx.returnsVoid then c.report "non-void function must return a value"
    else if hasValue && ctx.returnsVoid then c.report "void function cannot return a value"
    else c

def checkBreak (ctx : Context) (c : CheckState) : CheckState :=
  if 0 < ctx.deferDepth then c.report "break is not allowed inside defer"
  else if ctx.loopDepth = 0 then c.report "break statement not inside loop"
  else c.recordBreak

def checkContinue (ctx : Context) (c : CheckState) : CheckState :=
  if 0 < ctx.deferDepth then c.report "continue is not allowed inside defer"
  else if ctx.loopDepth = 0 then c.report "continue statement not inside loop"
  else c.recordContinue

mutual

-- What is not checked is left out of the result.
def checkStatement : Context → Statement Unit → CheckState → CheckState × Statement Facts
  | _, .absent, c         => (c, .absent)
  | _, .declaration _, c  => (c, .declaration c.facts)
  | _, .variables _ ds, c => (c, .variables c.facts ds)
  | _, .action _ a, c     => (c, .action c.facts a)
  | _, .asm _ l es, c     => (c, .asm c.facts l es)
  | ctx, .return _ v, c   =>
    let c' := checkReturn ctx v.isSome c
    (c', .return c'.facts v)
  | ctx, .break _, c      =>
    let c' := checkBreak ctx c
    (c', .break c'.facts)
  | ctx, .continue _, c   =>
    let c' := checkContinue ctx c
    (c', .continue c'.facts)
  | ctx, .defer _ s, c    =>
    if ctx.functionDepth = 0 then
      let c' := c.report "defer outside function"
      (c', .defer c'.facts .absent)
    else if 0 < ctx.deferDepth then
      let c' := c.report "nested defer is not supported"
      (c', .defer c'.facts .absent)
    else
      let body := checkStatement ctx.inDefer s c
      let c' := { body.1 with reachable := c.reachable }
      (c', .defer c'.facts body.2)
  | ctx, .block _ ss, c   =>
    let inner := checkStatements ctx c.reachable ss c
    (inner.1, .block inner.1.facts inner.2)
  | ctx, .if _ cond t e, c =>
    let thenFlow := checkStatement ctx t c
    let elseFlow := checkStatement ctx e { thenFlow.1 with reachable := c.reachable }
    let c' := { elseFlow.1 with reachable := thenFlow.1.reachable || elseFlow.1.reachable }
    (c', .if c'.facts cond thenFlow.2 elseFlow.2)
  | ctx, .compileIf _ cond t e, c =>
    match cond with
    | .constant (.boolean true) =>
      let branch := checkStatement ctx t c
      (branch.1, .compileIf { branch.1.facts with compileTimeSelection := 1 } cond branch.2 .absent)
    | .constant (.boolean false) =>
      if e.isAbsent then (c, .compileIf { c.facts with compileTimeSelection := -1 } cond .absent .absent)
      else
        let branch := checkStatement ctx e c
        (branch.1, .compileIf { branch.1.facts with compileTimeSelection := 2 } cond .absent branch.2)
    | .constant _ =>
      let c' := c.report "compile-time #if condition must evaluate to a boolean"
      (c', .compileIf c'.facts cond .absent .absent)
    | _ =>
      let c' := c.report "expression is not a compile-time constant"
      (c', .compileIf c'.facts cond .absent .absent)
  | ctx, .while _ cond s, c =>
    let body := checkStatement ctx.inLoop s { c with hasBreakFlow := false }
    let c' := c.afterLoop body.1 (alwaysTrue (some cond))
    (c', .while c'.facts cond body.2)
  | ctx, .for _ cond post s, c =>
    let body := checkStatement ctx.inLoop s { c with hasBreakFlow := false }
    let c' := c.afterLoop body.1 (alwaysTrue cond)
    (c', .for c'.facts cond post body.2)
  | ctx, .switch _ selector type cs, c =>
    let inner := checkCases ctx c.reachable cs {} c
    let flow := inner.1
    let exhaustive := switchCaseValuesAreExhaustive type flow.labels.values flow.labels.hasDefault
    let c' := { flow.state with reachable := flow.state.reachable || (!exhaustive && c.reachable) }
    (c', .switch { c'.facts with isExhaustive := exhaustive } selector type inner.2)

-- A block that starts unreachable does not report its statements.
def checkStatements : Context → Bool → List (Statement Unit) → CheckState → CheckState × List (Statement Facts)
  | _, _, [], c => (c, [])
  | ctx, diagnose, s :: ss, c =>
    let c := if diagnose && !c.reachable then c.report "unreachable statement" else c
    let first := checkStatement ctx s c
    let rest := checkStatements ctx diagnose ss first.1
    (rest.1, first.2 :: rest.2)

-- Every case starts from the flow behind the selector, the flows behind the cases are merged.
def checkCases : Context → Bool → List (Option Key × Statement Unit) → Labels → CheckState →
    CasesFlow × List (Option Key × Statement Facts)
  | _, _, [], labels, c => ({ state := { c with reachable := false }, labels }, [])
  | ctx, incoming, (label, s) :: cs, labels, c =>
    let checked := labels.check label
    let body := checkStatement ctx s { c with reachable := incoming, errors := c.errors ++ checked.2 }
    let rest := checkCases ctx incoming cs checked.1 body.1
    let merged := { rest.1.state with reachable := body.1.reachable || rest.1.state.reachable }
    ({ rest.1 with state := merged }, (label, body.2) :: rest.2)

end

-- The flow, the loop and the depths of what surrounds a function are saved and restored around its body.
def checkFunctionBody (returnsVoid : Bool) (body : List (Statement Unit)) : CheckState × Statement Facts :=
  let checked := checkStatement { functionDepth := 1, returnsVoid } (.block () body) {}
  if !returnsVoid && checked.1.reachable then (checked.1.report "non-void function may not return a value", checked.2)
  else checked

-- The last pass over a program. Outside of a function no statement is reported as unreachable.
def checkProgram (items : List (Statement Unit)) : CheckState × List (Statement Facts) :=
  checkStatements {} false items {}

end Coglet.Control
