import Coglet.Const.Eval

-- The flow state of a function body, which knows the variables that are initialized. Variables that contain
-- resources are the owners of them, and become uninitialized again if the resource is moved.

namespace Coglet

abbrev VariableId := Nat

-- The states that a variable might be in, as a set of bits. A variable without any of them is not
-- registered.
structure Initialization where
  mayBeUninitialized : Bool
  mayBeInitialized   : Bool
deriving DecidableEq, Repr

namespace Initialization

def none : Initialization where
  mayBeUninitialized := false
  mayBeInitialized   := false

def definitelyUninitialized : Initialization where
  mayBeUninitialized := true
  mayBeInitialized   := false

def definitelyInitialized : Initialization where
  mayBeUninitialized := false
  mayBeInitialized   := true

def union (a b : Initialization) : Initialization where
  mayBeUninitialized := a.mayBeUninitialized || b.mayBeUninitialized
  mayBeInitialized   := a.mayBeInitialized || b.mayBeInitialized

end Initialization

structure FlowState where
  initialized   : VariableId → Initialization
  resourceOwner : VariableId → Bool
  count         : Nat
  reachable     : Bool

namespace FlowState

def init : FlowState where
  initialized _   := .none
  resourceOwner _ := false
  count           := 0
  reachable       := true

def truncateTo (flow : FlowState) (count : Nat) : FlowState where
  initialized x   := if x < count then flow.initialized x else .none
  resourceOwner x := if x < count then flow.resourceOwner x else false
  count           := count
  reachable       := flow.reachable

def set (flow : FlowState) (x : VariableId) (i : Initialization) : FlowState :=
  { flow with initialized := Function.update flow.initialized x i }

def registerVariable (flow : FlowState) (x : VariableId) (isInitialized containsResource : Bool) : FlowState :=
  { flow.set x (if isInitialized then .definitelyInitialized else .definitelyUninitialized) with
    resourceOwner := Function.update flow.resourceOwner x containsResource
    count         := max flow.count (x + 1) }

def markVariableInitialized (flow : FlowState) (x : VariableId) : FlowState :=
  flow.set x .definitelyInitialized

def markVariableUninitialized (flow : FlowState) (x : VariableId) : FlowState :=
  flow.set x .definitelyUninitialized

def variableIsInitialized (flow : FlowState) (x : VariableId) : Bool :=
  flow.initialized x = .definitelyInitialized

def variableIsDefinitelyUninitialized (flow : FlowState) (x : VariableId) : Bool :=
  flow.initialized x = .definitelyUninitialized

def variableMayBeInitialized (flow : FlowState) (x : VariableId) : Bool :=
  (flow.initialized x).mayBeInitialized

-- Of two paths that do not continue, only the state of the left one is retained.
def mergeContinuingPaths (left right : FlowState) (activeVariableCount : Nat) : FlowState :=
  match left.reachable, right.reachable with
  | false, false => { left.truncateTo activeVariableCount with reachable := false }
  | true,  false => left.truncateTo activeVariableCount
  | false, true  => right.truncateTo activeVariableCount
  | true,  true  =>
    { left.truncateTo activeVariableCount with
      initialized x :=
        if x < activeVariableCount then (left.initialized x).union (right.initialized x) else .none
      reachable     := true }

def accumulateReachablePath (accumulator : Option FlowState) (path : FlowState)
    (activeVariableCount : Nat) : Option FlowState :=
  if !path.reachable then accumulator
  else
    match accumulator with
    | none             => some (path.truncateTo activeVariableCount)
    | some accumulator => some (accumulator.mergeContinuingPaths path activeVariableCount)

def markUnreachable (flow : FlowState) : FlowState :=
  { flow with reachable := false }

end FlowState

structure LoopFlowContext where
  activeVariableCount : Nat
  breakFlow           : Option FlowState
  continueFlow        : Option FlowState

namespace LoopFlowContext

def enter (activeVariableCount : Nat) : LoopFlowContext where
  activeVariableCount := activeVariableCount
  breakFlow           := none
  continueFlow        := none

def recordBreak (loop : LoopFlowContext) (flow : FlowState) : LoopFlowContext :=
  { loop with breakFlow := FlowState.accumulateReachablePath loop.breakFlow flow loop.activeVariableCount }

def recordContinue (loop : LoopFlowContext) (flow : FlowState) : LoopFlowContext :=
  { loop with continueFlow := FlowState.accumulateReachablePath loop.continueFlow flow loop.activeVariableCount }

def iterationFlow (loop : LoopFlowContext) (bodyFlow : FlowState) : FlowState :=
  let result := bodyFlow.truncateTo loop.activeVariableCount
  match loop.continueFlow with
  | none              => result
  | some continueFlow => result.mergeContinuingPaths continueFlow loop.activeVariableCount

-- A loop whose condition is known to be true is only left by a `break`.
def exitFlow (loop : LoopFlowContext) (normalExit : FlowState) (conditionIsAlwaysTrue : Bool) : FlowState :=
  match conditionIsAlwaysTrue, loop.breakFlow with
  | true,  none           => normalExit.markUnreachable
  | true,  some breakFlow => breakFlow
  | false, none           => normalExit
  | false, some breakFlow => normalExit.mergeContinuingPaths breakFlow loop.activeVariableCount

end LoopFlowContext

namespace FlowState

-- The owner whose state differs between the entry of a loop and the next iteration.
def changedOnBackedge (entry backedge : FlowState) (activeVariableCount : Nat) : Option VariableId :=
  if !backedge.reachable then none
  else (List.range activeVariableCount).find? fun x =>
    entry.resourceOwner x && entry.initialized x ≠ backedge.initialized x

end FlowState
end Coglet
