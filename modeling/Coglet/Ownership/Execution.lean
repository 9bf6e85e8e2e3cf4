import Coglet.Ownership.Check
import Coglet.Lib.Path

open Path

namespace Coglet.Ownership

abbrev Resource := Nat

-- The resource that a call returns: a new one, or one of those that have been passed to it.
inductive CallResult
  | none
  | fresh
  | passed (index : Nat)
deriving DecidableEq, Repr

inductive Event
  | declare (x : VariableId)
  -- The value of a variable that does not own a resource is used, or replaced.
  | load (x : VariableId)
  | store (x : VariableId)
  -- The resource of an owner is looked at.
  | read (x : VariableId)
  -- The resource of an owner becomes that of a temporary as well.
  | copy (x : VariableId)
  | move (x : VariableId)
  | bind (x : VariableId)
  | assign (x : VariableId)
  | call (passed : Nat) (result : CallResult)
  -- The latest temporary goes out of existence, or is handed over to the caller.
  | drop
deriving DecidableEq, Repr

-- The resources that are held by variables and by temporaries, the latest of which comes first. Of the
-- variables that hold a value only those that have one are known.
structure State where
  values      : VariableId → Bool
  owners      : VariableId → Option Resource
  temporaries : List Resource
  next        : Resource

namespace State

def hold (s : State) (x : VariableId) (r : Option Resource) (temporaries : List Resource) : State :=
  { s with owners := Function.update s.owners x r, temporaries }

def call (s : State) (passed : Nat) : CallResult → Option State
  | .none => some { s with temporaries := s.temporaries.drop passed }
  | .fresh => some { s with
      temporaries := s.next :: s.temporaries.drop passed
      next        := s.next + 1 }
  | .passed index => do
    let r ← (s.temporaries.take passed)[index]?
    return { s with temporaries := r :: s.temporaries.drop passed }

-- It is a fault to use a variable without a value or an owner that does not hold a resource, or to overwrite
-- an owner that does.
def step (e : Event) (s : State) : Option State :=
  match e with
  | .declare x => some { s.hold x none s.temporaries with values := Function.update s.values x false }
  | .load x => if s.values x then some s else none
  | .store x => some { s with values := Function.update s.values x true }
  | .read x => do
    let _ ← s.owners x
    return s
  | .copy x => do
    let r ← s.owners x
    return { s with temporaries := r :: s.temporaries }
  | .move x => do
    let r ← s.owners x
    return s.hold x none (r :: s.temporaries)
  | .bind x =>
    match s.temporaries with
    | []      => none
    | r :: rs => some (s.hold x (some r) rs)
  | .assign x =>
    match s.temporaries, s.owners x with
    | r :: rs, none => some (s.hold x (some r) rs)
    | _,       _    => none
  | .call passed result => if passed ≤ s.temporaries.length then s.call passed result else none
  | .drop =>
    match s.temporaries with
    | []      => none
    | _ :: rs => some { s with temporaries := rs }

-- A step that copies resources only if that is permitted.
def transfer (permitsCopies : Bool) (e : Event) (s : State) : Option State :=
  match e with
  | .copy x => if permitsCopies then step (.copy x) s else none
  | e       => step e s

-- No two owners hold the same resource.
def Unique (s : State) : Prop :=
  ∀ x y r, s.owners x = some r → s.owners y = some r → x = y

end State

namespace Expr

-- Whether a condition might have the given value.
def mayBe (e : Expr) (value : Bool) : Prop :=
  e.compileTimeBool ≠ some !value

section

variable (owns : VariableId → Bool)

-- Using an owner itself as a value copies its resource.
def copies : Expr → List Event
  | name x => if owns x then [.copy x] else []
  | _      => []

def resources (es : List Expr) : Nat :=
  es.countP (isResource owns)

mutual

-- The paths of an evaluation.
def Path : Expr → List Event → Prop
  | plain,     p | known _,   p => p = []
  | name x,    p | address x, p => p = [if owns x then .read x else .load x]
  | move x,    p                => p = [.move x]
  | call arguments returnsResource, p =>
    ∃ a result, ArgumentsPath arguments a ∧ (result = .none ↔ returnsResource = false) ∧
      (∀ i, result = .passed i → i < resources owns arguments) ∧
      p = a ++ [.call (resources owns arguments) result]
  | logical operation left right, p =>
    ∃ l value, left.Path l ∧ left.mayBe value ∧
      if operation.decidedBy value then p = l else ∃ r, right.Path r ∧ p = l ++ r
  | ifExpr condition thenValue elseValue, p =>
    ∃ c value, condition.Path c ∧ condition.mayBe value ∧
      match value with
      | true  => ∃ t, thenValue.Path t ∧ p = c ++ (t ++ thenValue.copies owns)
      | false => ∃ e, elseValue.Path e ∧ p = c ++ (e ++ elseValue.copies owns)

def ArgumentsPath : List Expr → List Event → Prop
  | [],      p => p = []
  | e :: es, p => ∃ a b, e.Path a ∧ ArgumentsPath es b ∧ p = a ++ e.copies owns ++ b

end

end

end Expr

section

variable (owns : VariableId → Bool)

def Simple.Path : Simple → List Event → Prop
  | assign x value, p =>
    ∃ v, value.Path owns v ∧ p = v ++ value.copies owns ++ [if owns x then .assign x else .store x]
  -- A temporary that is not used goes out of existence.
  | expr e, p => ∃ v, e.Path owns v ∧ p = v ++ if e.isResource owns && !e.isLvalue then [.drop] else []

def conditionPath (value : Bool) : Option Expr → List Event → Prop
  | none,   p => value = true ∧ p = []
  | some c, p => c.Path owns p ∧ c.mayBe value

def postPath : Option Simple → List Event → Prop
  | none,   p => p = []
  | some s, p => s.Path owns p

mutual

def Stmt.Path : Stmt → List Event → Exit → Prop
  | .simple statement, p, exit => statement.Path owns p ∧ exit = .normal
  | .varDecl x none, p, exit => p = [.declare x] ∧ exit = .normal
  | .varDecl x (some e), p, exit =>
    ∃ v, e.Path owns v ∧ p = v ++ e.copies owns ++ [if owns x then .bind x else .store x] ∧ exit = .normal
  | .block statements, p, exit => BlockPath statements p exit
  | .ifStmt condition thenBranch none, p, exit =>
    ∃ c value b, condition.Path owns c ∧ condition.mayBe value ∧ p = c ++ b ∧
      if value then thenBranch.Path b exit else b = [] ∧ exit = .normal
  | .ifStmt condition thenBranch (some elseBranch), p, exit =>
    ∃ c value b, condition.Path owns c ∧ condition.mayBe value ∧ p = c ++ b ∧
      if value then thenBranch.Path b exit else elseBranch.Path b exit
  | .whileStmt condition body, p, exit =>
    Loop (conditionPath owns true (some condition)) (conditionPath owns false (some condition)) body.Path
      (postPath owns none) p exit
  | .forStmt condition body post, p, exit =>
    Loop (conditionPath owns true condition) (conditionPath owns false condition) body.Path
      (postPath owns post) p exit
  | .switchStmt subject cases isExhaustive, p, exit =>
    ∃ c b, subject.Path owns c ∧ p = c ++ b ∧
      (CasesPath cases b exit ∨
      ((cases = [] ∨ isExhaustive = false) ∧ b = [] ∧ exit = .normal))
  | .breakStmt, p, exit => p = [] ∧ exit = .broke
  | .continueStmt, p, exit => p = [] ∧ exit = .continued
  | .returnStmt none, p, exit => p = [] ∧ exit = .returned
  | .returnStmt (some e), p, exit =>
    ∃ v, e.Path owns v ∧ p = v ++ e.copies owns ++ (if e.isResource owns then [.drop] else []) ∧ exit = .returned

def BlockPath : List Stmt → List Event → Exit → Prop
  | [], p, exit => p = [] ∧ exit = .normal
  | s :: ss, p, exit =>
    ∃ a e, s.Path a e ∧ if e = .normal then ∃ b, BlockPath ss b exit ∧ p = a ++ b else p = a ∧ exit = e

def CasesPath : List Stmt → List Event → Exit → Prop
  | [], _, _ => False
  | s :: ss, p, exit => s.Path p exit ∨ CasesPath ss p exit

end

namespace Function

-- The parameters hold the values and resources that the caller has passed.
def Starts (function : Function) (s : State) : Prop :=
  s.Unique ∧ (∀ x r, s.owners x = some r → r < s.next) ∧
  (∀ x ∈ function.parameters, if owns x then (s.owners x).isSome else s.values x) ∧ s.temporaries = []

-- Each point of each path is reached without a fault, and in a state in which no two variables own the
-- same resource.
def OwnsUniquely (function : Function) : Prop :=
  ∀ s p exit, function.Starts owns s → BlockPath owns function.body p exit →
    ∀ q, q <+: p → ∃ t, run State.step q s = some t ∧ t.Unique

-- No path faults, and each path that ends with the body of the function is one of a function without a
-- result.
def AssignsDefinitely (function : Function) : Prop :=
  ∀ s p exit, function.Starts owns s → BlockPath owns function.body p exit →
    (∀ q, q <+: p → ∃ t, run State.step q s = some t) ∧ (exit = .normal → function.returnType = .void)

end Function

end

end Coglet.Ownership
