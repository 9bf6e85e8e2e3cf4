import Mathlib.Data.List.Basic

namespace Coglet.Control

-- The values that are recorded for expressions which are evaluated at compile time. An adaptable value has no
-- type of its own yet.
inductive Constant
  | boolean (value : Bool)
  | adaptable
  | typed
deriving DecidableEq, Repr

inductive LogicalOp
  | and
  | or
deriving DecidableEq, Repr

-- Of an expression only the control flow inside of it is kept: `operation` stands for everything that is lowered to
-- instructions behind those of its operands, and is told apart by its label.
inductive Expression
  | constant (value : Constant)
  | operation (label : Nat) (operands : List Expression)
  | logical (op : LogicalOp) (left right : Expression)
  | conditional (condition thenValue elseValue : Expression)
deriving Repr

inductive Key
  | boolean (value : Bool)
  | integer (value : Int)
deriving DecidableEq, Repr

inductive SwitchType
  | integer
  | boolean
  | enum (members : List Int)
deriving DecidableEq, Repr

-- What may stand in an expression statement or after the second semicolon of a `for`. The operands of an
-- assignment are its target and, unless it is an increment, its value.
inductive Action
  | assign (label : Nat) (operands : List Expression)
  | evaluate (expression : Expression)
deriving Repr

structure Declaration where
  label       : Nat
  initializer : Option Expression
deriving Repr

-- Every statement carries what is noted about it. `absent` is the missing statement, for example the branch
-- of an `if` without `else`.
inductive Statement (ν : Type)
  | absent
  | declaration (note : ν)
  | variables (note : ν) (declarations : List Declaration)
  | action (note : ν) (action : Action)
  | asm (note : ν) (label : Nat) (operands : List Expression)
  | return (note : ν) (value : Option Expression)
  | defer (note : ν) (statement : Statement ν)
  | block (note : ν) (statements : List (Statement ν))
  | if (note : ν) (condition : Expression) (thenBranch elseBranch : Statement ν)
  | compileIf (note : ν) (condition : Expression) (thenBranch elseBranch : Statement ν)
  | while (note : ν) (condition : Expression) (body : Statement ν)
  | for (note : ν) (condition : Option Expression) (post : Option Action) (body : Statement ν)
  | break (note : ν)
  | continue (note : ν)
  | switch (note : ν) (selector : Expression) (type : SwitchType) (cases : List (Option Key × Statement ν))
deriving Repr

def Expression.constBoolValue : Expression → Option Bool
  | constant (.boolean value) => some value
  | _                         => none

def switchCaseValuesAreExhaustive (type : SwitchType) (values : List Key) (hasDefault : Bool) : Bool :=
  hasDefault || match type with
    | .integer      => false
    | .boolean      => values.contains (.boolean true) && values.contains (.boolean false)
    | .enum members => !members.isEmpty && members.all fun member => values.contains (.integer member)

-- A loop without a condition is an endless one as well.
def alwaysTrue : Option Expression → Bool
  | none           => true
  | some condition => condition.constBoolValue == some true

@[elab_as_elim]
theorem Expression.ind {P : Expression → Prop} (constant : ∀ v, P (.constant v))
    (operation : ∀ l es, (∀ e ∈ es, P e) → P (.operation l es)) (logical : ∀ op a b, P a → P b → P (.logical op a b))
    (conditional : ∀ c a b, P c → P a → P b → P (.conditional c a b)) (e : Expression) : P e :=
  @Expression.rec P (fun es => ∀ e ∈ es, P e) constant operation logical conditional nofun
    (fun _ _ h hs => List.forall_mem_cons.mpr ⟨h, hs⟩) e

namespace Statement

variable {ν : Type}

def isAbsent : Statement ν → Bool
  | absent => true
  | _      => false

def isExhaustive (type : SwitchType) (cases : List (Option Key × Statement ν)) : Bool :=
  switchCaseValuesAreExhaustive type (cases.filterMap (·.1)) (cases.any (·.1.isNone))

-- The number of the branch that a compile-time `#if` leaves, `-1` is for the missing one.
def compileTimeSelection (condition : Expression) (elseBranch : Statement ν) : Int :=
  match condition.constBoolValue with
  | some true  => 1
  | some false => if elseBranch.isAbsent then -1 else 2
  | none       => 0

mutual

-- Whether a `break` out of the loop around the statement can be reached from its start.
def breaks : Statement ν → Bool
  | .break _         => true
  | block _ ss       => breaksAny ss
  | .if _ _ t e      => breaks t || breaks e
  | compileIf _ c t e =>
    match c.constBoolValue with
    | some true  => breaks t
    | some false => breaks e
    | none       => false
  | switch _ _ _ cs  => breaksCase cs
  | _                => false

def breaksAny : List (Statement ν) → Bool
  | []      => false
  | s :: ss => breaks s || (completes s && breaksAny ss)

def breaksCase : List (Option Key × Statement ν) → Bool
  | []           => false
  | (_, s) :: cs => breaks s || breaksCase cs

-- Whether the end of the statement can be reached from its start.
def completes : Statement ν → Bool
  | .return ..        => false
  | .break _          => false
  | .continue _       => false
  | block _ ss        => completesAll ss
  | .if _ _ t e       => completes t || completes e
  | compileIf _ c t e =>
    match c.constBoolValue with
    | some true  => completes t
    | some false => completes e
    | none       => true
  | .while _ c s      => !alwaysTrue (some c) || breaks s
  | .for _ c _ s      => !alwaysTrue c || breaks s
  | switch _ _ type cs => !isExhaustive type cs || completesCase cs
  | _                 => true

def completesAll : List (Statement ν) → Bool
  | []      => true
  | s :: ss => completes s && completesAll ss

def completesCase : List (Option Key × Statement ν) → Bool
  | []           => false
  | (_, s) :: cs => completes s || completesCase cs

end

-- Whether the code of the statement starts with something that needs an open block. A block looks first.
def needsOpen : Statement ν → Bool
  | absent           => false
  | declaration _    => false
  | .variables _ ds  => ds.any (·.initializer.isSome)
  | .action _ a      =>
    match a with
    | .evaluate (.constant .adaptable) => false
    | _                                => true
  | .return _ v      => v.isSome
  | defer ..         => false
  | block ..         => false
  | .break _         => false
  | .continue _      => false
  | compileIf _ c t e =>
    match c.constBoolValue with
    | some true  => needsOpen t
    | some false => needsOpen e
    | none       => false
  | _                => true

end Statement

end Coglet.Control
