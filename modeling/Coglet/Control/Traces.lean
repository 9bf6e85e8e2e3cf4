import Coglet.Control.WellPlaced
import Mathlib.Computability.Language
import Mathlib.Data.Matrix.Mul

open scoped Computability Matrix

namespace Coglet.Control

-- What can be observed of a run. The cases of a switch are counted without the default one.
inductive Event
  | operation (label : Nat)
  | test (value : Bool)
  | choose (case : Option Nat)
deriving DecidableEq, Repr

inductive Ending
  | normal
  | break
  | continue
  | return
deriving DecidableEq, Repr

instance : Fintype Ending where
  elems      := {.normal, .break, .continue, .return}
  complete o := by cases o <;> decide

-- The ways in which a statement of the context may end.
def Context.allows (ctx : Context) : Ending → Prop
  | .normal   => True
  | .break    => ctx.deferDepth = 0 ∧ 0 < ctx.loopDepth
  | .continue => ctx.deferDepth = 0 ∧ 0 < ctx.loopDepth
  | .return   => ctx.deferDepth = 0 ∧ 0 < ctx.functionDepth

-- The runs that end in each of the ways.
abbrev Behaviour := Ending → Language Event

def happens (e : Event) : Language Event :=
  {[e]}

namespace Behaviour

def ends (o : Ending) (l : Language Event) : Behaviour :=
  Pi.single o l

-- What ends normally is followed by `next`, everything else by `l`.
def followed (next : Behaviour) (l : Language Event) : Matrix Ending Ending (Language Event) :=
  .of fun o => if o = .normal then next else ends o l

-- A loop whose body is entered through `enter` and left behind `post`.
def loop (enter exit post : Language Event) (body : Behaviour) : Behaviour :=
  (enter * (body .normal + body .continue) * post)∗ •
    (ends .normal (exit + enter * body .break) + ends .return (enter * body .return))

section

variable {r next : Behaviour} {k : Ending → Language Event} {l enter exit post : Language Event} {o : Ending}

theorem dotProduct_eq : r ⬝ᵥ k =
    r .normal * k .normal + (r .break * k .break + (r .continue * k .continue + r .return * k .return)) := by
  simp only [dotProduct]
  exact Finset.sum_insert (by decide) |>.trans (congrArg _ (Finset.sum_insert (by decide) |>.trans
    (congrArg _ (Finset.sum_pair (by decide)))))

@[simp]
theorem ends_dotProduct : ends o l ⬝ᵥ k = l * k o :=
  single_dotProduct k l o

@[simp]
theorem ends_self : ends o l o = l := by
  simp [ends]

theorem ends_of_ne {o' : Ending} (h : o' ≠ o) : ends o l o' = 0 := by
  simp [ends, h]

theorem smul_dotProduct_eq : (l • r) ⬝ᵥ k = l * (r ⬝ᵥ k) :=
  smul_dotProduct l r k

theorem followed_mulVec : followed next l *ᵥ k = Function.update (fun o => l * k o) .normal (next ⬝ᵥ k) := by
  funext o
  cases o
  case normal => rfl
  all_goals exact ends_dotProduct

-- What comes after a behaviour is put together from what comes after the one that follows it.
theorem followed_dotProduct :
    (r ᵥ* followed next l) ⬝ᵥ k = r ⬝ᵥ Function.update (fun o => l * k o) .normal (next ⬝ᵥ k) := by
  rw [← followed_mulVec, Matrix.dotProduct_mulVec]

theorem followed_normal : (r ᵥ* followed next l) .normal = r .normal * next .normal := by
  change r ⬝ᵥ (fun o => followed next l o .normal) = _
  simp [dotProduct_eq, followed, ends]

theorem followed_of_ne (h : o ≠ .normal) : (r ᵥ* followed next l) o = r .normal * next o + r o * l := by
  change r ⬝ᵥ (fun o' => followed next l o' o) = _
  cases o
  case normal => exact absurd rfl h
  all_goals simp [dotProduct_eq, followed, ends]

theorem loop_dotProduct : loop enter exit post r ⬝ᵥ k = (enter * (r .normal + r .continue) * post)∗ *
    ((exit + enter * r .break) * k .normal + enter * r .return * k .return) := by
  rw [loop, smul_dotProduct_eq, add_dotProduct, ends_dotProduct, ends_dotProduct]

theorem loop_normal : loop enter exit post r .normal =
    (enter * (r .normal + r .continue) * post)∗ * (exit + enter * r .break) := by
  simp [loop, ends]

theorem loop_break : loop enter exit post r .break = 0 := by
  simp [loop, ends]

theorem loop_eq_zero (hn : o ≠ .normal) (hr : o = .return → r o = 0) : loop enter exit post r o = 0 := by
  cases o
  case normal    => exact absurd rfl hn
  case «return»  => simp [loop, ends, hr rfl]
  all_goals simp [loop, ends]

end

end Behaviour

open Behaviour

mutual

-- What happens while the expression is evaluated.
def Expression.evaluates : Expression → Language Event
  | constant _         => 1
  | operation l es     => evaluatesAll es * happens (.operation l)
  | logical .and a b   => evaluates a * (happens (.test true) * evaluates b + happens (.test false))
  | logical .or a b    => evaluates a * (happens (.test true) + happens (.test false) * evaluates b)
  | conditional c a b  => evaluates c * (happens (.test true) * evaluates a + happens (.test false) * evaluates b)

def Expression.evaluatesAll : List Expression → Language Event
  | []      => 1
  | e :: es => evaluates e * evaluatesAll es

end

def Action.performs : Action → Language Event
  | assign l es => (Expression.operation l es).evaluates
  | evaluate e  => e.evaluates

def Declaration.initializes (d : Declaration) : Language Event :=
  d.initializer.elim 1 fun e => (Expression.operation d.label [e]).evaluates

-- How the condition of a loop lets it go on or end. Only what is not known is tested.
def entersLoop (condition : Option Expression) : Language Event :=
  condition.elim 1 fun c => c.evaluates * match c.constBoolValue with
    | some true  => 1
    | some false => 0
    | none       => happens (.test true)

def exitsLoop (condition : Option Expression) : Language Event :=
  condition.elim 0 fun c => c.evaluates * match c.constBoolValue with
    | some true  => 0
    | some false => 1
    | none       => happens (.test false)

namespace Statement

variable {ν : Type}

mutual

-- How a statement runs. The language `l` is what the statements let happen that were deferred in the block so far.
def runs : Statement ν → Behaviour
  | absent              => ends .normal 1
  | declaration _       => ends .normal 1
  | .variables _ ds     => ends .normal (ds.map Declaration.initializes).prod
  | .action _ a         => ends .normal a.performs
  | asm _ l es          => ends .normal (Expression.operation l es).evaluates
  | .return _ v         => ends .return (v.elim 1 Expression.evaluates)
  | defer _ _           => ends .normal 1
  | block _ ss          => runsAll ss 1
  | .if _ c t e         => c.evaluates • (happens (.test true) • runs t + happens (.test false) • runs e)
  | compileIf _ c t e   =>
    match c.constBoolValue with
    | some true  => runs t
    | some false => runs e
    | none       => 0
  | .while _ c s        => loop (entersLoop (some c)) (exitsLoop (some c)) 1 (runs s)
  | .for _ c p s        => loop (entersLoop c) (exitsLoop c) (p.elim 1 Action.performs) (runs s)
  | .break _            => ends .break 1
  | .continue _         => ends .continue 1
  | switch _ sel type cs =>
    sel.evaluates • (runsCases 0 cs + ends .normal (if isExhaustive type cs then 0 else happens (.choose none)))

-- A block is left by running what was deferred in it, the latest first.
def runsAll : List (Statement ν) → Language Event → Behaviour
  | [], l      => ends .normal l
  | s :: ss, l => runs s ᵥ* followed (runsAll ss (deferral s * l)) l

def runsCases : Nat → List (Option Key × Statement ν) → Behaviour
  | _, []                => 0
  | i, (some _, s) :: cs => happens (.choose (some i)) • runs s + runsCases (i + 1) cs
  | i, (none, s) :: cs   => happens (.choose none) • runs s + runsCases i cs

-- What the statement lets happen when the block around it is left.
def deferral : Statement ν → Language Event
  | defer _ d         => runs d .normal
  | compileIf _ c t e =>
    match c.constBoolValue with
    | some true  => deferral t
    | some false => deferral e
    | none       => 1
  | _                 => 1

end

-- The statements that become deferred where the statement stands.
def deferrals : Statement ν → List (Statement ν)
  | defer _ d         => [d]
  | compileIf _ c t e =>
    match c.constBoolValue with
    | some true  => deferrals t
    | some false => deferrals e
    | none       => []
  | _                 => []

mutual

-- Statements become deferred in blocks only, not in branches, loops or cases without one.
def Scoped : Statement ν → Prop
  | defer _ d         => d.Scoped
  | block _ ss        => AllScoped ss
  | .if _ _ t e       => (t.Scoped ∧ t.deferrals = []) ∧ e.Scoped ∧ e.deferrals = []
  | compileIf _ c t e =>
    match c.constBoolValue with
    | some true  => t.Scoped
    | some false => e.Scoped
    | none       => True
  | .while _ _ s      => s.Scoped ∧ s.deferrals = []
  | .for _ _ _ s      => s.Scoped ∧ s.deferrals = []
  | switch _ _ _ cs   => CasesScoped cs
  | _                 => True

def AllScoped : List (Statement ν) → Prop
  | []      => True
  | s :: ss => s.Scoped ∧ AllScoped ss

def CasesScoped : List (Option Key × Statement ν) → Prop
  | []           => True
  | (_, s) :: cs => (s.Scoped ∧ s.deferrals = []) ∧ CasesScoped cs

end

variable {ctx : Context} {s : Statement ν} {ss : List (Statement ν)} {cs : List (Option Key × Statement ν)} {o : Ending}

theorem map_markCases : (markCases cs).map (·.1) = cs.map (·.1) := by
  induction cs
  case nil => rfl
  case cons hi => exact congrArg _ hi

theorem isExhaustive_markCases {type : SwitchType} : isExhaustive type (markCases cs) = isExhaustive type cs := by
  have hf {ν : Type} (cs : List (Option Key × Statement ν)) : cs.filterMap (·.1) = (cs.map (·.1)).filterMap id := by
    rw [List.filterMap_map]
    rfl
  have ha {ν : Type} (cs : List (Option Key × Statement ν)) : cs.any (·.1.isNone) = (cs.map (·.1)).any (·.isNone) := by
    rw [List.any_map]
    rfl
  rw [isExhaustive, isExhaustive, hf, ha, map_markCases, hf cs, ha cs]

theorem runsAll_markAll (hs : ∀ s ∈ ss, s.mark.runs = s.runs ∧ s.mark.deferral = s.deferral) {l : Language Event} :
    runsAll (markAll ss) l = runsAll ss l := by
  induction ss generalizing l
  case nil => rfl
  case cons s ss hi =>
    rw [List.forall_mem_cons] at hs
    simp only [markAll, runsAll, hs.1.1, hs.1.2, hi hs.2]

theorem runsCases_markCases (hs : ∀ p ∈ cs, p.2.mark.runs = p.2.runs) {i : Nat} :
    runsCases i (markCases cs) = runsCases i cs := by
  induction cs generalizing i
  case nil => rfl
  case cons p cs hi =>
    obtain ⟨label, s⟩ := p
    rw [List.forall_mem_cons] at hs
    cases label <;> simp only [markCases, runsCases, hs.1, hi hs.2]

-- What is noted about a statement does not change how it runs.
theorem runs_mark : s.mark.runs = s.runs ∧ s.mark.deferral = s.deferral := by
  induction s using Statement.ind
  case defer hs => exact ⟨rfl, congrFun hs.1 _⟩
  case block hs => exact ⟨runsAll_markAll hs, rfl⟩
  case cond ht he => exact ⟨by simp only [mark, runs, ht.1, he.1], rfl⟩
  case compileIf c t e ht he =>
    simp only [mark]
    cases hc : c.constBoolValue
    case none => simp only [runs, deferral, hc, and_self]
    case some b => cases b <;> simp only [runs, deferral, hc, ht, he, and_self]
  case loop hs => exact ⟨by simp only [mark, runs, hs.1], rfl⟩
  case steps hs => exact ⟨by simp only [mark, runs, hs.1], rfl⟩
  case switch hs =>
    refine ⟨?_, rfl⟩
    simp only [mark, runs, isExhaustive_markCases, runsCases_markCases fun p hp => (hs p hp).1]
  all_goals exact ⟨rfl, rfl⟩

theorem runsAll_eq_zero (hs : ∀ s ∈ ss, s.WellPlaced ctx → s.runs o = 0) (hw : AllWellPlaced ctx ss) (ho : o ≠ .normal)
    {l : Language Event} : runsAll ss l o = 0 := by
  induction ss generalizing l
  case nil => exact ends_of_ne ho
  case cons s ss hi =>
    rw [List.forall_mem_cons] at hs
    rw [runsAll, followed_of_ne ho, hi hs.2 hw.2.2, hs.1 hw.1, mul_zero, zero_mul, add_zero]

theorem runsCases_eq_zero (hs : ∀ p ∈ cs, p.2.WellPlaced ctx → p.2.runs o = 0) (hw : CasesWellPlaced ctx cs) {i : Nat} :
    runsCases i cs o = 0 := by
  induction cs generalizing i
  case nil => rfl
  case cons p cs hi =>
    obtain ⟨label, s⟩ := p
    rw [List.forall_mem_cons] at hs
    cases label <;> simp [runsCases, hs.1 hw.1, hi hs.2 hw.2]

-- A statement only ends in a way that the checker allows where it stands.
theorem runs_eq_zero (hw : s.WellPlaced ctx) (ho : ¬ctx.allows o) : s.runs o = 0 := by
  have hn : o ≠ .normal := fun hn => ho (hn ▸ trivial)
  induction s using Statement.ind generalizing ctx
  case ret => exact ends_of_ne fun he => ho (he ▸ ⟨hw.1, hw.2.1⟩)
  case leave | next => exact ends_of_ne fun he => ho (he ▸ hw)
  case block hs => exact runsAll_eq_zero (fun s hm hw => hs s hm hw ho) hw hn
  case cond ht he => simp [runs, ht hw.1 ho, he hw.2 ho]
  case compileIf c t e ht he =>
    obtain ⟨rfl, hw⟩ | ⟨rfl, hw⟩ := wellPlaced_compileIf hw
    case inl => exact ht hw ho
    case inr => exact he hw ho
  case loop hs | steps hs => exact loop_eq_zero hn fun hr => hs hw (hr ▸ ho)
  case switch hs => simp [runs, runsCases_eq_zero (fun p hm hw => hs p hm hw ho) hw.2, ends_of_ne hn]
  all_goals exact ends_of_ne hn

theorem deferrals_eq_nil (hw : s.WellPlaced ctx) (hr : ¬ctx.allows .return) : s.deferrals = [] := by
  induction s using Statement.ind generalizing ctx
  case defer => exact absurd ⟨hw.2.1, hw.1⟩ hr
  case compileIf c t e ht he =>
    obtain ⟨rfl, hw⟩ | ⟨rfl, hw⟩ := wellPlaced_compileIf hw
    case inl => exact ht hw hr
    case inr => exact he hw hr
  all_goals rfl

theorem deferral_eq : s.deferral = (s.deferrals.map (·.runs .normal)).prod := by
  induction s using Statement.ind
  case defer d _ => exact (List.prod_singleton (x := d.runs .normal)).symm
  case compileIf c t e ht he =>
    simp only [deferral, deferrals]
    cases c.constBoolValue
    case none => rfl
    case some b => cases b <;> assumption
  all_goals rfl

theorem wellPlaced_of_mem_deferrals {d : Statement ν} (hw : s.WellPlaced ctx) (hd : d ∈ s.deferrals) :
    0 < ctx.functionDepth ∧ ctx.deferDepth = 0 ∧ d.WellPlaced ctx.inDefer := by
  induction s using Statement.ind generalizing ctx
  case defer =>
    cases List.mem_singleton.mp hd
    exact hw
  case compileIf c t e ht he =>
    obtain ⟨rfl, hw⟩ | ⟨rfl, hw⟩ := wellPlaced_compileIf hw
    case inl => exact ht hw hd
    case inr => exact he hw hd
  all_goals cases hd

theorem scoped_of_mem_deferrals {d : Statement ν} (hs : s.Scoped) (hd : d ∈ s.deferrals) : d.Scoped := by
  induction s using Statement.ind
  case defer =>
    cases List.mem_singleton.mp hd
    exact hs
  case compileIf c t e ht he =>
    simp only [deferrals, Scoped] at hd hs
    cases hc : c.constBoolValue
    case none => simp [hc] at hd
    case some b =>
      cases b
      case true => exact ht (by simpa [hc] using hs) (by simpa [hc] using hd)
      case false => exact he (by simpa [hc] using hs) (by simpa [hc] using hd)
  all_goals cases hd

theorem allScoped_of_forall (hs : ∀ s ∈ ss, s.Scoped) : AllScoped ss := by
  induction ss
  case nil => trivial
  case cons hi => exact ⟨hs _ List.mem_cons_self, hi (List.forall_mem_cons.mp hs).2⟩

theorem forall_wellPlaced (hw : AllWellPlaced ctx ss) : ∀ s ∈ ss, s.WellPlaced ctx := by
  induction ss
  case nil => exact nofun
  case cons hi => exact List.forall_mem_cons.mpr ⟨hw.1, hi hw.2.2⟩

theorem casesScoped_of_forall (hs : ∀ p ∈ cs, p.2.WellPlaced ctx → p.2.Scoped) (hw : CasesWellPlaced ctx cs)
    (hr : ¬ctx.allows .return) : CasesScoped cs := by
  induction cs
  case nil => trivial
  case cons p cs hi =>
    rw [List.forall_mem_cons] at hs
    exact ⟨⟨hs.1 hw.1, deferrals_eq_nil hw.1 hr⟩, hi hs.2 hw.2⟩

-- Where nothing may be deferred everything is scoped.
theorem scoped_of_wellPlaced (hw : s.WellPlaced ctx) (hr : ¬ctx.allows .return) : s.Scoped := by
  induction s using Statement.ind generalizing ctx
  case defer => exact absurd ⟨hw.2.1, hw.1⟩ hr
  case block hs => exact allScoped_of_forall fun s hm => hs s hm (forall_wellPlaced hw s hm) hr
  case cond ht he => exact ⟨⟨ht hw.1 hr, deferrals_eq_nil hw.1 hr⟩, he hw.2 hr, deferrals_eq_nil hw.2 hr⟩
  case compileIf ht he =>
    obtain ⟨rfl, hw⟩ | ⟨rfl, hw⟩ := wellPlaced_compileIf hw
    case inl => exact ht hw hr
    case inr => exact he hw hr
  case loop hs | steps hs =>
    have hr : ¬ctx.inLoop.allows .return := hr
    exact ⟨hs hw hr, deferrals_eq_nil hw hr⟩
  case switch hs => exact casesScoped_of_forall (fun p hm hw => hs p hm hw hr) hw.2 hr
  all_goals trivial

end Statement

end Coglet.Control
