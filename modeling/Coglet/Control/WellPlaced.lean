import Coglet.Control.Check
import Mathlib.Data.List.Infix

namespace Coglet.Control

namespace Statement

variable {ν : Type}

-- Statements contain lists of statements and of cases, over which the induction hypotheses are stated by membership.
@[elab_as_elim]
theorem ind {P : Statement ν → Prop}
    (absent : P absent)
    (declaration : ∀ n, P (.declaration n))
    (vars : ∀ n ds, P (.variables n ds))
    (action : ∀ n a, P (.action n a))
    (asm : ∀ n l es, P (.asm n l es))
    (ret : ∀ n v, P (.return n v))
    (defer : ∀ n s, P s → P (.defer n s))
    (block : ∀ n ss, (∀ s ∈ ss, P s) → P (.block n ss))
    (cond : ∀ n c t e, P t → P e → P (.if n c t e))
    (compileIf : ∀ n c t e, P t → P e → P (.compileIf n c t e))
    (loop : ∀ n c s, P s → P (.while n c s))
    (steps : ∀ n c p s, P s → P (.for n c p s))
    (leave : ∀ n, P (.break n))
    (next : ∀ n, P (.continue n))
    (switch : ∀ n sel type cs, (∀ c ∈ cs, P c.2) → P (.switch n sel type cs)) (s : Statement ν) : P s :=
  @Statement.rec ν P (fun ss => ∀ s ∈ ss, P s) (fun cs => ∀ c ∈ cs, P c.2) (fun c => P c.2) absent declaration
    vars action asm ret defer block cond compileIf loop steps leave next switch
    nofun (fun _ _ h hs => List.forall_mem_cons.mpr ⟨h, hs⟩) nofun
    (fun _ _ h hs => List.forall_mem_cons.mpr ⟨h, hs⟩) (fun _ _ h => h) s

def facts (s : Statement ν) : Facts where
  reachableAfter := s.completes
  isExhaustive   :=
    match s with
    | .switch _ _ type cs => isExhaustive type cs
    | _                   => false
  compileTimeSelection :=
    match s with
    | .compileIf _ c _ e => compileTimeSelection c e
    | _                  => 0

mutual

-- The rules for where statements may stand. Only what can be reached may stand in a block.
def WellPlaced : Context → Statement ν → Prop
  | ctx, .return _ v        => ctx.deferDepth = 0 ∧ 0 < ctx.functionDepth ∧ v.isNone = ctx.returnsVoid
  | ctx, .break _           => ctx.deferDepth = 0 ∧ 0 < ctx.loopDepth
  | ctx, .continue _        => ctx.deferDepth = 0 ∧ 0 < ctx.loopDepth
  | ctx, .defer _ s         => 0 < ctx.functionDepth ∧ ctx.deferDepth = 0 ∧ WellPlaced ctx.inDefer s
  | ctx, .block _ ss        => AllWellPlaced ctx ss
  | ctx, .if _ _ t e        => WellPlaced ctx t ∧ WellPlaced ctx e
  | ctx, .compileIf _ c t e =>
    match c.constBoolValue with
    | some true  => WellPlaced ctx t
    | some false => WellPlaced ctx e
    | none       => False
  | ctx, .while _ _ s       => WellPlaced ctx.inLoop s
  | ctx, .for _ _ _ s       => WellPlaced ctx.inLoop s
  | ctx, .switch _ _ _ cs   => (cs.map (·.1)).Nodup ∧ CasesWellPlaced ctx cs
  | _, _                    => True

def AllWellPlaced : Context → List (Statement ν) → Prop
  | _, []        => True
  | ctx, s :: ss => WellPlaced ctx s ∧ (ss ≠ [] → s.completes) ∧ AllWellPlaced ctx ss

def CasesWellPlaced : Context → List (Option Key × Statement ν) → Prop
  | _, []             => True
  | ctx, (_, s) :: cs => WellPlaced ctx s ∧ CasesWellPlaced ctx cs

end

mutual

-- The statement with what is known about it when everything in it is well placed.
def mark : Statement ν → Statement Facts
  | absent                   => absent
  | s@(declaration _)        => declaration s.facts
  | s@(.variables _ ds)      => .variables s.facts ds
  | s@(.action _ a)          => .action s.facts a
  | s@(asm _ l es)           => asm s.facts l es
  | s@(.return _ v)          => .return s.facts v
  | s@(defer _ d)            => defer s.facts d.mark
  | s@(block _ ss)           => block s.facts (markAll ss)
  | s@(.if _ c t e)          => .if s.facts c t.mark e.mark
  | s@(compileIf _ c t e)    =>
    match c.constBoolValue with
    | some true  => compileIf s.facts c t.mark absent
    | some false => compileIf s.facts c absent e.mark
    | none       => compileIf s.facts c absent absent
  | s@(.while _ c b)         => .while s.facts c b.mark
  | s@(.for _ c p b)         => .for s.facts c p b.mark
  | s@(.break _)             => .break s.facts
  | s@(.continue _)          => .continue s.facts
  | s@(switch _ sel type cs) => switch s.facts sel type (markCases cs)

def markAll : List (Statement ν) → List (Statement Facts)
  | []      => []
  | s :: ss => s.mark :: markAll ss

def markCases : List (Option Key × Statement ν) → List (Option Key × Statement Facts)
  | []           => []
  | (l, s) :: cs => (l, s.mark) :: markCases cs

end

theorem constBoolValue_eq_some {c : Expression} {b : Bool} (h : c.constBoolValue = some b) :
    c = .constant (.boolean b) := by
  unfold Expression.constBoolValue at h
  split at h
  case h_1 =>
    cases h
    rfl
  case h_2 => cases h

theorem eq_absent {s : Statement ν} (h : s.isAbsent) : s = absent := by
  cases s
  case absent => rfl
  all_goals cases h

theorem wellPlaced_compileIf {ctx : Context} {n : ν} {c : Expression} {t e : Statement ν}
    (h : (compileIf n c t e).WellPlaced ctx) :
    (c = .constant (.boolean true) ∧ t.WellPlaced ctx) ∨ (c = .constant (.boolean false) ∧ e.WellPlaced ctx) := by
  simp only [WellPlaced] at h
  split at h
  case h_1 hc => exact .inl ⟨constBoolValue_eq_some hc, h⟩
  case h_2 hc => exact .inr ⟨constBoolValue_eq_some hc, h⟩
  case h_3 => exact h.elim

variable {ctx : Context} {s : Statement ν} {ss : List (Statement ν)} {cs : List (Option Key × Statement ν)}

theorem breaksAny_eq_false (hs : ∀ s ∈ ss, s.WellPlaced ctx → s.breaks = false) (hw : AllWellPlaced ctx ss) :
    breaksAny ss = false := by
  induction ss
  case nil => rfl
  case cons s ss hi =>
    rw [List.forall_mem_cons] at hs
    simp [breaksAny, hs.1 hw.1, hi hs.2 hw.2.2]

theorem breaksCase_eq_false (hs : ∀ p ∈ cs, p.2.WellPlaced ctx → p.2.breaks = false) (hw : CasesWellPlaced ctx cs) :
    breaksCase cs = false := by
  induction cs
  case nil => rfl
  case cons p cs hi =>
    rw [List.forall_mem_cons] at hs
    exact Bool.or_eq_false_iff.mpr ⟨hs.1 hw.1, hi hs.2 hw.2⟩

-- A deferred statement does not leave the loop around it.
theorem breaks_eq_false (hw : s.WellPlaced ctx) (hd : 0 < ctx.deferDepth) : s.breaks = false := by
  induction s using Statement.ind generalizing ctx
  case leave => exact absurd hw.1 (Nat.ne_of_gt hd)
  case block hs => exact breaksAny_eq_false (fun s hm hw => hs s hm hw hd) hw
  case cond ht he => exact Bool.or_eq_false_iff.mpr ⟨ht hw.1 hd, he hw.2 hd⟩
  case compileIf c t e ht he =>
    obtain ⟨rfl, hw⟩ | ⟨rfl, hw⟩ := wellPlaced_compileIf hw
    case inl => exact ht hw hd
    case inr => exact he hw hd
  case switch hs => exact breaksCase_eq_false (fun p hm hw => hs p hm hw hd) hw.2
  all_goals rfl

end Statement

end Coglet.Control
