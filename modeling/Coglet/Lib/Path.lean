import Mathlib.Data.List.Basic
import Mathlib.Data.List.Infix

-- The paths of structured programs.
--
-- A path is a sequence of events `ε`, each of which acts on a state `σ` or faults. What a program does
-- is described by the paths that its control flow permits, and properties of paths are proven in the
-- style of Hoare logic.
namespace Path

-- How control leaves a statement. Not every path of a program is finite, so a path may be interrupted.
inductive Exit
  | normal
  | broke
  | continued
  | returned
  | interrupted
deriving DecidableEq, Repr

-- The paths of a loop, given those of its condition, its body and whatever follows each iteration.
inductive Loop {ε : Type} (enter leave : List ε → Prop) (body : List ε → Exit → Prop) (post : List ε → Prop) :
    List ε → Exit → Prop
  | interrupt : Loop enter leave body post [] .interrupted
  | leave     : leave c → Loop enter leave body post c .normal
  | broke     : enter c → body p .broke → Loop enter leave body post (c ++ p) .normal
  | exit      :
    enter c → body p e → e = .returned ∨ e = .interrupted → Loop enter leave body post (c ++ p) e
  | next      :
    enter c → body p e → e = .normal ∨ e = .continued → post q → Loop enter leave body post r e' →
    Loop enter leave body post (c ++ p ++ q ++ r) e'

variable {ε σ : Type} (step : ε → σ → Option σ)

def run (path : List ε) (s : σ) : Option σ :=
  path.foldlM (fun s e => step e s) s

-- A path that starts in a state that satisfies `P` does not fault and ends in one that satisfies `Q`.
def Triple (P : σ → Prop) (path : List ε) (Q : σ → Prop) : Prop :=
  ∀ s, P s → ∃ s', run step path s = some s' ∧ Q s'

variable {step} {P Q R : σ → Prop} {p q : List ε}

@[simp]
theorem run_nil : run step [] s = some s :=
  rfl

@[simp]
theorem run_append : run step (p ++ q) s = (run step p s).bind (run step q) := by
  simp [run, List.foldlM_append]
  rfl

-- A step function that faults more often permits fewer runs.
theorem run_of_le {step' : ε → σ → Option σ} (hs : ∀ e s s', step' e s = some s' → step e s = some s')
    (h : run step' p s = some s') : run step p s = some s' := by
  induction p generalizing s
  case nil => exact h
  case cons e p hi =>
    cases he : step' e s
    case none   => simp [run, he] at h
    case some t =>
      have ht : run step p t = some s' := hi (by simpa [run, he] using h)
      simpa [run, hs _ _ _ he] using ht

-- Whatever each event preserves holds after each prefix of a path that does not fault.
theorem run_invariant (hs : ∀ e ∈ p, ∀ s s', P s → step e s = some s' → P s') (h : P s)
    (hr : run step p s = some s') (hq : q <+: p) : ∃ t, run step q s = some t ∧ P t := by
  induction q generalizing p s
  case nil => exact ⟨s, rfl, h⟩
  case cons e q hi =>
    obtain ⟨r, rfl⟩ := hq
    cases he : step e s
    case none   => simp [run, he] at hr
    case some t =>
      have hp := hs e (by simp) s t h he
      have ⟨u, hu, hp⟩ := hi (fun e he => hs e (List.mem_cons_of_mem _ he)) hp
        (by simpa [run, he] using hr) (List.prefix_append q r)
      exact ⟨u, by simpa [run, he] using hu, hp⟩

namespace Triple

theorem nil (h : ∀ s, P s → Q s) : Triple step P [] Q :=
  fun s hp => ⟨s, rfl, h s hp⟩

theorem append (hp : Triple step P p Q) (hq : Triple step Q q R) : Triple step P (p ++ q) R := by
  intro s h
  have ⟨t, ht, h⟩ := hp s h
  have ⟨u, hu, h⟩ := hq t h
  exact ⟨u, by simp [ht, hu], h⟩

theorem single (h : ∀ s, P s → ∃ s', step e s = some s' ∧ Q s') : Triple step P [e] Q := by
  intro s hp
  have ⟨s', hs, hq⟩ := h s hp
  exact ⟨s', by simp [run, hs], hq⟩

theorem consequence (h : Triple step P p Q) (hp : ∀ s, P' s → P s) (hq : ∀ s, Q s → Q' s) :
    Triple step P' p Q' := by
  intro s hs
  have ⟨t, ht, h⟩ := h s (hp s hs)
  exact ⟨t, ht, hq t h⟩

end Triple

-- What holds after a statement that control leaves in one of several ways.
def after (N A : σ → Prop) (X : Exit → σ → Prop) : Exit → σ → Prop
  | .normal | .continued => N
  | .broke               => A
  | e                    => X e

def afterLoop (A : σ → Prop) (X : Exit → σ → Prop) : Exit → σ → Prop
  | .normal => A
  | e       => X e

-- The rule for loops, where `I` is an invariant, `C` holds in front of the body and `N` after it, and `A`
-- holds after the loop.
theorem Loop.triple {enter leave : List ε → Prop} {body : List ε → Exit → Prop} {post : List ε → Prop}
    {I C N A : σ → Prop} {X : Exit → σ → Prop} (h : Loop enter leave body post p e)
    (he : ∀ c, enter c → Triple step I c C) (hl : ∀ c, leave c → Triple step I c A)
    (hb : ∀ p e, body p e → Triple step C p (after N A X e))
    (hp : ∀ q, post q → Triple step N q I) (hi : ∀ s, I s → X .interrupted s) :
    Triple step I p (afterLoop A X e) := by
  induction h
  case interrupt      => exact .nil hi
  case leave hc       => exact hl _ hc
  case broke hc hb'   => exact (he _ hc).append (hb _ _ hb')
  case exit hc hb' hx =>
    refine (he _ hc).append ((hb _ _ hb').consequence (fun _ h => h) ?_)
    rcases hx with rfl | rfl <;> exact fun _ h => h
  case next hc hb' hx hq _ hr =>
    refine .append (.append (.append (he _ hc) ((hb _ _ hb').consequence (fun _ h => h) ?_)) (hp _ hq)) hr
    rcases hx with rfl | rfl <;> exact fun _ h => h

end Path
