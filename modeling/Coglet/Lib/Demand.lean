import Mathlib.Data.List.Basic

-- Computations that ask for the values of named definitions while they run.
--
-- A computation over names `κ` with values `ν` either returns, fails, aborts, reports a diagnostic
-- `δ` or demands the value of a name. A name might not have a value, so the remainder of the
-- computation receives an `Option`.
inductive Demand (κ ν δ α : Type)
  | ret (a : α)
  | fail
  | abort
  | report (d : δ) (next : Demand κ ν δ α)
  | demand (silent : Bool) (c : κ) (next : Option ν → Demand κ ν δ α)

namespace Demand

inductive Outcome (α : Type)
  | value (a : α)
  | failed
  | aborted
deriving DecidableEq

def Outcome.bind : Outcome α → (α → Outcome β) → Outcome β
  | value a, f => f a
  | failed,  _ => failed
  | aborted, _ => aborted

theorem Outcome.bind_eq_value {o : Outcome α} {f : α → Outcome β} :
    o.bind f = .value b ↔ ∃ a, o = .value a ∧ f a = .value b := by
  cases o <;> simp [Outcome.bind]

variable {κ ν δ α β : Type}

def bind : Demand κ ν δ α → (α → Demand κ ν δ β) → Demand κ ν δ β
  | ret a,        f => f a
  | fail,         _ => fail
  | abort,        _ => abort
  | report d p,   f => report d (p.bind f)
  | demand s c k, f => demand s c fun o => (k o).bind f

instance : Monad (Demand κ ν δ) where
  pure := ret
  bind := bind

-- Reports a diagnostic and gives up.
def error (d : δ) : Demand κ ν δ α :=
  report d fail

-- The value of a name, without which the computation can not continue.
def require (c : κ) : Demand κ ν δ ν :=
  demand false c fun
    | some v => ret v
    | none   => fail

-- Runs a computation without diagnostics and turns its failure into a result.
def probe : Demand κ ν δ α → Demand κ ν δ (Option α)
  | ret a        => ret (some a)
  | fail         => ret none
  | abort        => abort
  | report _ p   => p.probe
  | demand _ c k => demand true c fun o => (k o).probe

-- Turns the failure of a computation into a result, but keeps its diagnostics.
def attempt : Demand κ ν δ α → Demand κ ν δ (Option α)
  | ret a        => ret (some a)
  | fail         => ret none
  | abort        => abort
  | report d p   => report d p.attempt
  | demand s c k => demand s c fun o => (k o).attempt

-- The run of a computation in which the names have the values of an environment.
section Run

variable (env : κ → Option ν)

def outcome : Demand κ ν δ α → Outcome α
  | ret a        => .value a
  | fail         => .failed
  | abort        => .aborted
  | report _ p   => p.outcome
  | demand _ c k => (k (env c)).outcome

def diagnostics : Demand κ ν δ α → List δ
  | ret _ | fail | abort => []
  | report d p   => d :: p.diagnostics
  | demand _ c k => (k (env c)).diagnostics

-- The names that a run asks for, together with whether it does so silently.
def demands : Demand κ ν δ α → List (Bool × κ)
  | ret _ | fail | abort => []
  | report _ p   => p.demands
  | demand s c k => (s, c) :: (k (env c)).demands

variable {env} {p : Demand κ ν δ α} {f : α → Demand κ ν δ β}

@[simp]
theorem outcome_pure : outcome env (pure a : Demand κ ν δ α) = .value a :=
  rfl

@[simp]
theorem outcome_ret : outcome env (ret a : Demand κ ν δ α) = .value a :=
  rfl

@[simp]
theorem outcome_fail : outcome env (fail : Demand κ ν δ α) = .failed :=
  rfl

@[simp]
theorem outcome_abort : outcome env (abort : Demand κ ν δ α) = .aborted :=
  rfl

@[simp]
theorem outcome_error : outcome env (error d : Demand κ ν δ α) = .failed :=
  rfl

@[simp]
theorem outcome_bind : outcome env (p >>= f) = (outcome env p).bind fun a => outcome env (f a) := by
  show outcome env (p.bind f) = _
  induction p
  case ret | fail | abort => rfl
  case report hi   => exact hi
  case demand hi   => exact hi _

@[simp]
theorem outcome_require :
    outcome env (require c : Demand κ ν δ ν) =
      match env c with
      | some v => .value v
      | none   => .failed := by
  cases h : env c <;> simp [require, outcome, h]

@[simp]
theorem outcome_probe :
    outcome env p.probe =
      match outcome env p with
      | .value a => .value (some a)
      | .failed  => .value none
      | .aborted => .aborted := by
  induction p
  case ret | fail | abort => rfl
  case report hi   => exact hi
  case demand hi   => exact hi _

@[simp]
theorem outcome_attempt :
    outcome env p.attempt =
      match outcome env p with
      | .value a => .value (some a)
      | .failed  => .value none
      | .aborted => .aborted := by
  induction p
  case ret | fail | abort => rfl
  case report hi   => exact hi
  case demand hi   => exact hi _

@[simp]
theorem diagnostics_pure : diagnostics env (pure a : Demand κ ν δ α) = [] :=
  rfl

@[simp]
theorem diagnostics_fail : diagnostics env (fail : Demand κ ν δ α) = [] :=
  rfl

@[simp]
theorem diagnostics_error : diagnostics env (error d : Demand κ ν δ α) = [d] :=
  rfl

@[simp]
theorem diagnostics_bind :
    diagnostics env (p >>= f) = diagnostics env p ++
      match outcome env p with
      | .value a => diagnostics env (f a)
      | _        => [] := by
  show diagnostics env (p.bind f) = _
  induction p
  case ret | fail | abort => simp [bind, diagnostics, outcome]
  case report hi   => simpa [bind, diagnostics, outcome] using hi
  case demand hi   => exact hi _

@[simp]
theorem diagnostics_require : diagnostics env (require c : Demand κ ν δ ν) = [] := by
  cases h : env c <;> simp [require, diagnostics, h]

@[simp]
theorem diagnostics_probe : diagnostics env p.probe = [] := by
  induction p
  case ret | fail | abort => rfl
  case report hi   => exact hi
  case demand hi   => exact hi _

@[simp]
theorem diagnostics_attempt : diagnostics env p.attempt = diagnostics env p := by
  induction p
  case ret | fail | abort => rfl
  case report hi   => exact congrArg _ hi
  case demand hi   => exact hi _

@[simp]
theorem demands_pure : demands env (pure a : Demand κ ν δ α) = [] :=
  rfl

@[simp]
theorem demands_fail : demands env (fail : Demand κ ν δ α) = [] :=
  rfl

@[simp]
theorem demands_error : demands env (error d : Demand κ ν δ α) = [] :=
  rfl

@[simp]
theorem demands_bind :
    demands env (p >>= f) = demands env p ++
      match outcome env p with
      | .value a => demands env (f a)
      | _        => [] := by
  show demands env (p.bind f) = _
  induction p
  case ret | fail | abort => simp [bind, demands, outcome]
  case report hi   => exact hi
  case demand hi   => simpa [bind, demands, outcome] using hi _

@[simp]
theorem demands_require : demands env (require c : Demand κ ν δ ν) = [(false, c)] := by
  cases h : env c <;> simp [require, demands, h]

@[simp]
theorem demands_probe : demands env p.probe = (demands env p).map fun (_, c) => (true, c) := by
  induction p
  case ret | fail | abort => rfl
  case report hi   => exact hi
  case demand hi   => simpa [probe, demands] using hi _

@[simp]
theorem demands_attempt : demands env p.attempt = demands env p := by
  induction p
  case ret | fail | abort => rfl
  case report hi   => exact hi
  case demand hi   => exact congrArg _ (hi _)

end Run

-- A run returns a value without having reported anything.
structure Succeeds (env : κ → Option ν) (p : Demand κ ν δ α) (a : α) : Prop where
  value : outcome env p = .value a
  quiet : diagnostics env p = []

section Succeeds

variable {env : κ → Option ν} {p : Demand κ ν δ α} {f : α → Demand κ ν δ β}

@[simp]
theorem succeeds_pure : Succeeds env (pure a : Demand κ ν δ α) b ↔ a = b where
  mp h  := by simpa using h.value
  mpr h := ⟨by simp [h], rfl⟩

@[simp]
theorem succeeds_fail : ¬Succeeds env (fail : Demand κ ν δ α) a :=
  fun h => nomatch h.value

@[simp]
theorem succeeds_abort : ¬Succeeds env (abort : Demand κ ν δ α) a :=
  fun h => nomatch h.value

@[simp]
theorem succeeds_error : ¬Succeeds env (error d : Demand κ ν δ α) a :=
  fun h => nomatch h.value

@[simp]
theorem succeeds_bind : Succeeds env (p >>= f) b ↔ ∃ a, Succeeds env p a ∧ Succeeds env (f a) b where
  mp h := by
    have ⟨a, hp, hf⟩ := Outcome.bind_eq_value.mp (outcome_bind.symm.trans h.value)
    have hq := h.quiet
    simp only [diagnostics_bind, hp, List.append_eq_nil_iff] at hq
    exact ⟨a, ⟨hp, hq.left⟩, hf, hq.right⟩
  mpr := by
    intro ⟨a, hp, hf⟩
    exact ⟨by simp [hp.value, Outcome.bind, hf.value], by simp [hp.value, hp.quiet, hf.quiet]⟩

@[simp]
theorem succeeds_require : Succeeds env (require c : Demand κ ν δ ν) v ↔ env c = some v where
  mp h  := by
    have hv := h.value
    cases hc : env c <;> simp [hc] at hv ⊢
    exact hv
  mpr h := ⟨by simp [h], by simp⟩

theorem succeeds_attempt_some : Succeeds env p.attempt (some a) ↔ Succeeds env p a := by
  constructor <;> intro h
  case mp =>
    have hv := h.value
    refine ⟨?_, by simpa using h.quiet⟩
    cases ho : outcome env p <;> simp [ho] at hv ⊢
    exact hv
  case mpr => exact ⟨by simp [h.value], by simp [h.quiet]⟩

theorem Succeeds.unique (h : Succeeds env p a) (h' : Succeeds env p b) : a = b := by
  simpa [h.value] using h'.value

end Succeeds
end Demand
