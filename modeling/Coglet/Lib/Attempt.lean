import Mathlib.Logic.Basic

-- Steps that may fail on the way. A step returns the state in which it stopped, and its result unless it failed.
namespace Attempt

def fail (s : σ) : σ × Option α :=
  (s, none)

def done (s : σ) (result : α) : σ × Option α :=
  (s, some result)

-- A failure leaves the state as it was before.
def Atomic (s : σ) (outcome : σ × Option α) : Prop :=
  outcome.2 = none → outcome.1 = s

namespace Atomic

variable {s s' : σ} {c : Prop} [Decidable c] {a b : σ × Option α}

theorem fail : Atomic s (fail s : σ × Option α) :=
  fun _ => rfl

theorem done {result : α} : Atomic s (Attempt.done s' result) :=
  nofun

theorem ite (ha : c → Atomic s a) (hb : ¬c → Atomic s b) : Atomic s (if c then a else b) := by
  split
  case isTrue h => exact ha h
  case isFalse h => exact hb h

theorem guard (h : ¬c → Atomic s a) : Atomic s (if c then Attempt.fail s else a) :=
  .ite (fun _ => .fail) h

theorem fail_iff : Atomic s (Attempt.fail s' : σ × Option α) ↔ s' = s :=
  ⟨fun h => h rfl, fun h _ => h⟩

end Atomic

end Attempt
