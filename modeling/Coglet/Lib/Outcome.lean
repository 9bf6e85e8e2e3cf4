import Mathlib.Logic.Basic

-- Computations that may fail, and what holds of the result when they do not.
namespace Outcome

universe u

variable {α β : Type u} {ε : Type*} {m : Except ε α} {f : α → Except ε β} {P Q : α → Prop} {R : β → Prop} {a : α}

def Yields (m : Except ε α) (Q : α → Prop) : Prop :=
  ∃ a, m = .ok a ∧ Q a

namespace Yields

theorem ok (h : Q a) : Yields (.ok a : Except ε α) Q :=
  ⟨a, rfl, h⟩

theorem bind (h : Yields m Q) (hf : ∀ a, Q a → Yields (f a) R) : Yields (m >>= f) R := by
  obtain ⟨a, rfl, ha⟩ := h
  exact hf a ha

theorem mono (h : Yields m P) (hq : ∀ a, P a → Q a) : Yields m Q :=
  h.imp fun a => And.imp_right (hq a)

theorem of_ok (h : Yields m Q) (hm : m = .ok a) : Q a := by
  obtain ⟨_, rfl, ha⟩ := h
  cases hm
  exact ha

end Yields

-- What holds of the result if there is one.
def Ensures (m : Except ε α) (Q : α → Prop) : Prop :=
  ∀ a, m = .ok a → Q a

namespace Ensures

theorem ok (h : Q a) : Ensures (.ok a : Except ε α) Q :=
  fun _ he => Except.ok.inj he ▸ h

theorem error {e : ε} : Ensures (.error e : Except ε α) Q :=
  nofun

theorem bind (h : Ensures m Q) (hf : ∀ a, Q a → Ensures (f a) R) : Ensures (m >>= f) R := by
  intro b hb
  cases m
  case error => cases hb
  case ok a  => exact hf a (h a rfl) b hb

theorem mono (h : Ensures m P) (hq : ∀ a, P a → Q a) : Ensures m Q :=
  fun a he => hq a (h a he)

end Ensures

theorem Yields.and_ensures (h : Yields m P) (he : Ensures m Q) : Yields m fun a => P a ∧ Q a := by
  obtain ⟨a, rfl, ha⟩ := h
  exact ⟨a, rfl, ha, he a rfl⟩

def Fails (m : Except ε α) : Prop :=
  ∃ e, m = .error e

namespace Fails

theorem error {e : ε} : Fails (.error e : Except ε α) :=
  ⟨e, rfl⟩

theorem bind (h : Fails m) : Fails (m >>= f) := by
  obtain ⟨e, rfl⟩ := h
  exact ⟨e, rfl⟩

theorem bind_yields (h : Yields m Q) (hf : ∀ a, Q a → Fails (f a)) : Fails (m >>= f) := by
  obtain ⟨a, rfl, ha⟩ := h
  exact hf a ha

theorem not_yields (h : Fails m) : ¬Yields m Q := by
  obtain ⟨e, rfl⟩ := h
  exact fun ⟨_, h, _⟩ => Except.noConfusion rfl rfl (heq_of_eq h)

end Fails

end Outcome
