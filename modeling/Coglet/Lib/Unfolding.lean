import Mathlib.Computability.Language
import Mathlib.Data.Matrix.Mul
import Mathlib.Order.CompletePartialOrder

open scoped Computability Matrix

-- Languages that are approached step by step, where two ways to count the steps lead to the same one.
structure Unfolds {ε : Type*} (f g : Nat → Language ε) : Prop where
  le   : f ≤ g
  iSup : ⨆ n, g n ≤ ⨆ n, f n

namespace Unfolds

variable {ε : Type*} {a l : Language ε} {f f' g g' h : Nat → Language ε}

@[refl]
theorem refl : Unfolds f f :=
  ⟨le_refl f, le_rfl⟩

theorem of_eq (h : f = g) : Unfolds f g :=
  h ▸ .refl

theorem trans (h₁ : Unfolds f g) (h₂ : Unfolds g h) : Unfolds f h :=
  ⟨h₁.le.trans h₂.le, h₂.iSup.trans h₁.iSup⟩

theorem iSup_eq (h : Unfolds f g) : ⨆ n, f n = ⨆ n, g n :=
  le_antisymm (iSup_mono h.le) h.iSup

-- It does not matter when the counting starts.
theorem succ (hf : Monotone f) : Unfolds f fun n => f (n + 1) :=
  ⟨fun n => hf n.le_succ, iSup_le fun n => le_iSup f (n + 1)⟩

theorem add (h : Unfolds f g) (h' : Unfolds f' g') : Unfolds (fun n => f n + f' n) fun n => g n + g' n where
  le n := add_le_add (h.le n) (h'.le n)
  iSup := by
    have he (f g : Nat → Language ε) : ⨆ n, (f n + g n) = (⨆ n, f n) + ⨆ n, g n := iSup_sup_eq
    rw [he, he]
    exact add_le_add h.iSup h'.iSup

theorem mul (h : Unfolds f g) : Unfolds (fun n => a * f n) fun n => a * g n where
  le n := mul_le_mul_right (h.le n) a
  iSup := by
    rw [← Language.mul_iSup, ← Language.mul_iSup]
    exact mul_le_mul_right h.iSup a

theorem sum {O : Type*} {s : Finset O} {f g : Nat → O → Language ε} (h : ∀ o, Unfolds (f · o) (g · o)) :
    Unfolds (fun n => ∑ o ∈ s, f n o) fun n => ∑ o ∈ s, g n o := by
  induction s using Finset.cons_induction
  case empty => exact .refl
  case cons o s hs hi =>
    simp only [Finset.sum_cons]
    exact (h o).add hi

theorem dotProduct {O : Type*} [Fintype O] {r : O → Language ε} {f g : Nat → O → Language ε}
    (h : ∀ o, Unfolds (f · o) (g · o)) : Unfolds (fun n => r ⬝ᵥ f n) fun n => r ⬝ᵥ g n :=
  .sum fun o => (h o).mul

-- What goes around `a` any number of times before it goes on with `g`.
theorem loop (h₀ : f 0 = 0) (hg : Monotone g) (h : Unfolds (fun n => f (n + 1)) fun n => a * f n + g n) :
    Unfolds f fun n => a∗ * g n where
  le n := by
    induction n
    case zero => exact h₀.le.trans bot_le
    case succ n hi =>
      calc f (n + 1)
        _ ≤ a * f n + g n               := h.le n
        _ ≤ a * (a∗ * g n) + g n        := add_le_add_left (mul_le_mul_right hi a) _
        _ = (a * a∗ + 1) * g n          := by rw [add_mul, mul_assoc, one_mul]
        _ ≤ a∗ * g n                    := mul_le_mul_left (add_le mul_kstar_le_kstar one_le_kstar) _
        _ ≤ a∗ * g (n + 1)              := mul_le_mul_right (hg n.le_succ) _
  iSup := by
    have hs : ⨆ n, (a * f n + g n) ≤ ⨆ n, f n := h.iSup.trans (iSup_le fun n => le_iSup f (n + 1))
    have ha : a * ⨆ n, f n ≤ ⨆ n, f n := by
      rw [Language.mul_iSup]
      exact (iSup_mono fun n => le_add_of_nonneg_right bot_le).trans hs
    have hb : ⨆ n, g n ≤ ⨆ n, f n := (iSup_mono fun n => le_add_of_nonneg_left bot_le).trans hs
    rw [← Language.mul_iSup]
    exact kstar_mul_le hb ha

end Unfolds
