import Mathlib.Algebra.Ring.Nat
import Mathlib.Data.Nat.Size
import Mathlib.Order.Bounds.Basic

-- The highest bit of a number is copied to all of the bits below it.
namespace BitSmear

variable {x y n k : Nat}

-- A bit is set if one of the `n` bits of `x` from its position on is set.
def Smears (n x y : Nat) : Prop :=
  ∀ i, y.testBit i ↔ ∃ d < n, x.testBit (i + d)

theorem smears_one : Smears 1 x x := by
  intro i
  constructor
  case mp => exact fun h => ⟨0, Nat.one_pos, h⟩
  case mpr =>
    rintro ⟨d, hd, h⟩
    cases Nat.lt_one_iff.mp hd
    exact h

theorem Smears.double (h : Smears n x y) : Smears (n + n) x (y ||| y >>> n) := by
  intro i
  rw [Nat.testBit_or, Nat.testBit_shiftRight, Bool.or_eq_true, h i, h (n + i)]
  constructor
  case mp =>
    rintro (⟨d, hd, hx⟩ | ⟨d, hd, hx⟩)
    · exact ⟨d, by omega, hx⟩
    · exact ⟨n + d, by omega, by rwa [← Nat.add_assoc, Nat.add_comm i n]⟩
  case mpr =>
    rintro ⟨d, hd, hx⟩
    by_cases hn : d < n
    case pos => exact .inl ⟨d, hn, hx⟩
    case neg =>
      have hi : n + i + (d - n) = i + d := by omega
      exact .inr ⟨d - n, by omega, hi ▸ hx⟩

-- The smeared number covers the bits of `x` when `x` has at most `n` of them.
theorem Smears.eq (h : Smears n x y) (hx : x < 2 ^ n) : y = 2 ^ x.size - 1 := by
  apply Nat.eq_of_testBit_eq
  intro i
  rw [Nat.testBit_two_pow_sub_one, Bool.eq_iff_iff, h i, decide_eq_true_iff, Nat.lt_size]
  constructor
  case mp =>
    rintro ⟨d, _, hd⟩
    exact (Nat.pow_le_pow_right Nat.two_pos (Nat.le_add_right i d)).trans (Nat.ge_two_pow_of_testBit hd)
  case mpr =>
    intro hi
    have ⟨j, hj, hb⟩ := Nat.exists_ge_and_testBit_of_ge_two_pow hi
    have hn : j < n := (Nat.pow_lt_pow_iff_right (by decide)).mp ((Nat.ge_two_pow_of_testBit hb).trans_lt hx)
    exact ⟨j - i, by omega, by rwa [Nat.add_sub_cancel' hj]⟩

-- The powers of two from a number on.
def powersFrom (x : Nat) : Set Nat :=
  {p | p.isPowerOfTwo ∧ x ≤ p}

theorem size_isLeast (hx : 0 < x) : IsLeast (powersFrom x) (2 ^ (x - 1).size) := by
  constructor
  case left => exact ⟨⟨_, rfl⟩, Nat.le_of_pred_lt (Nat.lt_size_self (x - 1))⟩
  case right =>
    rintro p ⟨⟨k, rfl⟩, hk⟩
    exact Nat.pow_le_pow_right Nat.two_pos (Nat.size_le.mpr (by omega))

theorem size_le_iff (hx : 0 < x) : (x - 1).size ≤ k ↔ x ≤ 2 ^ k := by
  rw [Nat.size_le]
  omega

end BitSmear
