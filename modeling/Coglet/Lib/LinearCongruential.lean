import Mathlib.Data.BitVec
import Mathlib.Dynamics.PeriodicPts.Defs
import Mathlib.NumberTheory.Multiplicity
import Mathlib.Algebra.Order.Ring.GeomSum
import Mathlib.RingTheory.Coprime.Lemmas
import Mathlib.Data.Fintype.EquivFin
import Mathlib.Tactic.LinearCombination
import Mathlib.Tactic.Ring

-- Linear congruential generators modulo a power of two.
namespace LinearCongruential

open Finset Function

variable {w k n : Nat} {a c x y : BitVec w}

def step (a c x : BitVec w) : BitVec w :=
  x * a + c

theorem iterate_step (n : Nat) (x : BitVec w) : (step a c)^[n] x = x * a ^ n + c * ∑ i ∈ range n, a ^ i := by
  induction n
  case zero => simp
  case succ n hi =>
    rw [iterate_succ_apply', hi, step, sum_range_succ']
    simp only [pow_succ, ← sum_mul, pow_zero]
    ring

-- The difference to the first state is a multiple of the sum, with an odd factor if `a` and `c` are odd.
theorem iterate_step_sub (n : Nat) (x : BitVec w) :
    (step a c)^[n] x - x = (∑ i ∈ range n, a ^ i) * (x * (a - 1) + c) := by
  have h := geom_sum_mul a n
  rw [iterate_step]
  linear_combination - x * h

-- The sum has as many factors of two as its number of terms.
theorem two_pow_dvd_geom_sum {b : Int} (hb : 4 ∣ b - 1) : 2 ^ k ∣ ∑ i ∈ range n, b ^ i ↔ 2 ^ k ∣ (n : Int) := by
  have ho : ¬2 ∣ b := by omega
  have hm : emultiplicity 2 (∑ i ∈ range n, b ^ i) = emultiplicity 2 (n : Int) := by
    by_cases h1 : b = 1
    case pos => simp [h1]
    case neg =>
      have hf : FiniteMultiplicity 2 (b - 1) :=
        Int.finiteMultiplicity_iff.mpr ⟨by decide, sub_ne_zero.mpr h1⟩
      have h := Int.two_pow_sub_pow' n hb ho
      rw [one_pow, ← geom_sum_mul, emultiplicity_mul Int.prime_two, add_comm] at h
      exact ENat.add_right_injective_of_ne_top (finiteMultiplicity_iff_emultiplicity_ne_top.mp hf) h
  rw [pow_dvd_iff_le_emultiplicity, pow_dvd_iff_le_emultiplicity, hm]

theorem intCast_eq_zero_iff {z : Int} : (z : BitVec w) = 0 ↔ (2 : Int) ^ w ∣ z := by
  have h : ((2 ^ w : Nat) : Int) = 2 ^ w := by push_cast; rfl
  rw [← BitVec.toInt_inj, BitVec.toInt_intCast, ← h, Int.dvd_iff_bmod_eq_zero]
  rw [show (0 : BitVec w).toInt = 0 from BitVec.toInt_zero]

theorem natCast_toNat (x : BitVec w) : (x.toNat : BitVec w) = x := by
  simp

theorem iterate_eq_self_iff (ha : a.toNat % 4 = 1) (hc : c.toNat % 2 = 1) :
    (step a c)^[n] x = x ↔ 2 ^ w ∣ n := by
  let b : Int := a.toNat
  have hb : 4 ∣ b - 1 := by omega
  have hodd : IsCoprime ((2 : Int) ^ w) (x.toNat * (b - 1) + c.toNat) := by
    obtain ⟨d, hd⟩ := hb
    refine IsCoprime.pow_left ⟨-(x.toNat * (2 * d) + c.toNat / 2), 1, ?_⟩
    have hc' : (c.toNat : Int) = 2 * (c.toNat / 2) + 1 := by omega
    linear_combination hc' + x.toNat * hd
  have hs : (∑ i ∈ range n, a ^ i) * (x * (a - 1) + c) =
      (((∑ i ∈ range n, b ^ i) * (x.toNat * (b - 1) + c.toNat) : Int) : BitVec w) := by
    push_cast [b, natCast_toNat]
    rfl
  rw [← sub_eq_zero, iterate_step_sub, hs, intCast_eq_zero_iff, show _ ↔ _ from ⟨hodd.dvd_of_dvd_mul_right, fun h => Dvd.dvd.mul_right h _⟩, two_pow_dvd_geom_sum hb]
  exact_mod_cast Iff.rfl

theorem minimalPeriod_step (ha : a.toNat % 4 = 1) (hc : c.toNat % 2 = 1) : minimalPeriod (step a c) x = 2 ^ w := by
  have hp : IsPeriodicPt (step a c) (2 ^ w) x := (iterate_eq_self_iff ha hc).mpr (Nat.dvd_refl _)
  exact Nat.dvd_antisymm hp.minimalPeriod_dvd ((iterate_eq_self_iff ha hc).mp iterate_minimalPeriod)

theorem exists_iterate_eq (ha : a.toNat % 4 = 1) (hc : c.toNat % 2 = 1) (x y : BitVec w) :
    ∃ n < 2 ^ w, (step a c)^[n] x = y := by
  have hi : Injective fun n : Fin (2 ^ w) => (step a c)^[n] x := by
    intro n m h
    have hlt (n : Fin (2 ^ w)) : n.val < minimalPeriod (step a c) x := by
      rw [minimalPeriod_step ha hc]
      exact n.isLt
    exact Fin.ext (iterate_injOn_Iio_minimalPeriod (hlt n) (hlt m) h)
  obtain ⟨n, hn⟩ := (Finite.injective_iff_surjective_of_equiv BitVec.equivFin.symm.toEquiv).mp hi y
  exact ⟨n, n.isLt, hn⟩

end LinearCongruential
