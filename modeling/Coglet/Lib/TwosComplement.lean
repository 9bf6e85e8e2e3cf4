import Mathlib.Data.Int.Bitwise
import Mathlib.Tactic.Linarith
import Mathlib.Tactic.Ring

-- Fixed-width integers as bit patterns together with a signedness with which a pattern is read.
namespace TwosComplement

-- The integer that a bit pattern denotes.
def decode (signed : Bool) (x : BitVec w) : Int :=
  if signed then x.toInt else x.toNat

def InRange (signed : Bool) (w : Nat) (z : Int) : Prop :=
  if signed then -2 ^ (w - 1) ≤ z ∧ z < 2 ^ (w - 1) else 0 ≤ z ∧ z < 2 ^ w

instance : Decidable (InRange signed w z) := by
  unfold InRange
  split <;> infer_instance

-- The residue of an integer modulo `2 ^ w`, read with the given signedness.
def wrap (signed : Bool) (w : Nat) (z : Int) : Int :=
  decode signed (BitVec.ofInt w z)

theorem inRange_signed : InRange true w z ↔ -2 ^ (w - 1) ≤ z ∧ z < 2 ^ (w - 1) :=
  Iff.rfl

theorem inRange_unsigned : InRange false w z ↔ 0 ≤ z ∧ z < 2 ^ w :=
  Iff.rfl

theorem two_pow_eq_double (hw : 0 < w) : (2 : Int) ^ w = 2 ^ (w - 1) + 2 ^ (w - 1) := by
  obtain ⟨n, rfl⟩ := Nat.exists_eq_succ_of_ne_zero hw.ne'
  simp only [Nat.succ_eq_add_one, Nat.add_sub_cancel, pow_succ]
  ring

theorem decode_inRange (hw : 0 < w) (x : BitVec w) : InRange signed w (decode signed x) := by
  cases signed
  case false =>
    have hl : (x.toNat : Int) < 2 ^ w := by exact_mod_cast x.isLt
    exact inRange_unsigned.mpr ⟨Int.natCast_nonneg _, hl⟩
  case true =>
    have hl := BitVec.two_mul_toInt_lt (x := x)
    have hg := BitVec.le_two_mul_toInt (x := x)
    have hp := two_pow_eq_double hw
    rw [inRange_signed]
    simp only [decode, ite_true]
    constructor <;> linarith

theorem ofInt_decode (signed : Bool) (x : BitVec w) : BitVec.ofInt w (decode signed x) = x := by
  cases signed <;> simp [decode]

theorem decode_ofInt (hw : 0 < w) (h : InRange signed w z) : decode signed (BitVec.ofInt w z) = z := by
  cases signed
  case true =>
    rw [inRange_signed] at h
    exact BitVec.toInt_ofInt_eq_self hw h.left h.right
  case false =>
    rw [inRange_unsigned] at h
    have hp : ((2 ^ w : Nat) : Int) = 2 ^ w := by push_cast; rfl
    simp only [decode, Bool.false_eq_true, ite_false, BitVec.toNat_ofInt]
    rw [Int.emod_eq_of_lt h.left (hp ▸ h.right), Int.toNat_of_nonneg h.left]

-- A bit pattern of width `w` held in the low bits of a wider word.
section Embedding

variable {w n : Nat}

theorem setWidth_setWidth_of_le (hw : w ≤ n) (x : BitVec w) : (x.setWidth n).setWidth w = x := by
  simp [BitVec.setWidth_setWidth_of_le, hw]

theorem setWidth_ushiftRight (hw : w ≤ n) (x : BitVec w) (c : Nat) :
    ((x.setWidth n) >>> c).setWidth w = x >>> c := by
  ext i hi
  simp only [BitVec.getElem_setWidth, BitVec.getLsbD_ushiftRight, BitVec.getLsbD_setWidth,
    BitVec.getElem_ushiftRight]
  by_cases hc : c + i < w
  case pos => simp [show c + i < n by omega]
  case neg => simp [BitVec.getLsbD_of_ge x (c + i) (by omega)]

theorem setWidth_ofInt (hw : w ≤ n) (z : Int) : (BitVec.ofInt n z).setWidth w = BitVec.ofInt w z := by
  have hd : ((2 ^ w : Nat) : Int) ∣ ((2 ^ n : Nat) : Int) := Int.natCast_dvd_natCast.mpr (Nat.pow_dvd_pow 2 hw)
  have hn := Int.emod_nonneg z (b := ((2 ^ n : Nat) : Int)) (by positivity)
  have hm := Int.emod_nonneg z (b := ((2 ^ w : Nat) : Int)) (by positivity)
  apply BitVec.eq_of_toNat_eq
  rw [BitVec.toNat_setWidth, BitVec.toNat_ofInt, BitVec.toNat_ofInt]
  apply Int.natCast_inj.mp
  rw [Int.natCast_mod, Int.toNat_of_nonneg hn, Int.toNat_of_nonneg hm]
  exact Int.emod_emod_of_dvd z hd

-- The low bits of a number do not depend on how the number is extended.
theorem truncate_eq_ofInt (signed : Bool) (x : BitVec n) (hw : w ≤ n) :
    x.setWidth w = BitVec.ofInt w (decode signed x) := by
  rw [← setWidth_ofInt hw, ofInt_decode]

theorem setWidth_toNat (hw : w ≤ n) (x : BitVec w) : (x.setWidth n).toNat = x.toNat := by
  have hx : x.toNat < 2 ^ n := x.isLt.trans_le (Nat.pow_le_pow_right (by decide) hw)
  rw [BitVec.toNat_setWidth, Nat.mod_eq_of_lt hx]

end Embedding
end TwosComplement
