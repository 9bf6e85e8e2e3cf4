import Coglet.Lib.BitSmear
import Coglet.Lib.Region
import Coglet.Stdlib.Checked

-- The integer utilities of `std.math`.
namespace Coglet.Stdlib.Math

open BitSmear StructLayout

def isPowerOfTwo (value : BitVec 64) : Run Bool := do
  if value = 0#64 then return false
  let rest ← checked .minus value 1#64
  return value &&& rest = 0

-- The assignment `result |= result >> count`.
def orShift (result count : BitVec 64) : Run (BitVec 64) := do
  let shifted ← shift .shiftRight result count
  return result ||| shifted

def nextPowerOfTwo (value : BitVec 64) : Run (BitVec 64) := do
  if value = 0#64 then return 1#64
  let result ← checked .minus value 1#64
  let result ← orShift result 1#64
  let result ← orShift result 2#64
  let result ← orShift result 4#64
  let result ← orShift result 8#64
  let result ← orShift result 16#64
  let result ← orShift result 32#64
  checked .plus result 1#64

def alignUp (value alignment : BitVec 64) : Run (BitVec 64) := do
  let sum ← checked .plus value alignment
  let last ← checked .minus sum 1#64
  let low ← checked .minus alignment 1#64
  return last &&& ~~~low

variable {value alignment result count : BitVec 64} {x : Nat}

theorem checked_minus_one (h : value ≠ 0#64) : checked .minus value 1#64 = .ok (value - 1#64) := by
  rw [checked_minus, if_pos]
  rw [BitVec.le_def]
  exact Nat.pos_of_ne_zero (BitVec.toNat_ne.mp h)

theorem toNat_sub_one (h : value ≠ 0#64) : (value - 1#64).toNat = value.toNat - 1 :=
  Alignment.toNat_sub_one (Nat.pos_of_ne_zero (BitVec.toNat_ne.mp h))

theorem isPowerOfTwo_eq (value : BitVec 64) : isPowerOfTwo value = .ok (decide value.toNat.isPowerOfTwo) := by
  have hp := @Nat.ne_zero_and_sub_one_eq_zero_iff_isPowerOfTwo value.toNat
  unfold isPowerOfTwo
  by_cases h : value = 0#64
  case pos =>
    subst h
    rfl
  case neg =>
    rw [if_neg h, checked_minus_one h, Run.ok_bind]
    congr 1
    rw [decide_eq_decide, ← hp, ← BitVec.toNat_inj, BitVec.toNat_and, toNat_sub_one h]
    exact ⟨fun hz => ⟨BitVec.toNat_ne.mp h, hz⟩, And.right⟩

theorem orShift_smears (count : BitVec 64) (hc : count.toNat < 64) (h : Smears count.toNat x result.toNat) :
    ∃ next, orShift result count = .ok next ∧ Smears (count.toNat + count.toNat) x next.toNat := by
  refine ⟨result ||| result >>> count.toNat, ?_, ?_⟩
  · simp only [orShift, shift, if_pos hc]
    rfl
  · rw [BitVec.toNat_or, BitVec.toNat_ushiftRight]
    exact h.double

theorem nextPowerOfTwo_of_ne_zero (h : value ≠ 0#64) : ∃ result, result.toNat = 2 ^ (value.toNat - 1).size - 1 ∧
    nextPowerOfTwo value = checked .plus result 1#64 := by
  obtain ⟨r₁, e₁, s₁⟩ := orShift_smears 1#64 (by decide) (@smears_one (value - 1#64).toNat)
  obtain ⟨r₂, e₂, s₂⟩ := orShift_smears 2#64 (by decide) s₁
  obtain ⟨r₃, e₃, s₃⟩ := orShift_smears 4#64 (by decide) s₂
  obtain ⟨r₄, e₄, s₄⟩ := orShift_smears 8#64 (by decide) s₃
  obtain ⟨r₅, e₅, s₅⟩ := orShift_smears 16#64 (by decide) s₄
  obtain ⟨r₆, e₆, s₆⟩ := orShift_smears 32#64 (by decide) s₅
  refine ⟨r₆, ?_, ?_⟩
  · rw [← toNat_sub_one h]
    exact s₆.eq (value - 1#64).isLt
  · rw [nextPowerOfTwo, if_neg h, checked_minus_one h, Run.ok_bind, e₁, Run.ok_bind, e₂, Run.ok_bind, e₃, Run.ok_bind,
      e₄, Run.ok_bind, e₅, Run.ok_bind, e₆, Run.ok_bind]

-- The least power of two that is not below the value, where it is representable.
def RoundsToPower (value : BitVec 64) : Prop :=
  if value.toNat ≤ 2 ^ 63 then
    ∃ p, nextPowerOfTwo value = .ok p ∧ IsLeast (powersFrom value.toNat) p.toNat
  else
    nextPowerOfTwo value = .error .trap

theorem nextPowerOfTwo_roundsToPower (value : BitVec 64) : RoundsToPower value := by
  unfold RoundsToPower
  by_cases h : value = 0#64
  case pos =>
    subst h
    exact ⟨1, rfl, ⟨Nat.isPowerOfTwo_one, Nat.zero_le 1⟩, fun _ hp => Nat.pos_of_isPowerOfTwo hp.1⟩
  case neg =>
    obtain ⟨result, hr, hn⟩ := nextPowerOfTwo_of_ne_zero h
    have hv : 0 < value.toNat := Nat.pos_of_ne_zero (BitVec.toNat_ne.mp h)
    have hp := Nat.two_pow_pos (value.toNat - 1).size
    have hs : result.toNat + (1#64).toNat = 2 ^ (value.toNat - 1).size := by
      rw [hr]
      exact Nat.sub_add_cancel hp
    rw [hn, checked_plus, hs]
    split
    case isTrue hle =>
      have hlt : 2 ^ (value.toNat - 1).size < 2 ^ 64 :=
        Nat.pow_lt_pow_right (by decide) (Nat.lt_succ_of_le ((size_le_iff hv).mpr hle))
      refine ⟨result + 1#64, if_pos hlt, ?_⟩
      rw [BitVec.toNat_add_of_lt (hs ▸ hlt), hs]
      exact size_isLeast hv
    case isFalse hle =>
      have hlt : 63 < (value.toNat - 1).size := Nat.lt_of_not_le fun h => hle ((size_le_iff hv).mp h)
      exact if_neg (Nat.not_lt.mpr (Nat.pow_le_pow_right Nat.two_pos hlt))

example : nextPowerOfTwo 17#64 = .ok 32#64 := by decide

-- The least multiple of the alignment that is not below the value, where it is representable.
def AlignsUp (value alignment : BitVec 64) : Prop :=
  ∀ p : BitVec 64, IsLeast {x | value.toNat ≤ x ∧ alignment.toNat ∣ x} p.toNat → alignUp value alignment = .ok p

theorem alignUp_eq (ha : alignment.toNat.isPowerOfTwo) : alignUp value alignment =
    if value.toNat + alignment.toNat < 2 ^ 64 then .ok (Alignment.alignUp value alignment) else .error .trap := by
  have hp : 0 < alignment.toNat := Nat.pos_of_isPowerOfTwo ha
  have hz : alignment ≠ 0#64 := BitVec.toNat_ne.mpr (Nat.ne_of_gt hp)
  rw [alignUp, checked_plus]
  split
  case isTrue h =>
    have hs : value + alignment ≠ 0#64 := by
      rw [BitVec.toNat_ne, BitVec.toNat_add_of_lt h]
      exact Nat.ne_of_gt (Nat.add_pos_right _ hp)
    have hl : value + alignment - 1#64 = value + (alignment - 1#64) := by
      rw [BitVec.sub_eq_add_neg, BitVec.sub_eq_add_neg, BitVec.add_assoc]
    rw [Run.ok_bind, checked_minus_one hs, Run.ok_bind, checked_minus_one hz, Run.ok_bind, hl, Alignment.alignUp]
    rfl
  case isFalse => rfl

-- Only the sum behind the last multiple is out of range, and that multiple is the result.
theorem alignsUp_iff (ha : alignment.toNat.isPowerOfTwo) :
    AlignsUp value alignment ↔ value.toNat + alignment.toNat ≠ 2 ^ 64 := by
  have hp : 0 < alignment.toNat := Nat.pos_of_isPowerOfTwo ha
  have hl := @roundUp_isLeast value.toNat _ hp
  have hr := @Alignment.roundUp_lt_iff 64 value _ ha
  constructor
  case mp =>
    intro h he
    have hlt : roundUp value.toNat alignment.toNat < 2 ^ 64 := hr.mpr (by omega)
    have hp := h (BitVec.ofNat 64 (roundUp value.toNat alignment.toNat)) (by
      rwa [BitVec.toNat_ofNat, Nat.mod_eq_of_lt hlt])
    rw [alignUp_eq ha, he] at hp
    cases hp
  case mpr =>
    intro hn p h
    have he : p.toNat = roundUp value.toNat alignment.toNat := h.unique hl
    have hlt := hr.mp (he ▸ p.isLt)
    rw [alignUp_eq ha, if_pos (by omega)]
    congr 1
    apply BitVec.eq_of_toNat_eq
    rw [he, Alignment.toNat_alignUp_of_lt ha (he ▸ p.isLt)]

theorem rounding_iff (value : BitVec 64) (ha : alignment.toNat.isPowerOfTwo) :
    AlignsUp value alignment ∧ RoundsToPower value ↔ value.toNat + alignment.toNat ≠ 2 ^ 64 := by
  rw [alignsUp_iff ha]
  exact and_iff_left (nextPowerOfTwo_roundsToPower value)

theorem rounding_iff_sixteen :
    AlignsUp 17#64 16#64 ∧ RoundsToPower 17#64 ↔ (17#64).toNat + (16#64).toNat ≠ 2 ^ 64 :=
  rounding_iff 17#64 ⟨4, rfl⟩

-- The last multiple of 16 is its own least multiple, but the sum with the alignment is computed first.
theorem alignUp_last_multiple_traps : (16#64).toNat.isPowerOfTwo ∧
    IsLeast {x | (0xfffffffffffffff0#64).toNat ≤ x ∧ (16#64).toNat ∣ x} (0xfffffffffffffff0#64).toNat ∧
      alignUp 0xfffffffffffffff0#64 16#64 = .error .trap ∧ ¬AlignsUp 0xfffffffffffffff0#64 16#64 := by
  have hl : IsLeast {x | (0xfffffffffffffff0#64).toNat ≤ x ∧ (16#64).toNat ∣ x} (0xfffffffffffffff0#64).toNat :=
    ⟨⟨Nat.le_refl _, by decide⟩, fun _ h => h.1⟩
  have ht : alignUp 0xfffffffffffffff0#64 16#64 = .error .trap := by decide
  exact ⟨⟨4, rfl⟩, hl, ht, fun h => nomatch ht.symm.trans (h _ hl)⟩

end Coglet.Stdlib.Math
