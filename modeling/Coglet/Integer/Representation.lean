import Coglet.Integer.Basic
import Coglet.Lib.TwosComplement

open TwosComplement

namespace Coglet

namespace TypeKind

variable {kind : TypeKind} {info : IntegerTypeInfo}

theorem integerTypeInfo_width (h : kind.integerTypeInfo = some info) :
    info.bitWidth = 8 ∨ info.bitWidth = 16 ∨ info.bitWidth = 32 ∨ info.bitWidth = 64 := by
  cases kind <;> simp [integerTypeInfo] at h <;> simp [← h]

theorem bitWidth_pos (h : kind.integerTypeInfo = some info) : 0 < info.bitWidth := by
  have := integerTypeInfo_width h
  omega

theorem bitWidth_le (h : kind.integerTypeInfo = some info) : info.bitWidth ≤ 64 := by
  have := integerTypeInfo_width h
  omega

theorem isConcreteInteger_of_info (h : kind.integerTypeInfo = some info) : kind.isConcreteInteger := by
  simp [isConcreteInteger, h]

theorem isSignedInteger_of_info (h : kind.integerTypeInfo = some info) :
    kind.isSignedInteger = info.isSigned := by
  simp [isSignedInteger, h]

theorem integerBitWidth_of_info (h : kind.integerTypeInfo = some info) :
    kind.integerBitWidth = some info.bitWidth := by
  simp [integerBitWidth, h]

theorem ne_untypedInt_of_info (h : kind.integerTypeInfo = some info) : kind ≠ .untypedInt := by
  rintro rfl
  simp [integerTypeInfo] at h

end TypeKind

section Mask

variable {w : Nat}

theorem one_shiftLeft_toNat (h : w < 64) : (1#64 <<< w).toNat = 2 ^ w := by
  have hp : 2 ^ w < 2 ^ 64 := Nat.pow_lt_pow_right (by decide) h
  rw [BitVec.toNat_shiftLeft, Nat.shiftLeft_eq, BitVec.toNat_ofNat]
  simpa using hp

theorem one_shiftLeft_sub_one_toNat (h : w < 64) : (1#64 <<< w - 1#64).toNat = 2 ^ w - 1 := by
  have h1 := Nat.one_le_two_pow (n := w)
  have hle : 1#64 ≤ 1#64 <<< w := by
    rw [BitVec.le_def, one_shiftLeft_toNat h]
    simpa using h1
  rw [BitVec.toNat_sub_of_le hle, one_shiftLeft_toNat h]
  rfl

theorem integerWidthMask_toNat (h : w ≤ 64) : (integerWidthMask w).toNat = 2 ^ w - 1 := by
  unfold integerWidthMask
  split
  case isTrue he => simp [he]
  case isFalse he =>
    have hs := one_shiftLeft_toNat (w := w) (by omega)
    have hp : 2 ^ w < 2 ^ 64 := Nat.pow_lt_pow_right (by decide) (by omega)
    have h1 : 1 ≤ 2 ^ w := Nat.one_le_two_pow
    rw [BitVec.toNat_sub, hs, BitVec.toNat_ofNat]
    omega

theorem and_mask_toNat (h : w ≤ 64) (x : BitVec 64) :
    (x &&& integerWidthMask w).toNat = x.toNat % 2 ^ w := by
  rw [BitVec.toNat_and, integerWidthMask_toNat h, Nat.and_two_pow_sub_one_eq_mod]

-- Masking keeps exactly the bits of the type.
theorem setWidth_and_mask (h : w ≤ 64) (x : BitVec 64) :
    (x &&& integerWidthMask w).setWidth w = x.setWidth w := by
  apply BitVec.eq_of_toNat_eq
  rw [BitVec.toNat_setWidth, BitVec.toNat_setWidth, and_mask_toNat h, Nat.mod_mod]

theorem and_mask_eq_setWidth (h : w ≤ 64) (x : BitVec 64) :
    x &&& integerWidthMask w = (x.setWidth w).setWidth 64 := by
  apply BitVec.eq_of_toNat_eq
  have hp : 2 ^ w ≤ 2 ^ 64 := Nat.pow_le_pow_right (by decide) h
  have hm := Nat.mod_lt x.toNat (y := 2 ^ w) (by positivity)
  rw [and_mask_toNat h, BitVec.toNat_setWidth, BitVec.toNat_setWidth]
  exact (Nat.mod_eq_of_lt (hm.trans_le hp)).symm

theorem integerWidthMask_getLsbD (h : w ≤ 64) (i : Nat) :
    (integerWidthMask w).getLsbD i = decide (i < w) := by
  simp [BitVec.getLsbD, integerWidthMask_toNat h, Nat.testBit_two_pow_sub_one]

end Mask

namespace IntegerValue

structure Represents (value : IntegerValue) (kind : TypeKind) (z : Int) : Prop where
  toInt_eq  : value.toInt = z
  fits      : value.fitsType kind
  canonical : value.Canonical

variable {value : IntegerValue} {kind : TypeKind} {info : IntegerTypeInfo}

theorem make_canonical : (make m n).Canonical := by
  intro h
  simp [make] at h ⊢
  simp [h]

theorem make_toInt : (make m n).toInt = if n then -(m.toNat : Int) else m.toNat := by
  by_cases hm : m = 0#64 <;> cases n <;> simp [make, toInt, hm]

theorem negated_toInt : value.negated.toInt = -value.toInt := by
  rw [negated, make_toInt, toInt]
  cases value.isNegative <;> simp

theorem negated_canonical : value.negated.Canonical :=
  make_canonical

theorem toInt_nonneg (h : value.isNegative = false) : value.toInt = value.magnitude.toNat := by
  simp [toInt, h]

theorem toInt_neg (h : value.isNegative = true) : value.toInt = -(value.magnitude.toNat : Int) := by
  simp [toInt, h]

theorem Canonical.toInt_injective {v v' : IntegerValue}
    (h : v.Canonical) (h' : v'.Canonical) (he : v.toInt = v'.toInt) : v = v' := by
  obtain ⟨m, n⟩ := v
  obtain ⟨m', n'⟩ := v'
  have hz {x : BitVec 64} (hx : x.toNat = 0) : x = 0 := BitVec.eq_of_toNat_eq (by simpa using hx)
  have hm : m = m' := by
    apply BitVec.eq_of_toNat_eq
    cases n <;> cases n' <;> simp [toInt] at he <;> omega
  subst hm
  cases n <;> cases n' <;> simp [toInt] at he <;> simp
  all_goals
    simp [Canonical] at h h'
    exact absurd (hz (by omega)) (by assumption)

theorem fitsType_of_info (h : kind.integerTypeInfo = some info) :
    value.fitsType kind =
      if info.isSigned then
        if value.isNegative then decide (value.magnitude.toNat ≤ 2 ^ (info.bitWidth - 1))
        else decide (value.magnitude.toNat < 2 ^ (info.bitWidth - 1))
      else !value.isNegative && decide (value.magnitude.toNat < 2 ^ info.bitWidth) := by
  have hl := TypeKind.bitWidth_le h
  have hp := TypeKind.bitWidth_pos h
  have h1 : 1 ≤ 2 ^ info.bitWidth := Nat.one_le_two_pow
  have hs := one_shiftLeft_toNat (w := info.bitWidth - 1) (by omega)
  have hu : value.magnitude.toNat ≤ 2 ^ info.bitWidth - 1 ↔ value.magnitude.toNat < 2 ^ info.bitWidth := by
    omega
  cases hb : info.isSigned <;>
    simp [fitsType, TypeKind.ne_untypedInt_of_info h, h, hb, BitVec.le_def, BitVec.lt_def, hs,
      integerWidthMask_toNat hl, hu]

theorem inRange_of_fitsType (h : kind.integerTypeInfo = some info) (hf : value.fitsType kind) :
    InRange info.isSigned info.bitWidth value.toInt := by
  rw [fitsType_of_info h] at hf
  have hp : ((2 ^ (info.bitWidth - 1) : Nat) : Int) = 2 ^ (info.bitWidth - 1) := by push_cast; rfl
  have hq : ((2 ^ info.bitWidth : Nat) : Int) = 2 ^ info.bitWidth := by push_cast; rfl
  cases hs : info.isSigned <;> cases hn : value.isNegative <;> simp [hs, hn] at hf
  case false.false =>
    rw [inRange_unsigned, toInt_nonneg hn, ← hq]
    omega
  case true.false =>
    rw [inRange_signed, toInt_nonneg hn, ← hp]
    omega
  case true.true =>
    rw [inRange_signed, toInt_neg hn, ← hp]
    have := Nat.one_le_two_pow (n := info.bitWidth - 1)
    omega

theorem fitsType_of_inRange (h : kind.integerTypeInfo = some info) (hc : value.Canonical)
    (hr : InRange info.isSigned info.bitWidth value.toInt) : value.fitsType kind := by
  rw [fitsType_of_info h]
  have hp : ((2 ^ (info.bitWidth - 1) : Nat) : Int) = 2 ^ (info.bitWidth - 1) := by push_cast; rfl
  have hq : ((2 ^ info.bitWidth : Nat) : Int) = 2 ^ info.bitWidth := by push_cast; rfl
  cases hs : info.isSigned <;> cases hn : value.isNegative <;> rw [hs] at hr
  case false.false =>
    rw [inRange_unsigned, toInt_nonneg hn, ← hq] at hr
    simpa using Int.ofNat_lt.mp hr.right
  case false.true =>
    rw [inRange_unsigned, toInt_neg hn] at hr
    have hz : value.magnitude = 0 := BitVec.eq_of_toNat_eq (by simp; omega)
    simp [hc hz] at hn
  case true.false =>
    rw [inRange_signed, toInt_nonneg hn, ← hp] at hr
    simpa using Int.ofNat_lt.mp hr.right
  case true.true =>
    rw [inRange_signed, toInt_neg hn, ← hp] at hr
    simp
    omega

-- For canonical values the bounds that `fitsType` compares are those of the type.
theorem fitsType_iff_inRange (h : kind.integerTypeInfo = some info) (hc : value.Canonical) :
    value.fitsType kind ↔ InRange info.isSigned info.bitWidth value.toInt where
  mp  := inRange_of_fitsType h
  mpr := fitsType_of_inRange h hc

theorem toBitPattern_eq (h : kind.integerTypeInfo = some info) (hf : value.fitsType kind) :
    value.toBitPattern kind = some ((BitVec.ofInt info.bitWidth value.toInt).setWidth 64) := by
  have hl := TypeKind.bitWidth_le h
  have hw := TypeKind.integerBitWidth_of_info h
  cases hn : value.isNegative
  case false =>
    simp only [toBitPattern, hw, hf, hn, guard, Option.bind_eq_bind, Option.bind_some, ite_true,
      Bool.false_eq_true, ite_false, Option.pure_def, Option.some.injEq, toInt_nonneg hn]
    rw [and_mask_eq_setWidth hl, BitVec.ofInt_natCast]
    congr 1
    apply BitVec.eq_of_toNat_eq
    simp
  case true =>
    simp only [toBitPattern, hw, hf, hn, guard, Option.bind_eq_bind, Option.bind_some, ite_true,
      Option.pure_def, Option.some.injEq, toInt_neg hn]
    rw [and_mask_eq_setWidth hl, BitVec.ofInt_neg, BitVec.ofInt_natCast, ← BitVec.neg_eq_not_add]
    congr 1
    rw [BitVec.setWidth_neg_of_le hl]
    congr 1
    apply BitVec.eq_of_toNat_eq
    simp

theorem signBit_eq_msb (hw : 0 < w) (hl : w ≤ 64) (pattern : BitVec 64) :
    ((pattern &&& integerWidthMask w) &&& (1#64 <<< (w - 1)) != 0) = (pattern.setWidth w).msb := by
  have hb (i : Nat) : ((pattern &&& integerWidthMask w) &&& (1#64 <<< (w - 1))).getLsbD i
      = (decide (i = w - 1) && pattern.getLsbD i) := by
    simp only [BitVec.getLsbD_and, integerWidthMask_getLsbD hl, BitVec.getLsbD_shiftLeft,
      BitVec.getLsbD_one]
    by_cases hi : i = w - 1
    case pos => simp [hi, show w - 1 < w by omega, show w - 1 < 64 by omega]
    case neg => simp [hi]; omega
  rw [BitVec.msb_eq_getLsbD_last, BitVec.getLsbD_setWidth, decide_eq_true (by omega), Bool.true_and]
  cases hp : pattern.getLsbD (w - 1)
  case false =>
    simp only [bne_eq_false_iff_eq]
    apply BitVec.eq_of_getLsbD_eq
    intro i _
    rw [hb]
    by_cases hi : i = w - 1 <;> simp [hi, hp]
  case true =>
    simp only [bne_iff_ne]
    intro hc
    have := hb (w - 1)
    simp [hc, hp] at this

theorem negative_pattern_toNat (hl : w ≤ 64) (pattern : BitVec 64) (hp : pattern.toNat % 2 ^ w ≠ 0) :
    ((~~~(pattern &&& integerWidthMask w) + 1#64) &&& integerWidthMask w).toNat
      = 2 ^ w - pattern.toNat % 2 ^ w := by
  have hm : pattern.toNat % 2 ^ w < 2 ^ w := Nat.mod_lt _ (by positivity)
  have hd : 2 ^ w ∣ 2 ^ 64 := Nat.pow_dvd_pow 2 hl
  rw [← BitVec.neg_eq_not_add, and_mask_toNat hl, BitVec.toNat_neg, and_mask_toNat hl,
    Nat.mod_mod_of_dvd _ hd]
  obtain ⟨k, hk⟩ := hd
  obtain ⟨j, rfl⟩ : ∃ j, k = j + 1 := Nat.exists_eq_succ_of_ne_zero (by rintro rfl; simp at hk)
  have he : 2 ^ 64 - pattern.toNat % 2 ^ w = (2 ^ w - pattern.toNat % 2 ^ w) + 2 ^ w * j := by
    rw [hk, Nat.mul_add_one]
    omega
  rw [he, Nat.add_mul_mod_self_left, Nat.mod_eq_of_lt (by omega)]

theorem fromBitPattern_toInt (h : kind.integerTypeInfo = some info) (pattern : BitVec 64) :
    ∃ v, fromBitPattern pattern kind = some v ∧ v.Canonical ∧
      v.toInt = decode info.isSigned (pattern.setWidth info.bitWidth) := by
  have hl := TypeKind.bitWidth_le h
  have hw := TypeKind.bitWidth_pos h
  have hb := signBit_eq_msb hw hl pattern
  have hm := and_mask_toNat hl pattern
  unfold fromBitPattern
  simp only [TypeKind.integerBitWidth_of_info h, Option.bind_eq_bind, Option.bind_some, hb,
    TypeKind.isSignedInteger_of_info h]
  split
  case isTrue hs =>
    simp only [Bool.and_eq_true] at hs
    refine ⟨_, rfl, make_canonical, ?_⟩
    have hg := BitVec.toNat_ge_of_msb_true hs.right
    have hz : pattern.toNat % 2 ^ info.bitWidth ≠ 0 := by
      rw [BitVec.toNat_setWidth] at hg
      have := Nat.one_le_two_pow (n := info.bitWidth - 1)
      omega
    have hc : pattern.toNat % 2 ^ info.bitWidth < 2 ^ info.bitWidth := Nat.mod_lt _ (by positivity)
    rw [make_toInt, negative_pattern_toNat hl pattern hz, hs.left, decode,
      BitVec.toInt_eq_msb_cond, hs.right, BitVec.toNat_setWidth]
    simp only [ite_true]
    omega
  case isFalse hs =>
    refine ⟨_, rfl, make_canonical, ?_⟩
    rw [make_toInt, hm, decode]
    cases hi : info.isSigned
    case false => simp
    case true =>
      simp only [hi, Bool.true_and, Bool.not_eq_true] at hs
      simp [BitVec.toInt_eq_msb_cond, hs]

theorem fromBitPattern_represents (h : kind.integerTypeInfo = some info) (pattern : BitVec 64) :
    ∃ v, fromBitPattern pattern kind = some v ∧
      v.Represents kind (decode info.isSigned (pattern.setWidth info.bitWidth)) := by
  have ⟨v, hv, hc, ht⟩ := fromBitPattern_toInt h pattern
  have hr : InRange info.isSigned _ _ := decode_inRange (TypeKind.bitWidth_pos h) (pattern.setWidth info.bitWidth)
  exact ⟨v, hv, ht, fitsType_of_inRange h hc (ht ▸ hr), hc⟩

end IntegerValue
end Coglet
