import Coglet.Integer.Representation
import Mathlib.Algebra.Order.Ring.Abs
import Mathlib.Algebra.Order.Ring.Int

open TwosComplement

namespace Coglet

-- The mathematical operations that the checked and wrapping operators stand for.
def CheckedOperation.exact : CheckedOperation → Int → Int → Int
  | plus,  x, y => x + y
  | minus, x, y => x - y
  | star,  x, y => x * y

def WrappingBuiltin.exact : WrappingBuiltin → Int → Int → Int
  | add, x, y => x + y
  | sub, x, y => x - y
  | mul, x, y => x * y

def DivisionOperation.exact : DivisionOperation → Int → Int → Int
  | slash,   x, y => x.tdiv y
  | percent, x, y => x.tmod y

def BitwiseOperation.onBits : BitwiseOperation → BitVec w → BitVec w → BitVec w
  | and, x, y => x &&& y
  | or,  x, y => x ||| y
  | xor, x, y => x ^^^ y

def ShiftOperation.onBits (signed : Bool) : ShiftOperation → BitVec w → Nat → BitVec w
  | shiftLeft,  x, count => x <<< count
  | shiftRight, x, count => if signed then x.sshiftRight count else x >>> count

namespace IntegerValue

-- The bit pattern of a value in a type of the given width.
def bits (value : IntegerValue) (w : Nat) : BitVec w :=
  BitVec.ofInt w value.toInt

section Exact

variable {a b : IntegerValue}

-- The overflow guard of the addition.
theorem allOnes_sub_lt_iff (x y : BitVec 64) :
    BitVec.allOnes 64 - x < y ↔ 2 ^ 64 ≤ x.toNat + y.toNat := by
  have := x.isLt
  rw [BitVec.allOnes_sub_eq_not, BitVec.lt_def, BitVec.toNat_not]
  omega

theorem add_some (h : a.add b = some v) : v.toInt = a.toInt + b.toInt ∧ v.Canonical := by
  unfold add at h
  split at h
  case isTrue hs =>
    split at h <;> simp only [reduceCtorEq, Option.some.injEq] at h
    case isFalse ho =>
      subst h
      refine ⟨?_, make_canonical⟩
      rw [allOnes_sub_lt_iff, not_le] at ho
      rw [make_toInt, toInt, toInt, BitVec.toNat_add_of_lt ho, ← beq_iff_eq.mp hs]
      cases a.isNegative <;> simp
      omega
  case isFalse hs =>
    split at h <;> simp only [Option.some.injEq] at h <;> subst h <;>
      refine ⟨?_, make_canonical⟩ <;> rw [make_toInt, toInt, toInt]
    case isTrue hm =>
      have hm := BitVec.le_def.mp hm
      rw [BitVec.toNat_sub_of_le hm]
      cases ha : a.isNegative <;> cases hb : b.isNegative <;> simp [ha, hb] at hs ⊢ <;> omega
    case isFalse hm =>
      have hm := BitVec.le_def.mp (BitVec.le_of_lt (BitVec.not_le.mp hm))
      rw [BitVec.toNat_sub_of_le hm]
      cases ha : a.isNegative <;> cases hb : b.isNegative <;> simp [ha, hb] at hs ⊢ <;> omega

theorem abs_toInt (v : IntegerValue) : |v.toInt| = v.magnitude.toNat := by
  rw [toInt]
  cases v.isNegative <;> simp

theorem add_none (h : a.add b = none) : 2 ^ 64 ≤ |a.toInt + b.toInt| := by
  unfold add at h
  split at h <;> split at h <;> simp only [reduceCtorEq] at h
  case isTrue.isTrue hs ho =>
    rw [allOnes_sub_lt_iff] at ho
    have he : |a.toInt + b.toInt| = |a.toInt| + |b.toInt| := by
      rw [toInt, toInt, ← beq_iff_eq.mp hs]
      cases a.isNegative
      case false => simp [abs_of_nonneg, add_nonneg]
      case true  => simp [← neg_add_rev, abs_neg, abs_of_nonneg, add_nonneg, add_comm]
    rw [he, abs_toInt, abs_toInt]
    exact_mod_cast ho

theorem multiply_some (h : a.multiply b = some v) : v.toInt = a.toInt * b.toInt ∧ v.Canonical := by
  unfold multiply at h
  split at h <;> simp at h
  case isFalse ho =>
    subst h
    refine ⟨?_, make_canonical⟩
    have hp : a.magnitude.toNat * b.magnitude.toNat < 2 ^ 64 := by
      by_cases hz : a.magnitude = 0
      case pos => simp [hz]
      case neg =>
        have hn : 0 < a.magnitude.toNat := Nat.pos_of_ne_zero fun hc => hz (BitVec.eq_of_toNat_eq hc)
        have ho := BitVec.not_lt.mp fun hc => ho ⟨hz, hc⟩
        rw [BitVec.le_def, BitVec.toNat_udiv, BitVec.toNat_allOnes, Nat.le_div_iff_mul_le hn] at ho
        rw [Nat.mul_comm]
        omega
    rw [make_toInt, toInt, toInt, BitVec.toNat_mul, Nat.mod_eq_of_lt hp]
    cases a.isNegative <;> cases b.isNegative <;> simp

theorem multiply_none (h : a.multiply b = none) : 2 ^ 64 ≤ |a.toInt * b.toInt| := by
  unfold multiply at h
  split at h <;> simp at h
  case isTrue ho =>
    have hn : 0 < a.magnitude.toNat := Nat.pos_of_ne_zero fun hc => ho.left (BitVec.eq_of_toNat_eq hc)
    have hp : 2 ^ 64 ≤ a.magnitude.toNat * b.magnitude.toNat := by
      have hd := ho.right
      rw [gt_iff_lt, BitVec.lt_def, BitVec.toNat_udiv, BitVec.toNat_allOnes,
        Nat.div_lt_iff_lt_mul hn] at hd
      rw [Nat.mul_comm]
      omega
    rw [abs_mul, abs_toInt, abs_toInt]
    exact_mod_cast hp

theorem subtract_some (h : a.subtract b = some v) : v.toInt = a.toInt - b.toInt ∧ v.Canonical := by
  have ⟨ht, hc⟩ := add_some h
  rw [negated_toInt] at ht
  exact ⟨ht, hc⟩

theorem subtract_none (h : a.subtract b = none) : 2 ^ 64 ≤ |a.toInt - b.toInt| := by
  have := add_none h
  rwa [negated_toInt] at this

end Exact

section Typed

variable {a b : IntegerValue} {kind : TypeKind} {info : IntegerTypeInfo}

theorem abs_lt_of_inRange (h : kind.integerTypeInfo = some info)
    (hr : InRange info.isSigned info.bitWidth z) : |z| < 2 ^ 64 := by
  have hw := TypeKind.integerTypeInfo_width h
  rw [abs_lt]
  cases hs : info.isSigned <;> rw [hs] at hr
  case false =>
    rw [inRange_unsigned] at hr
    rcases hw with hw | hw | hw | hw <;> simp [hw] at hr <;> omega
  case true =>
    rw [inRange_signed] at hr
    rcases hw with hw | hw | hw | hw <;> simp [hw] at hr <;> omega

-- Checked arithmetic is decided by the range of the type, even though the exact result may not be
-- representable as a sign and a magnitude.
theorem classify_exact (h : kind.integerTypeInfo = some info) {r : Option IntegerValue}
    (hs : ∀ v, r = some v → v.toInt = z ∧ v.Canonical) (hn : r = none → 2 ^ 64 ≤ |z|) :
    (InRange info.isSigned info.bitWidth z →
      ∃ v, (match r with | none => .overflow | some v => v.classifyCheckedResult kind)
        = CheckedIntegerArithmeticStatus.valid v ∧ v.Represents kind z) ∧
    (¬InRange info.isSigned info.bitWidth z →
      (match r with | none => .overflow | some v => v.classifyCheckedResult kind)
        = CheckedIntegerArithmeticStatus.overflow) := by
  cases r
  case none => simpa using not_lt.mpr (hn rfl) ∘ abs_lt_of_inRange h
  case some v =>
    have ⟨ht, hc⟩ := hs v rfl
    have hf := fitsType_iff_inRange h hc
    rw [ht] at hf
    have hk := TypeKind.isConcreteInteger_of_info h
    constructor <;> intro hr
    case left =>
      refine ⟨v, ?_, ht, hf.mpr hr, hc⟩
      simp [classifyCheckedResult, hk, hf.mpr hr]
    case right => simp [classifyCheckedResult, hk, mt hf.mp hr]

theorem evaluateCheckedBinary_exact (h : kind.integerTypeInfo = some info)
    (ha : a.fitsType kind) (hb : b.fitsType kind) (op : CheckedOperation) :
    (InRange info.isSigned info.bitWidth (op.exact a.toInt b.toInt) →
      ∃ v, evaluateCheckedBinary op a b kind = .valid v ∧
        v.Represents kind (op.exact a.toInt b.toInt)) ∧
    (¬InRange info.isSigned info.bitWidth (op.exact a.toInt b.toInt) →
      evaluateCheckedBinary op a b kind = .overflow) := by
  have hk := TypeKind.isConcreteInteger_of_info h
  simp only [evaluateCheckedBinary, hk, ha, hb, Bool.not_true, Bool.or_self, Bool.false_eq_true,
    ite_false]
  cases op
  case plus  => exact classify_exact h (fun _ => add_some) add_none
  case minus => exact classify_exact h (fun _ => subtract_some) subtract_none
  case star  => exact classify_exact h (fun _ => multiply_some) multiply_none

theorem evaluateCheckedNegation_exact (h : kind.integerTypeInfo = some info)
    (hs : info.isSigned = true) :
    (InRange true info.bitWidth (-a.toInt) →
      ∃ v, evaluateCheckedNegation a kind = .valid v ∧ v.Represents kind (-a.toInt)) ∧
    (¬InRange true info.bitWidth (-a.toInt) → evaluateCheckedNegation a kind = .overflow) := by
  have hk := TypeKind.isSignedInteger_of_info h
  simp only [evaluateCheckedNegation, hk, hs, Bool.not_true, Bool.false_eq_true, ite_false]
  have := classify_exact (r := some a.negated) (z := -a.toInt) h
    (by rintro _ ⟨⟩; exact ⟨negated_toInt, negated_canonical⟩) (by simp)
  simpa only [hs] using this

theorem bitwise_exact (h : kind.integerTypeInfo = some info)
    (ha : a.fitsType kind) (hb : b.fitsType kind) (op : BitwiseOperation) :
    ∃ v, a.bitwise b kind op = some v ∧
      v.Represents kind (decode info.isSigned (op.onBits (a.bits info.bitWidth) (b.bits info.bitWidth))) := by
  have hl := TypeKind.bitWidth_le h
  have hc (p : BitVec 64) (x : BitVec info.bitWidth) (hx : p.setWidth info.bitWidth = x) :
      ∃ v, fromBitPattern p kind = some v ∧ v.Represents kind (decode info.isSigned x) :=
    hx ▸ fromBitPattern_represents h p
  simp only [bitwise, toBitPattern_eq h ha, toBitPattern_eq h hb, Option.bind_eq_bind, Option.bind_some]
  cases op <;> apply hc <;>
    simp only [BitwiseOperation.onBits, bits, BitVec.setWidth_and, BitVec.setWidth_or,
      BitVec.setWidth_xor, setWidth_setWidth_of_le hl]

theorem bitwiseNot_exact (h : kind.integerTypeInfo = some info) (ha : a.fitsType kind) :
    ∃ v, a.bitwiseNot kind = some v ∧
      v.Represents kind (decode info.isSigned (~~~(a.bits info.bitWidth))) := by
  have hl := TypeKind.bitWidth_le h
  have ⟨v, hv, hr⟩ := fromBitPattern_represents h
    (~~~((a.bits info.bitWidth).setWidth 64) &&& integerWidthMask info.bitWidth)
  refine ⟨v, ?_, ?_⟩
  case refine_1 =>
    simpa [bitwiseNot, TypeKind.integerBitWidth_of_info h, toBitPattern_eq h ha, bits] using hv
  case refine_2 =>
    rwa [setWidth_and_mask hl, BitVec.setWidth_not hl, setWidth_setWidth_of_le hl] at hr

theorem signFill_getLsbD (hl : w ≤ 64) (i : Nat) :
    (integerWidthMask w ^^^ (integerWidthMask w >>> c)).getLsbD i = (decide (i < w) && decide (w ≤ c + i)) := by
  rw [BitVec.getLsbD_xor, BitVec.getLsbD_ushiftRight, integerWidthMask_getLsbD hl,
    integerWidthMask_getLsbD hl]
  by_cases hi : i < w <;> by_cases hc : c + i < w <;> simp [hi, hc] <;> omega

-- Filling in the sign bits by hand amounts to an arithmetic shift.
theorem arithmeticShift_eq (hl : w ≤ 64) (x : BitVec w) (hm : x.msb = true) (c : Nat) :
    ((x.setWidth 64) >>> c ||| (integerWidthMask w ^^^ (integerWidthMask w >>> c))).setWidth w
      = x.sshiftRight c := by
  ext i hi
  rw [BitVec.getElem_setWidth, BitVec.getLsbD_or, signFill_getLsbD hl, BitVec.getLsbD_ushiftRight,
    BitVec.getLsbD_setWidth, BitVec.getElem_sshiftRight]
  by_cases hc : c + i < w
  case pos => simp [hc, hi, show c + i < 64 by omega, show ¬(w ≤ c + i) by omega]
  case neg => simp [hc, hi, hm, show w ≤ c + i by omega]

theorem logicalShift_eq_sshiftRight (x : BitVec w) (hm : x.msb = false) (c : Nat) :
    x >>> c = x.sshiftRight c :=
  (BitVec.sshiftRight_eq_of_msb_false hm).symm

theorem shift_exact (h : kind.integerTypeInfo = some info) (ha : a.fitsType kind)
    (hc : count < info.bitWidth) (op : ShiftOperation) :
    ∃ v, a.shift kind op count = some v ∧
      v.Represents kind (decode info.isSigned (op.onBits info.isSigned (a.bits info.bitWidth) count)) := by
  have hl := TypeKind.bitWidth_le h
  have hw := TypeKind.bitWidth_pos h
  have hr (p : BitVec 64) (x : BitVec info.bitWidth) (hx : p.setWidth info.bitWidth = x) :
      ∃ v, fromBitPattern p kind = some v ∧ v.Represents kind (decode info.isSigned x) :=
    hx ▸ fromBitPattern_represents h p
  simp only [shift, TypeKind.integerBitWidth_of_info h, toBitPattern_eq h ha, guard, hc,
    Option.bind_eq_bind, Option.bind_some, ite_true, Option.pure_def]
  cases op
  case shiftLeft =>
    apply hr
    rw [setWidth_and_mask hl, BitVec.setWidth_shiftLeft_of_le hl, setWidth_setWidth_of_le hl]
    rfl
  case shiftRight =>
    have hb := signBit_eq_msb hw hl ((a.bits info.bitWidth).setWidth 64)
    rw [setWidth_setWidth_of_le hl, and_mask_eq_setWidth hl, setWidth_setWidth_of_le hl] at hb
    simp only [bits] at hb ⊢
    simp only [hb, TypeKind.isSignedInteger_of_info h, ShiftOperation.onBits]
    split
    case isTrue hs =>
      simp only [Bool.and_eq_true] at hs
      apply hr
      simp only [hs.left.right, ite_true]
      exact arithmeticShift_eq hl _ hs.right count
    case isFalse hs =>
      apply hr
      rw [setWidth_ushiftRight hl]
      cases hi : info.isSigned
      case false => simp
      case true =>
        simp only [ite_true]
        by_cases hz : count = 0
        case pos => simp [hz]
        case neg =>
          apply logicalShift_eq_sshiftRight
          simpa [hz, hi] using hs

theorem evaluateWrappingBinary_exact (h : kind.integerTypeInfo = some info)
    (ha : a.fitsType kind) (hb : b.fitsType kind) (op : WrappingBuiltin) :
    ∃ v, evaluateWrappingBinary op a b kind = some v ∧
      v.Represents kind (wrap info.isSigned info.bitWidth (op.exact a.toInt b.toInt)) := by
  have hl := TypeKind.bitWidth_le h
  have hr (p : BitVec 64) (x : BitVec info.bitWidth) (hx : p.setWidth info.bitWidth = x) :
      ∃ v, fromBitPattern (p &&& integerWidthMask info.bitWidth) kind = some v ∧
        v.Represents kind (decode info.isSigned x) := by
    rw [← hx, ← setWidth_and_mask hl]
    exact fromBitPattern_represents h _
  simp only [evaluateWrappingBinary, TypeKind.integerBitWidth_of_info h, toBitPattern_eq h ha,
    toBitPattern_eq h hb, Option.bind_eq_bind, Option.bind_some]
  cases op <;> apply hr
  case add =>
    rw [BitVec.setWidth_add _ _ hl, setWidth_setWidth_of_le hl, setWidth_setWidth_of_le hl,
      ← BitVec.ofInt_add]
    rfl
  case sub =>
    rw [BitVec.sub_eq_add_neg, BitVec.setWidth_add _ _ hl, BitVec.setWidth_neg_of_le hl,
      setWidth_setWidth_of_le hl, setWidth_setWidth_of_le hl, ← BitVec.ofInt_neg, ← BitVec.ofInt_add,
      ← Int.sub_eq_add_neg]
    rfl
  case mul =>
    rw [BitVec.setWidth_mul _ _ hl, setWidth_setWidth_of_le hl, setWidth_setWidth_of_le hl,
      ← BitVec.ofInt_mul]
    rfl

theorem evaluateWrappingNegation_exact (h : kind.integerTypeInfo = some info) (ha : a.fitsType kind) :
    ∃ v, a.evaluateWrappingNegation kind = some v ∧
      v.Represents kind (wrap info.isSigned info.bitWidth (-a.toInt)) := by
  have hl := TypeKind.bitWidth_le h
  have ⟨v, hv, hr⟩ := fromBitPattern_represents h
    ((0#64 - (BitVec.ofInt info.bitWidth a.toInt).setWidth 64) &&& integerWidthMask info.bitWidth)
  refine ⟨v, ?_, ?_⟩
  case refine_1 =>
    simpa [evaluateWrappingNegation, TypeKind.integerBitWidth_of_info h, toBitPattern_eq h ha] using hv
  case refine_2 =>
    rw [setWidth_and_mask hl, BitVec.zero_sub, BitVec.setWidth_neg_of_le hl, setWidth_setWidth_of_le hl,
      ← BitVec.ofInt_neg] at hr
    exact hr

end Typed

section Division

variable {a b : IntegerValue} {kind : TypeKind} {info : IntegerTypeInfo}

theorem toInt_eq_zero_iff : a.toInt = 0 ↔ a.magnitude = 0 := by
  have hz : a.magnitude = 0 ↔ a.magnitude.toNat = 0 :=
    ⟨fun h => by simp [h], fun h => BitVec.eq_of_toNat_eq (by simpa using h)⟩
  rw [hz, toInt]
  cases a.isNegative <;> simp

theorem divide_toInt (op : DivisionOperation) : (divide op a b).toInt = op.exact a.toInt b.toInt := by
  cases op <;> rw [divide, make_toInt, toInt, toInt] <;>
    cases a.isNegative <;> cases b.isNegative <;> simp [DivisionOperation.exact] <;> rfl

theorem divide_canonical (op : DivisionOperation) : (divide op a b).Canonical := by
  cases op <;> exact make_canonical

-- The two conditions under which a division has no result in its type.
def DivisionFails (info : IntegerTypeInfo) (x y : Int) : Prop :=
  y = 0 ∨ (info.isSigned = true ∧ x = -2 ^ (info.bitWidth - 1) ∧ y = -1)

instance : Decidable (DivisionFails info x y) :=
  inferInstanceAs (Decidable (_ ∨ _))

theorem classifyDivision_valid_iff (h : kind.integerTypeInfo = some info) :
    classifyDivision a b kind = .valid ↔ ¬DivisionFails info a.toInt b.toInt := by
  have hw := TypeKind.bitWidth_pos h
  have hl := TypeKind.bitWidth_le h
  have hs := one_shiftLeft_toNat (w := info.bitWidth - 1) (by omega)
  have h1 := Nat.one_le_two_pow (n := info.bitWidth - 1)
  have hp : ((2 ^ (info.bitWidth - 1) : Nat) : Int) = 2 ^ (info.bitWidth - 1) := by push_cast; rfl
  have hmin : a.toInt = -2 ^ (info.bitWidth - 1) ↔
      a.isNegative = true ∧ a.magnitude = 1#64 <<< (info.bitWidth - 1) := by
    rw [← BitVec.toNat_inj, hs, toInt, ← hp]
    cases a.isNegative <;> simp <;> omega
  have hone : b.toInt = -1 ↔ b.isNegative = true ∧ b.magnitude = 1 := by
    rw [← BitVec.toNat_inj, toInt]
    cases b.isNegative <;> simp
  rw [DivisionFails, toInt_eq_zero_iff, hmin, hone, classifyDivision, TypeKind.signedIntegerMinMagnitude, h]
  by_cases hz : b.magnitude = 0#64
  case pos => simp [hz]
  case neg => cases hi : info.isSigned <;> simp [hz, hi, and_assoc]

-- A truncated quotient leaves the range of its operands only if the dividend is the minimum and the
-- divisor is `-1`.
theorem signed_divide_bounds {m : Int} (ha : -m ≤ x ∧ x < m) (hb : -m ≤ y ∧ y < m)
    (hz : y ≠ 0) (hd : x = -m → y ≠ -1) (op : DivisionOperation) :
    -m ≤ op.exact x y ∧ op.exact x y < m := by
  have hy : 0 < y.natAbs := Int.natAbs_pos.mpr hz
  cases op
  case slash =>
    have hq : (x.tdiv y).natAbs = x.natAbs / y.natAbs := Int.natAbs_tdiv x y
    have hle : x.natAbs / y.natAbs ≤ x.natAbs := Nat.div_le_self _ _
    simp only [DivisionOperation.exact]
    by_cases h1 : y.natAbs = 1
    case pos =>
      rcases Int.natAbs_eq_iff.mp h1 with rfl | rfl
      case inl => simpa using ha
      case inr =>
        have hx : x ≠ -m := fun hc => hd hc rfl
        simp
        omega
    case neg =>
      have hlt : x.natAbs / y.natAbs < x.natAbs ∨ x.natAbs = 0 := by
        by_cases hx : x.natAbs = 0
        case pos => exact .inr hx
        case neg => exact .inl (Nat.div_lt_self (by omega) (by omega))
      omega
  case percent =>
    have hr : (x.tmod y).natAbs = x.natAbs % y.natAbs := Int.natAbs_tmod x y
    have hlt : x.natAbs % y.natAbs < y.natAbs := Nat.mod_lt _ hy
    simp only [DivisionOperation.exact]
    omega

theorem divide_inRange
    (ha : InRange info.isSigned info.bitWidth x) (hb : InRange info.isSigned info.bitWidth y)
    (hd : ¬DivisionFails info x y) (op : DivisionOperation) :
    InRange info.isSigned info.bitWidth (op.exact x y) := by
  simp only [DivisionFails, not_or, not_and] at hd
  cases hs : info.isSigned <;> rw [hs] at ha hb
  case false =>
    rw [inRange_unsigned] at ha hb ⊢
    cases op
    case slash   => exact ⟨Int.tdiv_nonneg ha.left hb.left, (Int.tdiv_le_self _ ha.left).trans_lt ha.right⟩
    case percent =>
      have hp : 0 < y := lt_of_le_of_ne hb.left (Ne.symm hd.left)
      exact ⟨Int.tmod_nonneg _ ha.left, (Int.tmod_lt_of_pos _ hp).trans hb.right⟩
  case true =>
    rw [inRange_signed] at ha hb ⊢
    exact signed_divide_bounds ha hb hd.left (hd.right hs) op

theorem divide_represents (h : kind.integerTypeInfo = some info)
    (ha : a.fitsType kind) (hb : b.fitsType kind)
    (hd : ¬DivisionFails info a.toInt b.toInt) (op : DivisionOperation) :
    (divide op a b).Represents kind (op.exact a.toInt b.toInt) := by
  have hr := divide_inRange (inRange_of_fitsType h ha) (inRange_of_fitsType h hb) hd op
  exact ⟨divide_toInt op, fitsType_of_inRange h (divide_canonical op) (divide_toInt op ▸ hr), divide_canonical op⟩

end Division
end IntegerValue
end Coglet
