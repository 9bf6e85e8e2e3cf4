import Coglet.Ir.Integer
import Coglet.Lib.CInteger

open TwosComplement Coglet.Ir
open CInteger (Outcome)

-- The integer instructions that are built by the LLVM backend.

namespace Coglet.Backend.Llvm

variable {w : Nat}

def trapIf (condition : Bool) : Outcome Unit :=
  if condition then .aborted else .value ()

-- The low bits of a constant.
def constInt (w : Nat) (n : BitVec 64) : BitVec w :=
  n.setWidth w

-- Divisions have undefined behavior if they have no result, and so do shifts by too many bits.
def buildSDiv (x y : BitVec w) : Outcome (BitVec w) :=
  if y = 0#w ∨ (x = BitVec.intMin w ∧ y = BitVec.allOnes w) then .undefined else .value (x.sdiv y)

def buildSRem (x y : BitVec w) : Outcome (BitVec w) :=
  if y = 0#w ∨ (x = BitVec.intMin w ∧ y = BitVec.allOnes w) then .undefined else .value (x.srem y)

def buildUDiv (x y : BitVec w) : Outcome (BitVec w) :=
  if y = 0#w then .undefined else .value (x / y)

def buildURem (x y : BitVec w) : Outcome (BitVec w) :=
  if y = 0#w then .undefined else .value (x % y)

def buildShl (x count : BitVec w) : Outcome (BitVec w) :=
  if w ≤ count.toNat then .undefined else .value (x <<< count.toNat)

def buildAShr (x count : BitVec w) : Outcome (BitVec w) :=
  if w ≤ count.toNat then .undefined else .value (x.sshiftRight count.toNat)

def buildLShr (x count : BitVec w) : Outcome (BitVec w) :=
  if w ≤ count.toNat then .undefined else .value (x >>> count.toNat)

-- The result and the overflow flag of the intrinsics `llvm.sadd.with.overflow` and so on.
def withOverflow (isSigned : Bool) (x y : BitVec w) : CheckedOperation → BitVec w × Bool
  | .plus  => (x + y, if isSigned then x.saddOverflow y else x.uaddOverflow y)
  | .minus => (x - y, if isSigned then x.ssubOverflow y else x.usubOverflow y)
  | .star  => (x * y, if isSigned then x.smulOverflow y else x.umulOverflow y)

def lowerOverflowCheckedBinary (isSigned : Bool) (op : CheckedOperation) (x y : BitVec w) : Outcome (BitVec w) := do
  trapIf (withOverflow isSigned x y op).2
  return (withOverflow isSigned x y op).1

def signedMinBits (bits : Nat) : BitVec 64 :=
  1#64 <<< (bits - 1)

def signedMaxBits (bits : Nat) : BitVec 64 :=
  (1#64 <<< (bits - 1)) - 1#64

def unsignedMaxBits (bits : Nat) : BitVec 64 :=
  if bits = 64 then BitVec.allOnes 64 else (1#64 <<< bits) - 1#64

def lowerCheckedDivRem (isSigned : Bool) (op : DivisionOperation) (x y : BitVec w) : Outcome (BitVec w) := do
  trapIf (y == 0#w)
  if isSigned then
    trapIf (x == constInt w (signedMinBits w) && y == constInt w (BitVec.allOnes 64))
    match op with
    | .slash   => buildSDiv x y
    | .percent => buildSRem x y
  else
    match op with
    | .slash   => buildUDiv x y
    | .percent => buildURem x y

def lowerCheckedNeg (isSigned : Bool) (x : BitVec w) : Outcome (BitVec w) := do
  trapIf (if isSigned then x == constInt w (signedMinBits w) else x != 0#w)
  return 0#w - x

-- A count is extended with zeros or truncated, unless it already has the width of the value.
def normalizeShiftCount (w : Nat) (count : BitVec m) : BitVec w :=
  count.setWidth w

inductive CheckedShift
  | shl | shrSigned | shrUnsigned
deriving DecidableEq, Repr

def lowerCheckedShift (op : CheckedShift) (countIsSigned : Bool) (x : BitVec w) (y : BitVec m) :
    Outcome (BitVec w) := do
  let width := constInt m (BitVec.ofNat 64 w)
  trapIf (if countIsSigned then y.slt 0#m || width.sle y else width.ule y)
  let count := normalizeShiftCount w y
  match op with
  | .shl         => buildShl x count
  | .shrSigned   => buildAShr x count
  | .shrUnsigned => buildLShr x count

-- There is no check where the target contains all values of the source.
def castInvalid (sourceIsSigned targetIsSigned : Bool) (m : Nat) (x : BitVec w) : Bool :=
  if sourceIsSigned then
    if targetIsSigned then
      m < w && (x.slt (constInt w (~~~signedMaxBits m)) || (constInt w (signedMaxBits m)).slt x)
    else x.slt 0#w || (m < w && (constInt w (unsignedMaxBits m)).slt x)
  else if targetIsSigned then m ≤ w && (constInt w (signedMaxBits m)).ult x
  else m < w && (constInt w (unsignedMaxBits m)).ult x

def lowerCheckedIntegerCast (sourceIsSigned targetIsSigned : Bool) (m : Nat) (x : BitVec w) :
    Outcome (BitVec m) := do
  trapIf (castInvalid sourceIsSigned targetIsSigned m x)
  if m < w then return x.truncate m
  else if w < m then
    if sourceIsSigned && targetIsSigned then return x.signExtend m else return x.zeroExtend m
  else return x.setWidth m

def lowerTruncatingIntegerCast (sourceIsSigned : Bool) (m : Nat) (x : BitVec w) : BitVec m :=
  if m < w then x.truncate m
  else if w < m then
    if sourceIsSigned then x.signExtend m else x.zeroExtend m
  else x.setWidth m

def buildWrap : WrappingBuiltin → BitVec w → BitVec w → BitVec w
  | .add, x, y => x + y
  | .sub, x, y => x - y
  | .mul, x, y => x * y

def buildNeg (x : BitVec w) : BitVec w :=
  0#w - x

def lowerIntegerInstruction : (i : IntegerInstruction) → BitVec i.lhsType.width → BitVec i.rhsType.width →
    Outcome (BitVec i.resultType.width)
  | .constant t value ..,  _, _ => .value (constInt t.width (integerValueBits value t.width))
  | .checked op t,         x, y => lowerOverflowCheckedBinary t.isSigned op x y
  | .checkedDivision op t, x, y => lowerCheckedDivRem t.isSigned op x y
  | .checkedNeg t,         x, _ => lowerCheckedNeg t.isSigned x
  | .wrap op _,            x, y => .value (buildWrap op x y)
  | .wrapNeg _,            x, _ => .value (buildNeg x)
  | .bitwise op _,         x, y => .value (op.onBits x y)
  | .bitNot _,             x, _ => .value (~~~x)
  | .shl _ count,          x, y => lowerCheckedShift .shl count.isSigned x y
  | .shrSigned _ count,    x, y => lowerCheckedShift .shrSigned count.isSigned x y
  | .shrUnsigned _ count,  x, y => lowerCheckedShift .shrUnsigned count.isSigned x y
  | .castChecked s t,      x, _ => lowerCheckedIntegerCast s.isSigned t.isSigned t.width x
  | .truncate s t,         x, _ => .value (lowerTruncatingIntegerCast s.isSigned t.width x)

-- The outcome that corresponds to an operation with or without a result.
def ofMeaning (w : Nat) : Option Int → Outcome (BitVec w)
  | some z => .value (BitVec.ofInt w z)
  | none   => .aborted

section Meaning

variable {x y : BitVec w} {isSigned : Bool}

theorem trapIf_bind {p : Prop} [Decidable p] {c : Bool} (h : c = true ↔ p) (f : Unit → Outcome α) :
    (trapIf c >>= f) = if p then .aborted else f () := by
  by_cases hp : p
  case pos =>
    rw [if_pos hp, h.mpr hp]
    rfl
  case neg =>
    rw [if_neg hp, Bool.eq_false_of_not_eq_true (mt h.mp hp)]
    rfl

theorem withOverflow_fst (op : CheckedOperation) :
    (withOverflow isSigned x y op).1 = BitVec.ofInt w (op.exact (decode isSigned x) (decode isSigned y)) := by
  cases op
  case plus  => simp [withOverflow, CheckedOperation.exact, BitVec.ofInt_add, ofInt_decode]
  case minus =>
    simp [withOverflow, CheckedOperation.exact, Int.sub_eq_add_neg, BitVec.ofInt_add, BitVec.ofInt_neg, ofInt_decode,
      BitVec.sub_eq_add_neg]
  case star  => simp [withOverflow, CheckedOperation.exact, BitVec.ofInt_mul, ofInt_decode]

theorem withOverflow_snd (op : CheckedOperation) :
    (withOverflow isSigned x y op).2 = true ↔
      ¬InRange isSigned w (op.exact (decode isSigned x) (decode isSigned y)) := by
  have hp : ((2 ^ w : Nat) : Int) = 2 ^ w := by push_cast; rfl
  have hx := x.isLt
  cases isSigned <;> cases op <;>
    simp only [withOverflow, CheckedOperation.exact, decode, inRange_signed, inRange_unsigned, ite_true, ite_false,
      Bool.false_eq_true, BitVec.saddOverflow, BitVec.ssubOverflow, BitVec.smulOverflow, BitVec.uaddOverflow,
      BitVec.usubOverflow, BitVec.umulOverflow, Bool.or_eq_true, decide_eq_true_eq]
  case true.plus  => omega
  case true.minus => omega
  case true.star  => omega
  case false.plus => omega
  case false.minus => omega
  case false.star =>
    rw [← hp, ← Nat.cast_mul]
    omega

theorem lowerOverflowCheckedBinary_eq (op : CheckedOperation) :
    lowerOverflowCheckedBinary isSigned op x y =
      ofMeaning w (if InRange isSigned w (op.exact (decode isSigned x) (decode isSigned y))
        then some (op.exact (decode isSigned x) (decode isSigned y)) else none) := by
  rw [lowerOverflowCheckedBinary, trapIf_bind (withOverflow_snd op)]
  by_cases h : InRange isSigned w (op.exact (decode isSigned x) (decode isSigned y))
  case pos =>
    rw [if_neg (not_not.mpr h), if_pos h, withOverflow_fst]
    rfl
  case neg =>
    rw [if_pos h, if_neg h]
    rfl

theorem signedMinBits_eq (hw : 0 < w) (hl : w ≤ 64) : constInt w (signedMinBits w) = BitVec.intMin w := by
  apply BitVec.eq_of_toNat_eq
  have hp : 2 ^ (w - 1) < 2 ^ w := Nat.pow_lt_pow_right (by decide) (by omega)
  rw [constInt, signedMinBits, BitVec.toNat_setWidth, one_shiftLeft_toNat (by omega), Nat.mod_eq_of_lt hp,
    BitVec.toNat_intMin, Nat.mod_eq_of_lt hp]

theorem constInt_allOnes (hl : w ≤ 64) : constInt w (BitVec.allOnes 64) = BitVec.allOnes w := by
  ext i hi
  rw [constInt, BitVec.getElem_setWidth, BitVec.getLsbD_allOnes, BitVec.getElem_allOnes]
  exact decide_eq_true (hi.trans_le hl)

theorem toInt_eq_min_iff (hw : 0 < w) : x.toInt = -2 ^ (w - 1) ↔ x = BitVec.intMin w := by
  rw [← BitVec.toInt_inj, BitVec.toInt_intMin_of_pos hw]

theorem toInt_eq_neg_one_iff (hw : 0 < w) : x.toInt = -1 ↔ x = BitVec.allOnes w := by
  rw [← BitVec.toInt_inj, BitVec.toInt_allOnes, if_pos hw]

theorem decode_eq_zero_iff : decode isSigned x = 0 ↔ x = 0#w := by
  cases isSigned
  case true  => rw [← BitVec.toInt_inj, BitVec.toInt_zero]; rfl
  case false =>
    rw [← BitVec.toNat_inj]
    simp [decode]

theorem sdiv_eq_ofInt (x y : BitVec w) : x.sdiv y = BitVec.ofInt w (x.toInt.tdiv y.toInt) := by
  rw [← BitVec.toInt_inj, BitVec.toInt_sdiv, BitVec.toInt_ofInt]

theorem srem_eq_ofInt (x y : BitVec w) : x.srem y = BitVec.ofInt w (x.toInt.tmod y.toInt) := by
  rw [← BitVec.toInt_srem, BitVec.ofInt_toInt]

theorem udiv_eq_ofInt (x y : BitVec w) : x / y = BitVec.ofInt w ((x.toNat : Int).tdiv y.toNat) := by
  rw [Int.tdiv_eq_ediv_of_nonneg (Int.natCast_nonneg _), ← Int.natCast_ediv, BitVec.ofInt_natCast,
    ← BitVec.toNat_udiv, BitVec.ofNat_toNat, BitVec.setWidth_eq]

theorem umod_eq_ofInt (x y : BitVec w) : x % y = BitVec.ofInt w ((x.toNat : Int).tmod y.toNat) := by
  rw [Int.tmod_eq_emod_of_nonneg (Int.natCast_nonneg _), ← Int.natCast_emod, BitVec.ofInt_natCast,
    ← BitVec.toNat_umod, BitVec.ofNat_toNat, BitVec.setWidth_eq]

theorem lowerCheckedDivRem_eq (hw : 0 < w) (hl : w ≤ 64) (op : DivisionOperation) :
    lowerCheckedDivRem isSigned op x y =
      ofMeaning w (if IntegerValue.DivisionFails ⟨w, isSigned⟩ (decode isSigned x) (decode isSigned y)
        then none else some (op.exact (decode isSigned x) (decode isSigned y))) := by
  have hz : (y == 0#w) = true ↔ y = 0#w := beq_iff_eq
  unfold lowerCheckedDivRem
  rw [trapIf_bind hz]
  simp only [IntegerValue.DivisionFails, decode_eq_zero_iff]
  by_cases hy : y = 0#w
  case pos =>
    rw [if_pos hy, if_pos (.inl hy)]
    rfl
  case neg =>
    rw [if_neg hy]
    cases isSigned
    case false =>
      rw [if_neg (by simp)]
      cases op
      case slash   => simp [buildUDiv, hy, ofMeaning, DivisionOperation.exact, decode, udiv_eq_ofInt]
      case percent => simp [buildURem, hy, ofMeaning, DivisionOperation.exact, decode, umod_eq_ofInt]
    case true =>
      have ho : (x == constInt w (signedMinBits w) && y == constInt w (BitVec.allOnes 64)) = true ↔
          x = BitVec.intMin w ∧ y = BitVec.allOnes w := by
        rw [signedMinBits_eq hw hl, constInt_allOnes hl, Bool.and_eq_true, beq_iff_eq, beq_iff_eq]
      simp only [decode, ite_true, true_and, toInt_eq_min_iff hw, toInt_eq_neg_one_iff hw]
      rw [trapIf_bind ho]
      by_cases hm : x = BitVec.intMin w ∧ y = BitVec.allOnes w
      case pos =>
        rw [if_pos hm, if_pos (.inr hm)]
        rfl
      case neg =>
        have hf : ¬(y = 0#w ∨ x = BitVec.intMin w ∧ y = BitVec.allOnes w) := not_or.mpr ⟨hy, hm⟩
        rw [if_neg hm, if_neg hf]
        cases op
        case slash =>
          simp only [buildSDiv]
          rw [if_neg hf, sdiv_eq_ofInt]
          rfl
        case percent =>
          simp only [buildSRem]
          rw [if_neg hf, srem_eq_ofInt]
          rfl

-- The negation of an unsigned zero is the only one that does not trap.
theorem lowerCheckedNeg_unsigned : lowerCheckedNeg false x = if x = 0#w then .value 0#w else .aborted := by
  by_cases h : x = 0#w <;> simp [lowerCheckedNeg, trapIf, h] <;> rfl

theorem lowerCheckedNeg_signed (hw : 0 < w) (hl : w ≤ 64) :
    lowerCheckedNeg true x = ofMeaning w (if InRange true w (-x.toInt) then some (-x.toInt) else none) := by
  have hm : (x == constInt w (signedMinBits w)) = true ↔ ¬InRange true w (-x.toInt) := by
    rw [signedMinBits_eq hw hl, beq_iff_eq, ← toInt_eq_min_iff hw, inRange_signed]
    have hi : InRange true w (decode true x) := decode_inRange hw x
    have hr := inRange_signed.mp hi
    simp only [decode, ite_true] at hr
    omega
  simp only [lowerCheckedNeg, ite_true]
  rw [trapIf_bind hm]
  by_cases h : InRange true w (-x.toInt)
  case pos =>
    rw [if_neg (not_not.mpr h), if_pos h, ofMeaning, BitVec.ofInt_neg, BitVec.ofInt_toInt, BitVec.zero_sub]
    rfl
  case neg =>
    rw [if_pos h, if_neg h]
    rfl

end Meaning

section Conversion

variable {w m : Nat} {x : BitVec w} {sourceIsSigned targetIsSigned : Bool}

theorem zeroExtend_eq_ofInt (x : BitVec w) : x.setWidth m = BitVec.ofInt m x.toNat := by
  rw [BitVec.ofInt_natCast]
  apply BitVec.eq_of_toNat_eq
  simp

theorem lowerTruncatingIntegerCast_eq :
    lowerTruncatingIntegerCast sourceIsSigned m x = BitVec.ofInt m (decode sourceIsSigned x) := by
  unfold lowerTruncatingIntegerCast
  split
  case isTrue h => exact truncate_eq_ofInt sourceIsSigned x h.le
  case isFalse h =>
    split
    case isTrue =>
      cases sourceIsSigned
      case true  => rfl
      case false => exact zeroExtend_eq_ofInt x
    case isFalse h' => exact truncate_eq_ofInt sourceIsSigned x (Nat.not_lt.mp h')

-- The bounds of the target, as constants of the source type.
theorem signedMaxBits_toNat (h : m ≤ w) (hw' : 0 < m) (hl : w ≤ 64) :
    (constInt w (signedMaxBits m)).toNat = 2 ^ (m - 1) - 1 := by
  have hs := one_shiftLeft_toNat (w := m - 1) (by omega)
  have h1 := Nat.one_le_two_pow (n := m - 1)
  have hp : 2 ^ (m - 1) < 2 ^ w := Nat.pow_lt_pow_right (by decide) (by omega)
  have hle : 1#64 ≤ 1#64 <<< (m - 1) := by
    rw [BitVec.le_def, hs]
    simpa using h1
  rw [constInt, signedMaxBits, BitVec.toNat_setWidth, BitVec.toNat_sub_of_le hle, hs]
  exact Nat.mod_eq_of_lt (by simp; omega)

theorem unsignedMaxBits_toNat (h : m < w) (hl : w ≤ 64) :
    (constInt w (unsignedMaxBits m)).toNat = 2 ^ m - 1 := by
  have hs := one_shiftLeft_toNat (w := m) (by omega)
  have h1 := Nat.one_le_two_pow (n := m)
  have hp : 2 ^ m < 2 ^ w := Nat.pow_lt_pow_right (by decide) h
  have hle : 1#64 ≤ 1#64 <<< m := by
    rw [BitVec.le_def, hs]
    simpa using h1
  rw [constInt, unsignedMaxBits, if_neg (by omega), BitVec.toNat_setWidth, BitVec.toNat_sub_of_le hle, hs]
  exact Nat.mod_eq_of_lt (by simp; omega)

theorem toInt_of_lt_half (hw : 0 < w) (h : x.toNat < 2 ^ (w - 1)) : x.toInt = x.toNat := by
  apply BitVec.toInt_eq_toNat_of_lt
  have : 2 ^ w = 2 * 2 ^ (w - 1) := by rw [← Nat.pow_succ', Nat.succ_eq_add_one, Nat.sub_add_cancel hw]
  omega

theorem not_ofInt (k : Int) : ~~~BitVec.ofInt w k = BitVec.ofInt w (-k - 1) := by
  have h := BitVec.neg_eq_not_add (BitVec.ofInt w k)
  rw [Int.sub_eq_add_neg, BitVec.ofInt_add, BitVec.ofInt_neg, BitVec.ofInt_neg, h, ← BitVec.sub_eq_add_neg]
  exact (BitVec.add_sub_cancel _ _).symm

theorem signedMinBits_toInt (h : m < w) (hw' : 0 < m) (hl : w ≤ 64) :
    (constInt w (~~~signedMaxBits m)).toInt = -2 ^ (m - 1) := by
  have h1 := Nat.one_le_two_pow (n := m - 1)
  have hp : (2 : Int) ^ (m - 1) ≤ 2 ^ (w - 1) := pow_le_pow_right₀ (by norm_num) (by omega)
  have hc : ((2 ^ (m - 1) : Nat) : Int) = 2 ^ (m - 1) := by push_cast; rfl
  have hb : constInt w (signedMaxBits m) = BitVec.ofInt w (2 ^ (m - 1) - 1) := by
    have hn : (2 : Int) ^ (m - 1) - 1 = ((constInt w (signedMaxBits m)).toNat : Int) := by
      rw [signedMaxBits_toNat h.le hw' hl]
      omega
    rw [hn, BitVec.ofInt_natCast, BitVec.ofNat_toNat, BitVec.setWidth_eq]
  rw [constInt, BitVec.setWidth_not hl, ← constInt, hb, not_ofInt, BitVec.toInt_ofInt_eq_self (by omega)]
  all_goals omega

theorem castInvalid_iff (hw : 0 < w) (hw' : 0 < m) (hl : w ≤ 64) :
    castInvalid sourceIsSigned targetIsSigned m x = true ↔ ¬InRange targetIsSigned m (decode sourceIsSigned x) := by
  have hr : InRange sourceIsSigned w (decode sourceIsSigned x) := decode_inRange hw x
  have hc : ((2 ^ (m - 1) : Nat) : Int) = 2 ^ (m - 1) := by push_cast; rfl
  have hd : ((2 ^ m : Nat) : Int) = 2 ^ m := by push_cast; rfl
  have h1 := Nat.one_le_two_pow (n := m - 1)
  have h2 := Nat.one_le_two_pow (n := m)
  cases sourceIsSigned <;> cases targetIsSigned <;>
    simp only [castInvalid, decode, inRange_signed, inRange_unsigned, ite_true, ite_false, Bool.false_eq_true,
      Bool.and_eq_true, Bool.or_eq_true, decide_eq_true_eq, BitVec.slt_iff_toInt_lt, BitVec.ult_iff_toNat_lt,
      BitVec.toInt_zero] at hr ⊢
  case true.true =>
    by_cases h : m < w
    case pos =>
      have hm := signedMaxBits_toNat h.le hw' hl
      have hp : 2 ^ (m - 1) ≤ 2 ^ (w - 1) := Nat.pow_le_pow_right (by decide) (by omega)
      rw [signedMinBits_toInt h hw' hl, toInt_of_lt_half (x := constInt w (signedMaxBits m)) hw (by omega), hm]
      omega
    case neg =>
      have hp : (2 : Int) ^ (w - 1) ≤ 2 ^ (m - 1) := pow_le_pow_right₀ (by norm_num) (by omega)
      omega
  case true.false =>
    by_cases h : m < w
    case pos =>
      have hm := unsignedMaxBits_toNat h hl
      have hp : 2 ^ m ≤ 2 ^ (w - 1) := Nat.pow_le_pow_right (by decide) (by omega)
      rw [toInt_of_lt_half (x := constInt w (unsignedMaxBits m)) hw (by omega), hm]
      omega
    case neg =>
      have hp : (2 : Int) ^ (w - 1) ≤ 2 ^ m := pow_le_pow_right₀ (by norm_num) (by omega)
      omega
  case false.true =>
    by_cases h : m ≤ w
    case pos =>
      rw [signedMaxBits_toNat h hw' hl]
      omega
    case neg =>
      have hp : (2 : Int) ^ w ≤ 2 ^ (m - 1) := pow_le_pow_right₀ (by norm_num) (by omega)
      omega
  case false.false =>
    by_cases h : m < w
    case pos =>
      rw [unsignedMaxBits_toNat h hl]
      omega
    case neg =>
      have hp : (2 : Int) ^ w ≤ 2 ^ m := pow_le_pow_right₀ (by norm_num) (by omega)
      omega

theorem lowerCheckedIntegerCast_eq (hw : 0 < w) (hw' : 0 < m) (hl : w ≤ 64) :
    lowerCheckedIntegerCast sourceIsSigned targetIsSigned m x =
      ofMeaning m (if InRange targetIsSigned m (decode sourceIsSigned x)
        then some (decode sourceIsSigned x) else none) := by
  unfold lowerCheckedIntegerCast
  rw [trapIf_bind (castInvalid_iff hw hw' hl)]
  by_cases h : InRange targetIsSigned m (decode sourceIsSigned x)
  case neg =>
    rw [if_pos h, if_neg h]
    rfl
  case pos =>
    rw [if_neg (not_not.mpr h), if_pos h]
    split
    case isTrue hlt =>
      rw [ofMeaning, ← truncate_eq_ofInt sourceIsSigned x hlt.le]
      rfl
    case isFalse hge =>
      split
      case isFalse hge' =>
        rw [ofMeaning, ← truncate_eq_ofInt sourceIsSigned x (Nat.not_lt.mp hge')]
        rfl
      case isTrue hlt =>
        cases sourceIsSigned
        case false =>
          rw [ofMeaning, decode, if_neg Bool.false_ne_true, ← zeroExtend_eq_ofInt]
          rfl
        case true =>
          cases targetIsSigned
          case true  => rfl
          case false =>
            -- A number that is not negative is extended with zeros.
            have hn := (inRange_unsigned.mp h).left
            have hx : x.toInt = x.toNat := by
              simp only [decode, ite_true] at hn
              rw [BitVec.toInt_eq_toNat_cond] at hn ⊢
              split at hn
              case isTrue h => rw [if_pos h]
              case isFalse =>
                have := x.isLt
                omega
            rw [ofMeaning, decode, if_pos rfl, hx, ← zeroExtend_eq_ofInt]
            rfl

end Conversion

section Shift

variable {w m : Nat} {x : BitVec w} {y : BitVec m} {isSigned countIsSigned : Bool}

-- Every count type can hold the width of every value.
theorem width_toNat (hl : w ≤ 64) (hw' : 8 ≤ m) : (constInt m (BitVec.ofNat 64 w)).toNat = w := by
  have hp : 2 ^ 8 ≤ 2 ^ m := Nat.pow_le_pow_right (by decide) hw'
  rw [constInt, BitVec.toNat_setWidth, BitVec.toNat_ofNat, Nat.mod_eq_of_lt (by omega), Nat.mod_eq_of_lt (by omega)]

theorem shiftInvalid_iff (hl : w ≤ 64) (hw' : 8 ≤ m) :
    (if countIsSigned then y.slt 0#m || (constInt m (BitVec.ofNat 64 w)).sle y
      else (constInt m (BitVec.ofNat 64 w)).ule y) = true ↔
      ¬(0 ≤ decode countIsSigned y ∧ decode countIsSigned y < w) := by
  have hn := width_toNat (w := w) hl hw'
  cases countIsSigned
  case false =>
    simp only [decode, Bool.false_eq_true, ite_false, BitVec.ule_iff_toNat_le, hn]
    omega
  case true =>
    have hp : 2 ^ 7 ≤ 2 ^ (m - 1) := Nat.pow_le_pow_right (by decide) (by omega)
    have hi := toInt_of_lt_half (x := constInt m (BitVec.ofNat 64 w)) (by omega) (by omega)
    simp only [decode, ite_true, Bool.or_eq_true, BitVec.slt_iff_toInt_lt, BitVec.sle_iff_toInt_le, BitVec.toInt_zero,
      hi, hn]
    omega

theorem count_toNat (h : 0 ≤ decode countIsSigned y ∧ decode countIsSigned y < w) :
    (normalizeShiftCount w y).toNat = (decode countIsSigned y).toNat := by
  have hlt := Nat.lt_two_pow_self (n := w)
  have hy : (y.toNat : Int) = decode countIsSigned y := by
    cases countIsSigned
    case false => rfl
    case true =>
      have hn := h.left
      simp only [decode, ite_true] at hn ⊢
      rw [BitVec.toInt_eq_toNat_cond] at hn ⊢
      split at hn
      case isTrue h => rw [if_pos h]
      case isFalse =>
        have := y.isLt
        omega
  rw [normalizeShiftCount, BitVec.toNat_setWidth, Nat.mod_eq_of_lt (by omega)]
  omega

theorem lowerCheckedShift_eq (hl : w ≤ 64) (hw' : 8 ≤ m) (op : CheckedShift) :
    lowerCheckedShift op countIsSigned x y =
      if 0 ≤ decode countIsSigned y ∧ decode countIsSigned y < w then
        .value (match op with
          | .shl         => x <<< (decode countIsSigned y).toNat
          | .shrSigned   => x.sshiftRight (decode countIsSigned y).toNat
          | .shrUnsigned => x >>> (decode countIsSigned y).toNat)
      else .aborted := by
  simp only [lowerCheckedShift]
  rw [trapIf_bind (shiftInvalid_iff hl hw')]
  by_cases h : 0 ≤ decode countIsSigned y ∧ decode countIsSigned y < w
  case neg => rw [if_pos h, if_neg h]
  case pos =>
    have hc := count_toNat (w := w) h
    have hlt : ¬w ≤ (decode countIsSigned y).toNat := by omega
    rw [if_neg (not_not.mpr h), if_pos h]
    cases op
    case shl         => simp only [buildShl, hc]; rw [if_neg hlt]
    case shrSigned   => simp only [buildAShr, hc]; rw [if_neg hlt]
    case shrUnsigned => simp only [buildLShr, hc]; rw [if_neg hlt]

end Shift

section Instruction

variable {t count : IntegerType}

theorem IntegerType.eight_le_width (t : IntegerType) : 8 ≤ t.width := by
  have h := t.width_cases
  omega

theorem lowerShift_meaning (op : CheckedShift) (shift : ShiftOperation)
    (ho : ∀ (x : BitVec t.width) n, (match op with
      | .shl         => x <<< n
      | .shrSigned   => x.sshiftRight n
      | .shrUnsigned => x >>> n) = shift.onBits t.isSigned x n)
    (x : BitVec t.width) (y : BitVec count.width) :
    lowerCheckedShift op count.isSigned x y = ofMeaning t.width
      (IntegerInstruction.shiftMeaning t shift (decode t.isSigned x) (decode count.isSigned y)) := by
  rw [lowerCheckedShift_eq t.width_le (IntegerType.eight_le_width count), IntegerInstruction.shiftMeaning]
  by_cases h : 0 ≤ decode count.isSigned y ∧ decode count.isSigned y < t.width
  case neg =>
    rw [if_neg h, if_neg h]
    rfl
  case pos =>
    rw [if_pos h, if_pos h, ho, ofInt_decode, ofMeaning, ofInt_decode]

theorem buildWrap_eq (op : WrappingBuiltin) (isSigned : Bool) (x y : BitVec w) :
    buildWrap op x y = BitVec.ofInt w (op.exact (decode isSigned x) (decode isSigned y)) := by
  cases op
  case add => simp [buildWrap, WrappingBuiltin.exact, BitVec.ofInt_add, ofInt_decode]
  case sub =>
    simp [buildWrap, WrappingBuiltin.exact, Int.sub_eq_add_neg, BitVec.ofInt_add, BitVec.ofInt_neg, ofInt_decode,
      BitVec.sub_eq_add_neg]
  case mul => simp [buildWrap, WrappingBuiltin.exact, BitVec.ofInt_mul, ofInt_decode]

theorem buildNeg_eq (isSigned : Bool) (x : BitVec w) : buildNeg x = BitVec.ofInt w (-decode isSigned x) := by
  rw [buildNeg, BitVec.zero_sub, BitVec.ofInt_neg, ofInt_decode]

-- A result that is given by its bit pattern.
theorem value_eq_ofMeaning (isSigned : Bool) (x : BitVec w) :
    Outcome.value x = ofMeaning w (some (decode isSigned x)) := by
  rw [ofMeaning, ofInt_decode]

theorem ofMeaning_wrap (isSigned : Bool) (w : Nat) (z : Int) :
    ofMeaning w (some (wrap isSigned w z)) = .value (BitVec.ofInt w z) := by
  rw [TwosComplement.wrap, ← value_eq_ofMeaning]

theorem constant_meaning {value : IntegerValue} (hf : value.fitsType t.type.kind) :
    .value (constInt t.width (integerValueBits value t.width)) = ofMeaning t.width (some value.toInt) := by
  rw [constInt, integerValueBits_eq hf, setWidth_setWidth_of_le t.width_le, ofMeaning]

theorem wrap_meaning (op : WrappingBuiltin) (x y : BitVec t.width) :
    .value (buildWrap op x y) = ofMeaning t.width
      ((IntegerInstruction.wrap op t).meaning (decode t.isSigned x) (decode t.isSigned y)) := by
  rw [IntegerInstruction.meaning, ofMeaning_wrap, buildWrap_eq op t.isSigned]

theorem wrapNeg_meaning (x y : BitVec t.width) :
    .value (buildNeg x) = ofMeaning t.width
      ((IntegerInstruction.wrapNeg t).meaning (decode t.isSigned x) (decode t.isSigned y)) := by
  rw [IntegerInstruction.meaning, ofMeaning_wrap, buildNeg_eq t.isSigned]

theorem bitwise_meaning (op : BitwiseOperation) (x y : BitVec t.width) :
    .value (op.onBits x y) = ofMeaning t.width
      ((IntegerInstruction.bitwise op t).meaning (decode t.isSigned x) (decode t.isSigned y)) := by
  rw [IntegerInstruction.meaning, ← value_eq_ofMeaning, ofInt_decode, ofInt_decode]

theorem bitNot_meaning (x y : BitVec t.width) :
    .value (~~~x) = ofMeaning t.width
      ((IntegerInstruction.bitNot t).meaning (decode t.isSigned x) (decode t.isSigned y)) := by
  rw [IntegerInstruction.meaning, ← value_eq_ofMeaning, ofInt_decode]

theorem checkedNeg_meaning (hs : t.isSigned = true) (x y : BitVec t.width) :
    lowerCheckedNeg t.isSigned x = ofMeaning t.width
      ((IntegerInstruction.checkedNeg t).meaning (decode t.isSigned x) (decode t.isSigned y)) := by
  rw [IntegerInstruction.meaning, hs, lowerCheckedNeg_signed t.width_pos t.width_le]
  simp only [IntegerType.Contains, hs, decode, ite_true]

theorem truncate_meaning (s t : IntegerType) (x y : BitVec s.width) :
    .value (lowerTruncatingIntegerCast s.isSigned t.width x) = ofMeaning t.width
      ((IntegerInstruction.truncate s t).meaning (decode s.isSigned x) (decode s.isSigned y)) := by
  rw [IntegerInstruction.meaning, ofMeaning_wrap, lowerTruncatingIntegerCast_eq]

theorem lowerIntegerInstruction_eq (i : IntegerInstruction) (hv : i.verify) (hn : ¬i.NegatesUnsigned)
    (x : BitVec i.lhsType.width) (y : BitVec i.rhsType.width) :
    lowerIntegerInstruction i x y =
      ofMeaning i.resultType.width (i.meaning (decode i.lhsType.isSigned x) (decode i.rhsType.isSigned y)) := by
  cases i
  case constant t value hf _ => exact constant_meaning hf
  case checked op t         => exact lowerOverflowCheckedBinary_eq op
  case checkedDivision op t => exact lowerCheckedDivRem_eq t.width_pos t.width_le op
  case checkedNeg t         => exact checkedNeg_meaning (Bool.not_eq_false _ ▸ hn) x y
  case wrap op t            => exact wrap_meaning op x y
  case wrapNeg t            => exact wrapNeg_meaning x y
  case bitwise op t         => exact bitwise_meaning op x y
  case bitNot t             => exact bitNot_meaning x y
  case shl t count          => exact lowerShift_meaning .shl .shiftLeft (fun _ _ => rfl) x y
  case shrSigned t count    =>
    have hs : t.isSigned = true := hv
    exact lowerShift_meaning (t := t) .shrSigned .shiftRight (fun _ _ => by simp [ShiftOperation.onBits, hs]) x y
  case shrUnsigned t count  =>
    have hs : t.isSigned = false := by simpa [IntegerInstruction.verify] using hv
    exact lowerShift_meaning (t := t) .shrUnsigned .shiftRight (fun _ _ => by simp [ShiftOperation.onBits, hs]) x y
  case castChecked s t      => exact lowerCheckedIntegerCast_eq s.width_pos t.width_pos s.width_le
  case truncate s t         => exact truncate_meaning s t x y

end Instruction
end Coglet.Backend.Llvm
