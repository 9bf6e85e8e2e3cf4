import Coglet.Backend.CInteger

open TwosComplement Coglet.Ir
open CInteger (Has HasBits Decides Guards Outcome)

-- What the emitted integer instructions do.

namespace Coglet.Backend.C.Integer

-- Stores that differ only in the variables of one instruction.
def Agrees (result : ValueId) (s s' : CInteger.Store Name) : Prop :=
  ∀ n : Name, n.id ≠ result → s' n = s n

-- A text that has a value, no matter which variables are declared by the instruction that reads it.
def Reads (result : ValueId) (s : CInteger.Store Name) (e : Expression) (t : IntegerType) (z : Int) : Prop :=
  ∀ s', Agrees result s s' → Has s' e (runtimeIntegerType t) z

-- From a store `s`, which agrees with `s₀`, the statements compute a number, or abort if there is none.
def Runs (result : ValueId) (s₀ s : CInteger.Store Name) (statements : List Statement) (text : Expression)
    (t : IntegerType) : Option Int → Prop
  | some z => ∃ s', CInteger.Stmt.exec s (.block statements) = .value s' ∧ Agrees result s₀ s' ∧
    Has s' text (runtimeIntegerType t) z
  | none   => CInteger.Stmt.exec s (.block statements) = .aborted

def Emission.Yields (code : Emission) (result : ValueId) (s : CInteger.Store Name) (t : IntegerType) :
    Option Int → Prop :=
  Runs result s s code.statements code.text t

section Run

variable {result : ValueId} {s s₀ s' : CInteger.Store Name} {stem : Stem} {e text : Expression} {t : IntegerType}
  {t' t₁ : CInteger.Ty} {z z' x y : Int} {m : Option Int} {stmt : Statement} {statements : List Statement} {p : Prop}

theorem Agrees.refl : Agrees result s s :=
  fun _ _ => rfl

theorem Agrees.set (h : Agrees result s₀ s) : Agrees result s₀ (s.set ⟨stem, result⟩ t' z) := by
  intro n hn
  have hne : n ≠ ⟨stem, result⟩ := fun he => hn (congrArg Name.id he)
  rw [CInteger.Store.set_of_ne hne]
  exact h n hn

theorem Reads.has (h : Reads result s₀ e t z) (ha : Agrees result s₀ s) : Has s e (runtimeIntegerType t) z :=
  h s ha

theorem Runs.declare (h : Has s e t₁ z) (hc : t'.convert z = some z')
    (hr : Runs result s₀ (s.set ⟨stem, result⟩ t' z') statements text t m) :
    Runs result s₀ s (.declare t' ⟨stem, result⟩ e :: statements) text t m := by
  cases m <;> simp only [Runs, CInteger.exec_declare h hc] at hr ⊢ <;> exact hr

theorem Runs.guard (hg : Guards s stmt p) (hp : p → m = none)
    (hn : ¬p → Runs result s₀ s statements text t m) : Runs result s₀ s (stmt :: statements) text t m := by
  by_cases h : p
  case pos =>
    rw [hp h]
    exact CInteger.exec_guard_true hg h
  case neg =>
    have hr := hn h
    cases m <;> simp only [Runs, CInteger.exec_guard_false hg h] at hr ⊢ <;> exact hr

theorem Runs.cons (hr : Runs result s₀ s' statements text t m)
    (h : CInteger.Stmt.exec s (.block [stmt]) = .value s') : Runs result s₀ s (stmt :: statements) text t m := by
  cases m <;> simp only [Runs, CInteger.exec_cons h] at hr ⊢ <;> exact hr

theorem runtime_contains (h : t.Contains z) : (runtimeIntegerType t).Contains z :=
  h

-- The result is declared with a type that contains it.
theorem Runs.done (ha : Agrees result s₀ s) (h : Has s e t₁ z) (hz : t.Contains z) :
    Runs result s₀ s [.declare (runtimeIntegerType t) ⟨.v, result⟩ e] (var result .v) t (some z) := by
  refine ⟨s.set ⟨.v, result⟩ (runtimeIntegerType t) z, ?_, ha.set, Has.var CInteger.Store.set_self⟩
  rw [CInteger.exec_declare h (CInteger.convert_of_contains (runtime_contains hz)), CInteger.exec_nil]

theorem Runs.of_eq {m' : Option Int} (h : Runs result s₀ s statements text t m) (hm : m = m') :
    Runs result s₀ s statements text t m' :=
  hm ▸ h

end Run

section Pattern

variable {s : CInteger.Store Name} {e : Expression} {t : IntegerType} {b : BitVec 64}

theorem masked_has (h : HasBits s e b) : HasBits s (masked t e) ((b.setWidth t.width).setWidth 64) := by
  unfold masked
  split
  case isTrue hw =>
    have hb : (b.setWidth t.width).setWidth 64 = b := by
      apply BitVec.eq_of_toNat_eq
      simp [hw]
    rwa [hb]
  case isFalse =>
    rw [← and_mask_eq_setWidth t.width_le]
    exact h.bitwise (HasBits.literal _) .and

theorem signBit_of_setWidth {w : Nat} (hw : 0 < w) (hl : w ≤ 64) (v : BitVec w) :
    (v.setWidth 64 &&& (1#64 <<< (w - 1)) ≠ 0#64) ↔ v.msb = true := by
  have h := IntegerValue.signBit_eq_msb hw hl (v.setWidth 64)
  rw [setWidth_setWidth_of_le hl, and_mask_eq_setWidth hl, setWidth_setWidth_of_le hl] at h
  rw [← h, bne_iff_ne]
  rfl

-- All bits but the sign.
theorem low_toNat {w : Nat} (hw : 0 < w) (hl : w ≤ 64) (v : BitVec w) :
    (v.setWidth 64 &&& (1#64 <<< (w - 1) - 1#64)).toNat = v.toNat % 2 ^ (w - 1) := by
  rw [BitVec.toNat_and, one_shiftLeft_sub_one_toNat (by omega), setWidth_toNat hl]
  exact Nat.and_two_pow_sub_one_eq_mod _ _

theorem toInt_of_msb {w : Nat} (hw : 0 < w) (v : BitVec w) (hm : v.msb = true) :
    v.toInt = -2 ^ (w - 1) + (v.toNat % 2 ^ (w - 1) : Nat) := by
  have hd : 2 ^ w = 2 ^ (w - 1) + 2 ^ (w - 1) := by
    rw [← Nat.two_mul, ← Nat.pow_succ', Nat.succ_eq_add_one, Nat.sub_add_cancel hw]
  have hge : 2 ^ (w - 1) ≤ v.toNat := by
    have h := BitVec.msb_eq_decide v
    rw [hm] at h
    exact of_decide_eq_true h.symm
  have hlt := v.isLt
  have hmod : v.toNat % 2 ^ (w - 1) = v.toNat - 2 ^ (w - 1) := by
    rw [Nat.mod_eq_sub_mod hge, Nat.mod_eq_of_lt (by omega)]
  have hp : ((2 ^ (w - 1) : Nat) : Int) = 2 ^ (w - 1) := by push_cast; rfl
  have hq : ((2 ^ w : Nat) : Int) = 2 ^ w := by push_cast; rfl
  rw [BitVec.toInt_eq_toNat_cond, if_neg (by omega), hmod]
  omega

theorem toInt_of_not_msb {w : Nat} (v : BitVec w) (hm : v.msb = false) : v.toInt = v.toNat := by
  rw [BitVec.toInt_eq_msb_cond, hm]
  rfl

theorem contains_decode (t : IntegerType) (v : BitVec t.width) : t.Contains (decode t.isSigned v) :=
  decode_inRange t.width_pos v

-- A signed result that is not negative is below the sign bit.
theorem contains_of_not_msb (hs : t.isSigned = true) (v : BitVec t.width) (hm : v.msb = false) :
    t.Contains v.toNat := by
  have h := contains_decode t v
  rwa [hs, decode, if_pos rfl, toInt_of_not_msb v hm] at h

theorem uint64C_has (b : BitVec 64) : HasBits s (uint64C b) b :=
  HasBits.literal b

theorem intC_has (z : Int) : Has s (intC z) .int z :=
  Has.literal .int z

section Reconstruct

variable {v : BitVec t.width}

theorem signBit_decides (h : HasBits s e (v.setWidth 64)) :
    Decides s (.bitwise .and e (uint64C (1#64 <<< (t.width - 1)))) (v.msb = true) := by
  apply (Decides.of_has (h.bitwise (uint64C_has (1#64 <<< (t.width - 1))) .and)).congr
  rw [← signBit_of_setWidth t.width_pos t.width_le]
  simp [CInteger.Bitwise.onBits, ← BitVec.toNat_inj]

theorem low_contains (v : BitVec t.width) : CInteger.Ty.int64.Contains (v.toNat % 2 ^ (t.width - 1) : Nat) := by
  have hp : 2 ^ (t.width - 1) ≤ 2 ^ 63 := Nat.pow_le_pow_right (by decide) (Nat.sub_le_sub_right t.width_le 1)
  have hm := Nat.mod_lt v.toNat (y := 2 ^ (t.width - 1)) (by positivity)
  simp only [CInteger.Ty.Contains, CInteger.Ty.int64, inRange_signed]
  omega

-- The value of the bits below the sign is a number of type `int64_t`.
theorem low_has (h : HasBits s e (v.setWidth 64)) :
    Has s (.cast .int64 (.bitwise .and e (uint64C (1#64 <<< (t.width - 1) - 1#64)))) .int64
      (v.toNat % 2 ^ (t.width - 1) : Nat) := by
  have hb := h.bitwise (uint64C_has (1#64 <<< (t.width - 1) - 1#64)) .and
  rw [HasBits, CInteger.Bitwise.onBits, low_toNat t.width_pos t.width_le] at hb
  exact hb.cast (low_contains v)

theorem min_contains (hs : t.isSigned = true) : t.Contains (-2 ^ (t.width - 1)) := by
  rw [IntegerType.Contains, hs, inRange_signed]
  have hp : (0 : Int) < 2 ^ (t.width - 1) := by positivity
  omega

theorem max_contains (hs : t.isSigned = true) : t.Contains (2 ^ (t.width - 1) - 1) := by
  rw [IntegerType.Contains, hs, inRange_signed]
  have hp : (0 : Int) < 2 ^ (t.width - 1) := by positivity
  omega

theorem contains_int64 (hs : t.isSigned = true) (h : t.Contains z) : CInteger.Ty.int64.Contains z := by
  rw [IntegerType.Contains, hs] at h
  exact CInteger.contains_of_le h t.width_le

theorem contains_uint64 (hs : t.isSigned = false) (h : t.Contains z) : CInteger.Ty.uint64.Contains z := by
  rw [IntegerType.Contains, hs] at h
  exact CInteger.contains_unsigned_of_le h t.width_le

theorem signBit_toNat (t : IntegerType) : ((1#64 <<< (t.width - 1)).toNat : Int) = 2 ^ (t.width - 1) := by
  have hw := t.width_le
  rw [one_shiftLeft_toNat (by omega)]
  push_cast
  rfl

-- The least value of the type is written as the negation of a literal.
theorem neg_literal_has (hw : t.width < 64) :
    Has s (.neg (.literal .int64 (1#64 <<< (t.width - 1)).toNat)) .int64 (-2 ^ (t.width - 1)) := by
  apply (Has.literal _ _).neg
  rw [signBit_toNat]
  have hp : (2 : Int) ^ (t.width - 1) ≤ 2 ^ 63 := pow_le_pow_right₀ (by norm_num) (by omega)
  have hq : (0 : Int) < 2 ^ (t.width - 1) := by positivity
  have hc : CInteger.Ty.int64.Contains (-2 ^ (t.width - 1)) := by
    simp only [CInteger.Ty.int64, CInteger.Ty.Contains, inRange_signed]
    omega
  exact CInteger.convert_of_contains hc

theorem conditional_has {t' : CInteger.Ty} {e₁ e₂ : Expression} (h : HasBits s e (v.setWidth 64))
    (h₁ : v.msb = true → Has s e₁ t' v.toInt) (ht₁ : e₁.typeOf s = t') (h₂ : v.msb = false → Has s e₂ t' v.toInt)
    (ht₂ : e₂.typeOf s = t') (hc : t'.Contains v.toInt) :
    Has s (.conditional (.bitwise .and e (uint64C (1#64 <<< (t.width - 1)))) e₁ e₂) (t'.usual t') v.toInt := by
  have hd := signBit_decides h
  have hu : (t'.usual t').Contains v.toInt := CInteger.usual_self t' ▸ CInteger.promote_contains hc
  cases hm : v.msb
  case true  => exact Has.conditional_true hd hm (h₁ hm) ht₂ hu
  case false => exact Has.conditional_false hd (by simp [hm]) ht₁ (h₂ hm) hu

-- A pattern is read with the signedness of its type.
theorem reconstruct_has (h : HasBits s e (v.setWidth 64)) :
    ∃ t', Has s (reconstruct t e) t' (decode t.isSigned v) := by
  have hv : Has s e .uint64 v.toNat := by
    rw [← setWidth_toNat t.width_le v]
    exact h
  have hc := contains_decode t v
  by_cases hs : t.isSigned = true
  case neg =>
    have hf : t.isSigned = false := Bool.eq_false_of_not_eq_true hs
    rw [hf, decode, if_neg Bool.false_ne_true] at hc
    simp only [reconstruct, hf, Bool.not_false, ite_true, decode, Bool.false_eq_true, ite_false]
    exact ⟨_, hv.cast (runtime_contains hc)⟩
  case pos =>
    rw [hs, decode, if_pos rfl] at hc
    have h64 := contains_int64 hs hc
    have hmin {e' : Expression} (he : Has s e' .int64 (-2 ^ (t.width - 1))) (hm : v.msb = true) :
        Has s (.arithmetic .add e' (.cast .int64 (.bitwise .and e (uint64C (1#64 <<< (t.width - 1) - 1#64))))) .int64
          v.toInt := by
      rw [toInt_of_msb t.width_pos v hm] at h64 ⊢
      exact he.arithmetic (low_has h) rfl (contains_int64 hs (min_contains hs)) (low_contains v)
        (CInteger.convert_of_contains h64)
    simp only [reconstruct, hs, Bool.not_true, Bool.false_eq_true, ite_false, decode, ite_true]
    by_cases hw : t.width = 64
    case pos =>
      rw [if_pos hw]
      refine ⟨_, conditional_has h (hmin ?_) rfl (fun hm => ?_) rfl h64⟩
      case refine_1 => rw [hw]; exact Has.literal _ _
      case refine_2 =>
        rw [toInt_of_not_msb v hm] at h64 ⊢
        exact hv.cast h64
    case neg =>
      have hlt := t.width_le
      rw [if_neg hw]
      refine ⟨_, conditional_has h (fun hm => (hmin (neg_literal_has (by omega)) hm).cast (runtime_contains hc)) rfl
        (fun hm => ?_) rfl (runtime_contains hc)⟩
      rw [toInt_of_not_msb v hm] at hc ⊢
      exact hv.cast (runtime_contains hc)

end Reconstruct
end Pattern

section Wrapping

variable {result : ValueId} {s s₀ : CInteger.Store Name} {e lhs rhs : Expression} {t source : IntegerType}
  {b : BitVec 64} {x y z : Int}

theorem Reads.toBits (h : Reads result s e t z) : HasBits s (.cast .uint64 e) (BitVec.ofInt 64 z) :=
  (h.has .refl).toBits

theorem reconstruct_runs {v : BitVec t.width} (ha : Agrees result s₀ s) (h : HasBits s e (v.setWidth 64)) :
    Runs result s₀ s [.declare (runtimeIntegerType t) ⟨.v, result⟩ (reconstruct t e)] (var result .v) t
      (some (decode t.isSigned v)) := by
  obtain ⟨_, hr⟩ := reconstruct_has h
  exact Runs.done ha hr (contains_decode t v)

theorem emitWrapping_yields (h : HasBits s e b) :
    (emitWrappingIntegerInstruction result t e).Yields result s t (some (decode t.isSigned (b.setWidth t.width))) := by
  apply Runs.declare (masked_has h) (CInteger.convert_toNat _)
  exact reconstruct_runs Agrees.refl.set (Has.var CInteger.Store.set_self)

theorem emitTruncating_yields (h : Reads result s lhs source x) :
    (emitTruncatingIntegerInstruction result t lhs).Yields result s t (some (wrap t.isSigned t.width x)) := by
  apply Runs.declare (masked_has h.toBits) (CInteger.convert_toNat _)
  rw [wrap, ← setWidth_ofInt t.width_le]
  exact reconstruct_runs Agrees.refl.set (Has.var CInteger.Store.set_self)

theorem emitWrappingBinary_yields (hx : Reads result s lhs t x) (hy : Reads result s rhs t y) (op : WrappingBuiltin) :
    (emitWrappingBinary result t lhs rhs op).Yields result s t (some (wrap t.isSigned t.width (op.exact x y))) := by
  have hb : HasBits s (.arithmetic (wrappingOperator op) (.cast .uint64 lhs) (.cast .uint64 rhs))
      (BitVec.ofInt 64 (op.exact x y)) := by
    cases op
    case add =>
      rw [WrappingBuiltin.exact, BitVec.ofInt_add]
      exact hx.toBits.add hy.toBits
    case sub =>
      rw [WrappingBuiltin.exact, Int.sub_eq_add_neg, BitVec.ofInt_add, BitVec.ofInt_neg, ← BitVec.sub_eq_add_neg]
      exact hx.toBits.sub hy.toBits
    case mul =>
      rw [WrappingBuiltin.exact, BitVec.ofInt_mul]
      exact hx.toBits.mul hy.toBits
  rw [wrap, ← setWidth_ofInt t.width_le]
  exact emitWrapping_yields hb

theorem emitWrappingNeg_yields (hx : Reads result s lhs t x) :
    (emitWrappingNeg result t lhs).Yields result s t (some (wrap t.isSigned t.width (-x))) := by
  have hb := (uint64C_has 0#64).sub hx.toBits
  rw [BitVec.zero_sub, ← BitVec.ofInt_neg] at hb
  rw [wrap, ← setWidth_ofInt t.width_le]
  exact emitWrapping_yields hb

end Wrapping
section Bitwise

variable {result : ValueId} {s : CInteger.Store Name} {lhs rhs e : Expression} {t : IntegerType} {x y : Int}

-- A result that was computed in a wider type.
theorem narrowed_yields {n : Nat} {isSigned : Bool} {t' : CInteger.Ty} {b : BitVec n} {v : BitVec t.width}
    (h : Has s e t' (decode isSigned b)) (hn : t.width ≤ n) (hv : b.setWidth t.width = v)
    (hs : t.isSigned = true → decode isSigned b = v.toInt) :
    (emitResult result t [] e).Yields result s t (some (decode t.isSigned v)) := by
  have hc : t.isSigned = true → InRange true t.width (decode isSigned b) := by
    intro ht
    have hd := contains_decode t v
    rw [IntegerType.Contains, ht, decode, if_pos rfl] at hd
    rwa [hs ht]
  have hr := CInteger.convert_decode t.isSigned t.width_pos hn b hc
  rw [hv] at hr
  exact Runs.declare h hr ⟨_, CInteger.exec_nil, Agrees.refl.set, Has.var CInteger.Store.set_self⟩

theorem ofInt_eq_signExtend {n : Nat} (hs : t.isSigned = true) (hx : t.Contains x) :
    BitVec.ofInt n x = (BitVec.ofInt t.width x).signExtend n := by
  have hd : (BitVec.ofInt t.width x).toInt = x := by
    have hd := decode_ofInt t.width_pos hx
    rwa [hs, decode, if_pos rfl] at hd
  rw [BitVec.signExtend, hd]

theorem bitwise_setWidth {w n : Nat} (op : BitwiseOperation) (a b : BitVec n) :
    ((bitwiseOperator op).onBits a b).setWidth w = op.onBits (a.setWidth w) (b.setWidth w) := by
  cases op
  case and => exact BitVec.setWidth_and
  case or  => exact BitVec.setWidth_or
  case xor => exact BitVec.setWidth_xor

theorem bitwise_signExtend {w n : Nat} (op : BitwiseOperation) (a b : BitVec w) :
    (bitwiseOperator op).onBits (a.signExtend n) (b.signExtend n) = (op.onBits a b).signExtend n := by
  cases op
  case and => exact BitVec.signExtend_and.symm
  case or  => exact BitVec.signExtend_or.symm
  case xor => exact BitVec.signExtend_xor.symm

theorem emitBitwise_yields (hx : Reads result s lhs t x) (hy : Reads result s rhs t y) (hcx : t.Contains x)
    (hcy : t.Contains y) (op : BitwiseOperation) :
    (emitResult result t [] (.bitwise (bitwiseOperator op) lhs rhs)).Yields result s t
      (some (decode t.isSigned (op.onBits (BitVec.ofInt t.width x) (BitVec.ofInt t.width y)))) := by
  have hw : t.width ≤ _ := CInteger.promote_width (runtimeIntegerType t)
  have he := Has.bitwise (hx.has .refl) (hy.has .refl) (CInteger.usual_self _)
    (CInteger.promote_contains (runtime_contains hcx)) (CInteger.promote_contains (runtime_contains hcy))
    (bitwiseOperator op)
  apply narrowed_yields he hw
  case hv => rw [bitwise_setWidth, setWidth_ofInt hw, setWidth_ofInt hw]
  case hs =>
    intro hs
    rw [CInteger.promote_isSigned (t := runtimeIntegerType t) hs, decode, if_pos rfl, ofInt_eq_signExtend hs hcx, ofInt_eq_signExtend hs hcy,
      bitwise_signExtend, BitVec.toInt_signExtend_of_le hw]

theorem emitBitNot_yields (hx : Reads result s lhs t x) (hcx : t.Contains x) :
    (emitResult result t [] (.complement lhs)).Yields result s t
      (some (decode t.isSigned (~~~BitVec.ofInt t.width x))) := by
  have hw : t.width ≤ _ := CInteger.promote_width (runtimeIntegerType t)
  apply narrowed_yields (hx.has .refl).complement hw
  case hv => rw [BitVec.setWidth_not hw, setWidth_ofInt hw]
  case hs =>
    intro hs
    rw [CInteger.promote_isSigned (t := runtimeIntegerType t) hs, decode, if_pos rfl, ofInt_eq_signExtend hs hcx, ← BitVec.signExtend_not t.width_pos,
      BitVec.toInt_signExtend_of_le hw]

end Bitwise
section Constant

variable {s : CInteger.Store Name} {t : IntegerType} {v : BitVec t.width}

-- The magnitude of a negative constant does not exceed the sign bit.
theorem magnitude_toNat (hm : v.msb = true) :
    ((~~~(v.setWidth 64) &&& integerWidthMask t.width) + 1#64).toNat = 2 ^ t.width - v.toNat ∧
      2 ^ t.width - v.toNat ≤ 2 ^ (t.width - 1) := by
  have hp : 2 ^ t.width = 2 * 2 ^ (t.width - 1) := by
    rw [← Nat.pow_succ', Nat.succ_eq_add_one, Nat.sub_add_cancel t.width_pos]
  have hl : 2 ^ (t.width - 1) ≤ 2 ^ 63 := Nat.pow_le_pow_right (by decide) (Nat.sub_le_sub_right t.width_le 1)
  have hge : 2 ^ (t.width - 1) ≤ v.toNat := by
    have h := BitVec.msb_eq_decide v
    rw [hm] at h
    exact of_decide_eq_true h.symm
  have hv := v.isLt
  have hb : ~~~(v.setWidth 64) &&& integerWidthMask t.width = (~~~v).setWidth 64 := by
    rw [and_mask_eq_setWidth t.width_le, BitVec.setWidth_not t.width_le, setWidth_setWidth_of_le t.width_le]
  rw [hb, BitVec.toNat_add, setWidth_toNat t.width_le, BitVec.toNat_not]
  constructor
  case right => omega
  case left  =>
    rw [Nat.mod_eq_of_lt (by simp; omega)]
    simp
    omega

theorem integerConstantExpr_has :
    Has s (integerConstantExpr t (v.setWidth 64)) (runtimeIntegerType t) (decode t.isSigned v) := by
  have hc := contains_decode t v
  have hraw : v.setWidth 64 &&& integerWidthMask t.width = v.setWidth 64 := by
    rw [and_mask_eq_setWidth t.width_le, setWidth_setWidth_of_le t.width_le]
  have hbits : Has s (uint64C (v.setWidth 64)) .uint64 v.toNat := by
    rw [← setWidth_toNat t.width_le v]
    exact uint64C_has _
  simp only [integerConstantExpr, hraw]
  by_cases h : t.isSigned = true ∧ v.msb = true
  case neg =>
    have hn : decode t.isSigned v = v.toNat := by
      cases hs : t.isSigned
      case false => rfl
      case true  => exact toInt_of_not_msb v (Bool.eq_false_of_not_eq_true fun hm => h ⟨hs, hm⟩)
    rw [if_neg (fun hb => h ⟨hb.left, (signBit_of_setWidth t.width_pos t.width_le v).mp hb.right⟩), hn]
    rw [hn] at hc
    exact hbits.cast (runtime_contains hc)
  case pos =>
    rw [if_pos ⟨h.left, (signBit_of_setWidth t.width_pos t.width_le v).mpr h.right⟩]
    have hg := magnitude_toNat h.right
    have hl : 2 ^ (t.width - 1) ≤ 2 ^ 63 := Nat.pow_le_pow_right (by decide) (Nat.sub_le_sub_right t.width_le 1)
    have hd : decode t.isSigned v = -((2 ^ t.width - v.toNat : Nat) : Int) := by
      have hlt := v.isLt
      rw [h.left, decode, if_pos rfl, BitVec.toInt_eq_msb_cond, if_pos h.right]
      push_cast [hlt.le]
      omega
    rw [hd] at hc ⊢
    split
    case isTrue hm =>
      have hn : 2 ^ t.width - v.toNat = 2 ^ 63 := by
        rw [← hg.left, hm]
        rfl
      have he : Has s (.arithmetic .sub (.neg (.literal .int64 9223372036854775807)) (.literal .int64 1)) .int64
          (-((2 ^ t.width - v.toNat : Nat) : Int)) := by
        rw [hn]
        exact ⟨rfl, rfl⟩
      exact he.cast (runtime_contains hc)
    case isFalse hm =>
      have hn : 2 ^ t.width - v.toNat < 2 ^ 63 := by
        have hne : 2 ^ t.width - v.toNat ≠ 2 ^ 63 := by
          intro he
          apply hm
          apply BitVec.eq_of_toNat_eq
          rw [hg.left, he]
          rfl
        omega
      have hi : CInteger.Ty.int64.Contains (-((2 ^ t.width - v.toNat : Nat) : Int)) := by
        simp only [CInteger.Ty.int64, CInteger.Ty.Contains, inRange_signed]
        omega
      rw [← hg.left] at hi hc ⊢
      have he := (Has.literal (s := s) .int64 _).neg (CInteger.convert_of_contains (t := .int64) hi)
      exact he.cast (runtime_contains hc)

end Constant
section Shift

variable {result : ValueId} {s s₀ : CInteger.Store Name} {lhs rhs : Expression} {t count : IntegerType} {x y : Int}
  {v : BitVec t.width} {b : BitVec 64} {op : Shift} {n : Nat}

-- A number that is not negative is compared with `int` constants as itself, and so is every signed one.
theorem usual_int_contains (hs : count.isSigned = true) (h : count.Contains y) :
    ((runtimeIntegerType count).usual .int).Contains y := by
  have hw := count.width_cases
  rw [IntegerType.Contains, hs] at h
  have hu : (runtimeIntegerType count).usual .int = ⟨max 32 count.width, true⟩ := by
    rcases hw with hw | hw | hw | hw <;> simp [runtimeIntegerType, hs, hw, CInteger.Ty.usual, CInteger.Ty.promote,
      CInteger.Ty.int]
  rw [hu]
  exact CInteger.contains_of_le h (le_max_right _ _)

theorem usual_int_contains_zero (hs : count.isSigned = true) :
    ((runtimeIntegerType count).usual .int).Contains 0 := by
  apply usual_int_contains hs
  rw [IntegerType.Contains, hs, inRange_signed]
  have hp : (0 : Int) < 2 ^ (count.width - 1) := by positivity
  omega

theorem toNat_ofInt_of_contains (hc : count.Contains y) (hy : 0 ≤ y) : ((BitVec.ofInt 64 y).toNat : Int) = y := by
  have hw := count.width_le
  have h64 : InRange false 64 y := by
    have hp : (2 : Int) ^ (count.width - 1) ≤ 2 ^ count.width := pow_le_pow_right₀ (by norm_num) (by omega)
    have hq : (2 : Int) ^ count.width ≤ 2 ^ 64 := pow_le_pow_right₀ (by norm_num) hw
    cases hs : count.isSigned <;> simp only [IntegerType.Contains, hs, inRange_signed, inRange_unsigned] at hc ⊢ <;>
      omega
  exact decode_ofInt (by decide) h64

theorem shiftCheck_guards (hy : Reads result s₀ rhs count y) (ha : Agrees result s₀ s) (hc : count.Contains y) :
    Guards s (shiftCheck t rhs count) ¬(0 ≤ y ∧ y < t.width) := by
  have hw := t.width_le
  have hr := hy.has ha
  have hn : (BitVec.ofNat 64 t.width).toNat = t.width := by
    rw [BitVec.toNat_ofNat, Nat.mod_eq_of_lt (by omega)]
  have hd : Decides s (.compare .ge (.cast .uint64 rhs) (uint64C (BitVec.ofNat 64 t.width)))
      ((t.width : Int) ≤ (BitVec.ofInt 64 y).toNat) := by
    apply (Decides.compare hr.toBits (uint64C_has _) (CInteger.contains_toNat _) (CInteger.contains_toNat _) .ge).congr
    rw [CInteger.Relation.Holds, hn]
  cases hs : count.isSigned
  case false =>
    have hy₀ : 0 ≤ y := by
      rw [IntegerType.Contains, hs, inRange_unsigned] at hc
      exact hc.left
    have hg := Guards.abortIf hd
    simp only [shiftCheck, hs, Bool.false_eq_true, ite_false]
    apply hg.congr
    rw [toNat_ofInt_of_contains hc hy₀]
    omega
  case true =>
    have hl : Decides s (.compare .lt rhs (intC 0)) (y < 0) :=
      Decides.compare hr (Has.literal _ _) (usual_int_contains hs hc) (usual_int_contains_zero hs) .lt
    have hg := Guards.abortIf (hl.or fun _ => hd)
    simp only [shiftCheck, hs, ite_true]
    apply hg.congr
    by_cases hy₀ : 0 ≤ y
    case neg => omega
    case pos =>
      rw [toNat_ofInt_of_contains hc hy₀]
      omega

theorem count_has (hy : Reads result s₀ rhs count y) (ha : Agrees result s₀ s) (h : 0 ≤ y ∧ y < t.width) :
    Has s (.cast .uint rhs) .uint y := by
  have hw := t.width_le
  apply (hy.has ha).cast
  simp only [CInteger.Ty.uint, CInteger.Ty.Contains, inRange_unsigned]
  omega

theorem ushiftRight_setWidth (v : BitVec t.width) (n : Nat) : (v.setWidth 64) >>> n = (v >>> n).setWidth 64 := by
  apply BitVec.eq_of_toNat_eq
  rw [BitVec.toNat_ushiftRight, setWidth_toNat t.width_le, setWidth_toNat t.width_le, BitVec.toNat_ushiftRight]

-- The bits of the type that are vacated by a shift.
def fillBits (t : IntegerType) (n : Nat) : BitVec 64 :=
  integerWidthMask t.width ^^^ (integerWidthMask t.width >>> n)

theorem arithmeticShift_setWidth (hm : v.msb = true) (n : Nat) :
    (v.setWidth 64) >>> n ||| fillBits t n = (v.sshiftRight n).setWidth 64 := by
  rw [fillBits]
  rw [← IntegerValue.arithmeticShift_eq t.width_le v hm, ← and_mask_eq_setWidth t.width_le]
  apply BitVec.eq_of_getLsbD_eq
  intro i _
  rw [BitVec.getLsbD_and, BitVec.getLsbD_or, IntegerValue.signFill_getLsbD t.width_le,
    integerWidthMask_getLsbD t.width_le, BitVec.getLsbD_ushiftRight, BitVec.getLsbD_setWidth]
  by_cases hi : i < t.width
  case pos => simp [hi]
  case neg => simp [hi, BitVec.getLsbD_of_ge v (n + i) (by omega)]

-- The bits after the shift, where a negative number is filled up with ones.
def Shift.onBits (op : Shift) (v : BitVec w) (n : Nat) : BitVec w :=
  match op with
  | shl         => v <<< n
  | shrSigned   => v.sshiftRight n
  | shrUnsigned => v >>> n

theorem exec_shiftAssign {e : Expression} (hs : s ⟨.shiftBits, result⟩ = some (.uint64, z)) (h : HasBits s e b) :
    CInteger.Stmt.exec s (.block [.assign ⟨.shiftBits, result⟩ e]) =
      .value (s.set ⟨.shiftBits, result⟩ .uint64 b.toNat) := by
  rw [CInteger.exec_assign hs h (CInteger.convert_toNat b), CInteger.exec_nil]

-- The sign is copied into the bits that are vacated.
theorem exec_fill (hy : Reads result s₀ rhs count y) (ha : Agrees result s₀ s) (h : 0 ≤ y ∧ y < t.width)
    (hs : s ⟨.shiftBits, result⟩ = some (.uint64, ((v.setWidth 64).toNat : Int))) (hm : v.msb = true) :
    CInteger.Stmt.exec s (.block [
        .declare .uint64 ⟨.shiftFill, result⟩ (.bitwise .xor (uint64C (integerWidthMask t.width))
          (.shift .right (uint64C (integerWidthMask t.width)) (.cast .uint rhs))),
        .assign ⟨.shiftBits, result⟩ (.bitwise .or (.shift .right (var result .shiftBits) (.cast .uint rhs))
          (var result .shiftFill))
      ]) =
      .value ((s.set ⟨.shiftFill, result⟩ .uint64 (fillBits t y.toNat).toNat).set
        ⟨.shiftBits, result⟩ .uint64 ((v.sshiftRight y.toNat).setWidth 64).toNat) := by
  have hw := t.width_le
  have hmask := uint64C_has (s := s) (integerWidthMask t.width)
  have hfill : HasBits s _ (fillBits t y.toNat) :=
    hmask.bitwise (hmask.shiftRight (count_has hy ha h) h.left (by omega)) .xor
  have hs' : s.set ⟨.shiftFill, result⟩ .uint64 (fillBits t y.toNat).toNat ⟨.shiftBits, result⟩ =
      some (.uint64, ((v.setWidth 64).toNat : Int)) :=
    (CInteger.Store.set_of_ne (by simp)).trans hs
  have hbits : HasBits _ (var result .shiftBits) (v.setWidth 64) := Has.var hs'
  have hvar : HasBits (s.set ⟨.shiftFill, result⟩ .uint64 (fillBits t y.toNat).toNat) (var result .shiftFill) _ :=
    Has.var CInteger.Store.set_self
  have hr := (hbits.shiftRight (count_has hy ha.set h) h.left (by omega)).bitwise hvar .or
  rw [CInteger.exec_declare hfill (CInteger.convert_toNat _), ← arithmeticShift_setWidth hm]
  exact exec_shiftAssign hs' hr

-- The statement may declare a variable, but otherwise it only changes the bits.
theorem shiftStatement_exec (op : Shift) (hy : Reads result s₀ rhs count y) (ha : Agrees result s₀ s) (h : 0 ≤ y ∧ y < t.width)
    (hs : s ⟨.shiftBits, result⟩ = some (.uint64, ((v.setWidth 64).toNat : Int))) :
    ∃ s', CInteger.Stmt.exec s (.block [shiftStatement result t rhs op]) = .value s' ∧ Agrees result s₀ s' ∧
      s' ⟨.shiftBits, result⟩ = some (.uint64, (((op.onBits v y.toNat).setWidth 64).toNat : Int)) := by
  have hw := t.width_le
  have hb : HasBits s (var result .shiftBits) (v.setWidth 64) := Has.var hs
  have hc := count_has hy ha h
  have hr := hb.shiftRight hc h.left (by omega)
  rw [ushiftRight_setWidth] at hr
  cases op
  case shl =>
    have hl := masked_has (t := t) (hb.shiftLeft hc h.left (by omega))
    rw [BitVec.setWidth_shiftLeft_of_le hw, setWidth_setWidth_of_le hw] at hl
    exact ⟨_, exec_shiftAssign hs hl, ha.set, CInteger.Store.set_self⟩
  case shrUnsigned => exact ⟨_, exec_shiftAssign hs hr, ha.set, CInteger.Store.set_self⟩
  case shrSigned =>
    have hu : CInteger.Ty.uint.Contains y ∧ CInteger.Ty.uint.Contains 0 := by
      simp only [CInteger.Ty.uint, CInteger.Ty.Contains, inRange_unsigned]
      omega
    have hm : HasBits s (uint64C (integerWidthMask t.width)) (integerWidthMask t.width) := uint64C_has _
    have hn : Decides s (.compare .ne (.bitwise .and (var result .shiftBits) (uint64C (1#64 <<< (t.width - 1))))
        (intC 0)) (v.msb = true) := by
      have hd := hb.bitwise (uint64C_has (1#64 <<< (t.width - 1))) .and
      apply (Decides.compare hd (intC_has 0) (CInteger.contains_toNat _) (by decide) .ne).congr
      rw [← signBit_of_setWidth t.width_pos hw]
      simp [CInteger.Relation.Holds, CInteger.Bitwise.onBits, ← BitVec.toNat_inj]
    have hd := hn.and fun _ => Decides.compare hc (intC_has 0) hu.left hu.right .ne
    by_cases hf : v.msb = true ∧ y ≠ 0
    case pos =>
      have he : CInteger.Stmt.exec s (.block [shiftStatement result t rhs .shrSigned]) = .value _ :=
        (CInteger.exec_ite_true hd hf).trans (CInteger.exec_block.trans (exec_fill hy ha h hs hf.left))
      exact ⟨_, he, ha.set.set, CInteger.Store.set_self⟩
    case neg =>
      have ho : v >>> y.toNat = v.sshiftRight y.toNat := by
        cases hv : v.msb
        case false => exact IntegerValue.logicalShift_eq_sshiftRight v hv _
        case true  =>
          have hy₀ : y = 0 := not_not.mp fun hne => hf ⟨hv, hne⟩
          simp [hy₀]
      rw [ho] at hr
      have he : CInteger.Stmt.exec s (.block [shiftStatement result t rhs .shrSigned]) = .value _ :=
        (CInteger.exec_ite_false hd hf).trans (CInteger.exec_block.trans (exec_shiftAssign hs hr))
      exact ⟨_, he, ha.set, CInteger.Store.set_self⟩

theorem emitShift_yields (hx : Reads result s lhs t x) (hy : Reads result s rhs count y) (hc : count.Contains y)
    (shift : ShiftOperation)
    (ho : ∀ (v : BitVec t.width) n, op.onBits v n = shift.onBits t.isSigned v n) :
    (emitShiftInstruction result t lhs rhs count op).Yields result s t
      (IntegerInstruction.shiftMeaning t shift x y) := by
  apply Runs.guard (shiftCheck_guards hy .refl hc)
  case hp =>
    intro hn
    rw [IntegerInstruction.shiftMeaning, if_neg hn]
  case hn =>
    intro hn
    have h := not_not.mp hn
    rw [IntegerInstruction.shiftMeaning, if_pos h, ← ho]
    apply Runs.declare (masked_has hx.toBits) (CInteger.convert_toNat _)
    rw [setWidth_ofInt t.width_le]
    obtain ⟨s', he, ha, hs⟩ := shiftStatement_exec op hy Agrees.refl.set h CInteger.Store.set_self
    exact (reconstruct_runs ha (Has.var hs)).cons he

end Shift
section Cast

variable {result : ValueId} {s s₀ : CInteger.Store Name} {lhs e : Expression} {t source : IntegerType} {x : Int}
  {stem : Stem} {t' : CInteger.Ty}

theorem signedIntegerMin_has (s : CInteger.Store Name) (t : IntegerType) :
    ∃ t', Has s (signedIntegerMin t.width) t' (-2 ^ (t.width - 1)) ∧ CInteger.Ty.int64.usual t' = .int64 := by
  refine ⟨_, Has.literal _ _, ?_⟩
  split <;> rfl

theorem signedIntegerMax_has (s : CInteger.Store Name) (t : IntegerType) :
    ∃ t', Has s (signedIntegerMax t.width) t' (2 ^ (t.width - 1) - 1) ∧ CInteger.Ty.int64.usual t' = .int64 := by
  refine ⟨_, Has.literal _ _, ?_⟩
  split <;> rfl

theorem mask_toNat (t : IntegerType) : ((integerWidthMask t.width).toNat : Int) = 2 ^ t.width - 1 := by
  have h1 := Nat.one_le_two_pow (n := t.width)
  have hp : ((2 ^ t.width : Nat) : Int) = 2 ^ t.width := by push_cast; rfl
  rw [integerWidthMask_toNat t.width_le]
  omega

-- The result is what the check lets through, as it is declared with the narrower type.
theorem cast_runs (ha : Agrees result s₀ s) (h : Has s e t' x) (hn : t.Contains x) :
    Runs result s₀ s [.declare (runtimeIntegerType t) ⟨.v, result⟩ (.cast (runtimeIntegerType t) e)] (var result .v) t
      (if t.Contains x then some x else none) := by
  rw [if_pos hn]
  exact Runs.done ha (h.cast (runtime_contains hn)) hn

-- Some checks are only emitted for types with less than 64 bits.
theorem Runs.guardIf {c p : Prop} [Decidable c] {stmt : Statement} {statements : List Statement} {m : Option Int}
    (hg : c → Guards s stmt p) (hp : c → p → m = none) (hn : (c → ¬p) → Runs result s₀ s statements e t m) :
    Runs result s₀ s ((if c then [stmt] else []) ++ statements) e t m := by
  by_cases h : c
  case pos =>
    rw [if_pos h]
    exact Runs.guard (hg h) (hp h) fun hnp => hn fun _ => hnp
  case neg =>
    rw [if_neg h]
    exact hn fun hc => (h hc).elim

section Checks

variable {operand : Expression}

theorem signedRange_guards (hs : t.isSigned = true) (h : Has s operand .int64 x)
    (hc : CInteger.Ty.int64.Contains x) :
    Guards s (.abortIf (.or (.compare .lt operand (signedIntegerMin t.width))
      (.compare .gt operand (signedIntegerMax t.width)))) ¬t.Contains x := by
  obtain ⟨_, hmin, hmin'⟩ := signedIntegerMin_has s t
  obtain ⟨_, hmax, hmax'⟩ := signedIntegerMax_has s t
  have hl := Decides.compare h hmin (by rwa [hmin']) (by rw [hmin']; exact contains_int64 hs (min_contains hs)) .lt
  have hg := Decides.compare h hmax (by rwa [hmax']) (by rw [hmax']; exact contains_int64 hs (max_contains hs)) .gt
  apply (Guards.abortIf (hl.or fun _ => hg)).congr
  rw [IntegerType.Contains, hs, inRange_signed]
  simp only [CInteger.Relation.Holds]
  omega

theorem isNegative_decides (h : Has s operand .int64 x) (hc : CInteger.Ty.int64.Contains x) :
    Decides s (.compare .lt operand (intC 0)) (x < 0) :=
  Decides.compare h (intC_has 0) hc (by decide) .lt

theorem tooLarge_decides {m : BitVec 64} (h : Has s operand .uint64 x) (hc : CInteger.Ty.uint64.Contains x) :
    Decides s (.compare .gt operand (uint64C m)) ((m.toNat : Int) < x) :=
  Decides.compare h (uint64C_has m) hc (CInteger.contains_toNat m) .gt

theorem unsignedRange_guards (ht : t.isSigned = false) (h : Has s operand .int64 x)
    (hc : CInteger.Ty.int64.Contains x) :
    Guards s (.abortIf (if t.width < 64
      then .or (.compare .lt operand (intC 0))
        (.compare .gt (.cast .uint64 operand) (uint64C (integerWidthMask t.width)))
      else .compare .lt operand (intC 0))) ¬t.Contains x := by
  have hn := isNegative_decides h hc
  have hm := mask_toNat t
  rw [IntegerType.Contains, ht, inRange_unsigned]
  simp only [CInteger.Ty.int64, CInteger.Ty.Contains, inRange_signed] at hc
  by_cases hw : t.width < 64
  case pos =>
    have hl (hx : ¬x < 0) : Decides s (.compare .gt (.cast .uint64 operand) (uint64C (integerWidthMask t.width)))
        (2 ^ t.width - 1 < x) := by
      have hu : CInteger.Ty.uint64.Contains x := by
        simp only [CInteger.Ty.uint64, CInteger.Ty.Contains, inRange_unsigned]
        omega
      exact hm ▸ tooLarge_decides (h.cast hu) hu
    rw [if_pos hw]
    apply (Guards.abortIf (hn.or hl)).congr
    omega
  case neg =>
    have hw' : t.width = 64 := by have := t.width_le; omega
    rw [if_neg hw]
    apply (Guards.abortIf hn).congr
    rw [hw']
    omega

theorem signedMax_guards (ht : t.isSigned = true) (h : Has s operand .uint64 x) (hc : CInteger.Ty.uint64.Contains x) :
    Guards s (.abortIf (.compare .gt operand (uint64C (1#64 <<< (t.width - 1) - 1#64)))) ¬t.Contains x := by
  have hw := t.width_le
  have h1 := Nat.one_le_two_pow (n := t.width - 1)
  have hp : ((2 ^ (t.width - 1) : Nat) : Int) = 2 ^ (t.width - 1) := by push_cast; rfl
  apply (Guards.abortIf (tooLarge_decides h hc)).congr
  simp only [CInteger.Ty.uint64, CInteger.Ty.Contains, inRange_unsigned] at hc
  rw [one_shiftLeft_sub_one_toNat (by omega), IntegerType.Contains, ht, inRange_signed]
  omega

theorem unsignedMax_guards (ht : t.isSigned = false) (h : Has s operand .uint64 x)
    (hc : CInteger.Ty.uint64.Contains x) :
    Guards s (.abortIf (.compare .gt operand (uint64C (integerWidthMask t.width)))) ¬t.Contains x := by
  apply (Guards.abortIf (tooLarge_decides h hc)).congr
  simp only [CInteger.Ty.uint64, CInteger.Ty.Contains, inRange_unsigned] at hc
  rw [mask_toNat, IntegerType.Contains, ht, inRange_unsigned]
  omega

end Checks

theorem emitCheckedCast_yields (hx : Reads result s lhs source x) (hc : source.Contains x) :
    (emitCheckedCastInstruction result t lhs source).Yields result s t (if t.Contains x then some x else none) := by
  unfold emitCheckedCastInstruction
  by_cases hi : source.info = t.info
  case pos =>
    have ht : runtimeIntegerType source = runtimeIntegerType t := by
      simp only [runtimeIntegerType, IntegerType.width, IntegerType.isSigned, hi]
    have hc' : t.Contains x := by
      rw [IntegerType.Contains, IntegerType.width, IntegerType.isSigned, ← hi]
      exact hc
    rw [if_pos hi, if_pos hc']
    exact ⟨s, CInteger.exec_nil, .refl, ht ▸ hx.has .refl⟩
  case neg =>
    rw [if_neg hi]
    by_cases hs : source.isSigned = true
    case pos =>
      have h64 := contains_int64 hs hc
      have hv {stem : Stem} : Has (s.set ⟨stem, result⟩ .int64 x) (var result stem) .int64 x :=
        Has.var CInteger.Store.set_self
      rw [if_pos hs]
      by_cases ht : t.isSigned = true
      case pos =>
        rw [if_pos ht]
        apply Runs.declare ((hx.has .refl).cast h64) (CInteger.convert_of_contains h64)
        refine Runs.guardIf (fun _ => signedRange_guards ht hv h64) (fun _ h => if_neg h) fun hn => ?_
        have hct : t.Contains x := by
          by_cases hw : t.width < 64
          case pos => exact not_not.mp (hn hw)
          case neg =>
            have hw' : t.width = 64 := by have := t.width_le; omega
            rw [IntegerType.Contains, ht, hw']
            exact h64
        exact cast_runs Agrees.refl.set hv hct
      case neg =>
        have htf : t.isSigned = false := Bool.eq_false_of_not_eq_true ht
        rw [if_neg ht]
        apply Runs.declare ((hx.has .refl).cast h64) (CInteger.convert_of_contains h64)
        refine Runs.guard (unsignedRange_guards htf hv h64) (fun h => if_neg h) fun hn => ?_
        have hct := not_not.mp hn
        exact cast_runs Agrees.refl.set (hv.cast (contains_uint64 htf hct)) hct
    case neg =>
      have hf : source.isSigned = false := Bool.eq_false_of_not_eq_true hs
      have h64 := contains_uint64 hf hc
      rw [if_neg hs]
      have hv : Has (s.set ⟨.castUnsigned, result⟩ .uint64 x) (var result .castUnsigned) .uint64 x :=
        Has.var CInteger.Store.set_self
      apply Runs.declare ((hx.has .refl).cast h64) (CInteger.convert_of_contains h64)
      by_cases ht : t.isSigned = true
      case pos =>
        rw [if_pos ht]
        refine Runs.guard (signedMax_guards ht hv h64) (fun h => if_neg h) fun hn => ?_
        exact cast_runs Agrees.refl.set hv (not_not.mp hn)
      case neg =>
        have htf : t.isSigned = false := Bool.eq_false_of_not_eq_true ht
        rw [if_neg ht]
        refine Runs.guardIf (fun _ => unsignedMax_guards htf hv h64) (fun _ h => if_neg h) fun hn => ?_
        have hct : t.Contains x := by
          by_cases hw : t.width < 64
          case pos => exact not_not.mp (hn hw)
          case neg =>
            have hw' : t.width = 64 := by have := t.width_le; omega
            rw [IntegerType.Contains, htf, hw']
            exact h64
        exact cast_runs Agrees.refl.set hv hct

end Cast
end Coglet.Backend.C.Integer
