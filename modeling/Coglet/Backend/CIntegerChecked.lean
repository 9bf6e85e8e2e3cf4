import Coglet.Backend.CIntegerRun

open TwosComplement Coglet.Ir
open CInteger (Has HasBits Decides Guards)

-- The checks of the emitted integer arithmetic fail precisely if the result is out of range.

namespace Coglet.Backend.C.Integer

section Operands

variable {result : ValueId} {s s₀ : CInteger.Store Name} {lhs rhs e text : Expression} {t : IntegerType} {x y z : Int}
  {m : Option Int} {statements : List Statement} {check : Statement} {p : Prop}

theorem checkedType_contains (h : t.Contains x) : (checkedType t).Contains x := by
  unfold checkedType
  by_cases hs : t.isSigned = true
  case pos =>
    rw [if_pos hs]
    exact contains_int64 hs h
  case neg =>
    rw [if_neg hs]
    exact contains_uint64 (Bool.eq_false_of_not_eq_true hs) h

-- An operand is widened without a change of its value.
theorem declareOperand_runs {stem : Stem} (hx : Reads result s₀ e t x) (ha : Agrees result s₀ s) (hc : t.Contains x)
    (hr : Runs result s₀ (s.set ⟨stem, result⟩ (checkedType t) x) statements text t m) :
    Runs result s₀ s (declareChecked result t stem (.cast (checkedType t) e) :: statements) text t m := by
  have h := checkedType_contains hc
  exact Runs.declare ((hx.has ha).cast h) (CInteger.convert_of_contains h) hr

theorem declareOperands_runs (hx : Reads result s lhs t x) (hy : Reads result s rhs t y) (hcx : t.Contains x)
    (hcy : t.Contains y)
    (hr : ∀ s', Agrees result s s' → Has s' (checkedLhs result) (checkedType t) x →
      Has s' (checkedRhs result) (checkedType t) y → Runs result s s' statements text t m) :
    Runs result s s (declareOperands result t lhs rhs ++ statements) text t m := by
  apply declareOperand_runs hx .refl hcx
  apply declareOperand_runs hy Agrees.refl.set hcy
  apply hr _ Agrees.refl.set.set _ (Has.var CInteger.Store.set_self)
  exact Has.var ((CInteger.Store.set_of_ne (by simp)).trans CInteger.Store.set_self)

-- The check aborts if there is no result, and otherwise the result is computed without an overflow.
theorem checked_runs (ha : Agrees result s₀ s) (hg : Guards s check p) (hp : p → m = none)
    (hn : ¬p → ∃ z, m = some z ∧ Has s e (checkedType t) z ∧ t.Contains z) :
    Runs result s₀ s [check, declareChecked result t .checkedResult e,
      .declare (runtimeIntegerType t) ⟨.v, result⟩ (.cast (runtimeIntegerType t) (var result .checkedResult))]
      (var result .v) t m := by
  apply Runs.guard hg hp
  intro hnp
  obtain ⟨z, hm, he, hz⟩ := hn hnp
  subst hm
  apply Runs.declare he (CInteger.convert_of_contains (checkedType_contains hz))
  exact Runs.done ha.set ((Has.var CInteger.Store.set_self).cast (runtime_contains hz)) hz

end Operands

section Signed

variable {result : ValueId} {s : CInteger.Store Name} {a b : Expression} {t : IntegerType} {x y z : Int}

theorem checkedMin_has (hs : t.isSigned = true) : Has s (checkedMin t) .int64 (-2 ^ (t.width - 1)) := by
  obtain ⟨_, h, _⟩ := signedIntegerMin_has s t
  exact h.cast (contains_int64 hs (min_contains hs))

theorem checkedMax_has (hs : t.isSigned = true) : Has s (checkedMax t) .int64 (2 ^ (t.width - 1) - 1) := by
  obtain ⟨_, h, _⟩ := signedIntegerMax_has s t
  rw [checkedMax, if_pos hs]
  exact h.cast (contains_int64 hs (max_contains hs))

theorem int64_contains : CInteger.Ty.int64.Contains z ↔ -2 ^ 63 ≤ z ∧ z < 2 ^ 63 :=
  Iff.rfl

-- All intermediate results of the checks are within the bounds of `int64_t`.
structure Operand (s : CInteger.Store Name) (e : Expression) (z : Int) : Prop where
  has : Has s e .int64 z
  min : -2 ^ 63 ≤ z
  max : z < 2 ^ 63

namespace Operand

theorem contains (h : Operand s a x) : CInteger.Ty.int64.Contains x :=
  int64_contains.mpr ⟨h.min, h.max⟩

theorem add (h₁ : Operand s a x) (h₂ : Operand s b y) (hz : -2 ^ 63 ≤ x + y ∧ x + y < 2 ^ 63) :
    Operand s (.arithmetic .add a b) (x + y) where
  has := h₁.has.arithmetic h₂.has rfl h₁.contains h₂.contains (CInteger.convert_of_contains (int64_contains.mpr hz))
  min := hz.left
  max := hz.right

theorem sub (h₁ : Operand s a x) (h₂ : Operand s b y) (hz : -2 ^ 63 ≤ x - y ∧ x - y < 2 ^ 63) :
    Operand s (.arithmetic .sub a b) (x - y) where
  has := h₁.has.arithmetic h₂.has rfl h₁.contains h₂.contains (CInteger.convert_of_contains (int64_contains.mpr hz))
  min := hz.left
  max := hz.right

theorem mul (h₁ : Operand s a x) (h₂ : Operand s b y) (hz : -2 ^ 63 ≤ x * y ∧ x * y < 2 ^ 63) :
    Operand s (.arithmetic .mul a b) (x * y) where
  has := h₁.has.arithmetic h₂.has rfl h₁.contains h₂.contains (CInteger.convert_of_contains (int64_contains.mpr hz))
  min := hz.left
  max := hz.right

theorem div_bounds (h₁ : Operand s a x) (h₂ : Operand s b y) (hy : y ≠ 0) (hd : x = -2 ^ 63 → y ≠ -1)
    (op : DivisionOperation) : -2 ^ 63 ≤ op.exact x y ∧ op.exact x y < 2 ^ 63 :=
  IntegerValue.signed_divide_bounds ⟨h₁.min, h₁.max⟩ ⟨h₂.min, h₂.max⟩ hy hd op

-- The quotient has to be in range even if only the remainder is computed.
theorem divide (h₁ : Operand s a x) (h₂ : Operand s b y) (hy : y ≠ 0) (hd : x = -2 ^ 63 → y ≠ -1)
    (op : DivisionOperation) : Operand s (.arithmetic (divisionOperator op) a b) (op.exact x y) where
  has := by
    have hq := CInteger.convert_of_contains (int64_contains.mpr (h₁.div_bounds h₂ hy hd .slash))
    have hr := CInteger.convert_of_contains (int64_contains.mpr (h₁.div_bounds h₂ hy hd .percent))
    apply h₁.has.arithmetic h₂.has (t := .int64) rfl h₁.contains h₂.contains
    cases op
    case slash   =>
      simp only [divisionOperator, CInteger.Arithmetic.apply, if_neg hy]
      exact hq
    case percent =>
      simp only [DivisionOperation.exact] at hq hr
      simp only [divisionOperator, CInteger.Arithmetic.apply, if_neg hy, hq, Option.bind_some]
      exact hr
  min := (h₁.div_bounds h₂ hy hd op).left
  max := (h₁.div_bounds h₂ hy hd op).right

theorem compare (h₁ : Operand s a x) (h₂ : Operand s b y) (r : CInteger.Relation) :
    Decides s (.compare r a b) (r.Holds x y) :=
  Decides.compare h₁.has h₂.has h₁.contains h₂.contains r

theorem compare_int (h : Operand s a x) (hi : CInteger.Ty.int64.Contains z) (r : CInteger.Relation) :
    Decides s (.compare r a (intC z)) (r.Holds x z) :=
  Decides.compare h.has (intC_has z) h.contains hi r

end Operand

theorem half_bounds (t : IntegerType) : 1 ≤ (2 : Int) ^ (t.width - 1) ∧ (2 : Int) ^ (t.width - 1) ≤ 2 ^ 63 := by
  have hw := t.width_le
  exact ⟨one_le_pow₀ (by norm_num), pow_le_pow_right₀ (by norm_num) (by omega)⟩

theorem minOperand (hs : t.isSigned = true) : Operand s (checkedMin t) (-2 ^ (t.width - 1)) where
  has := checkedMin_has hs
  min := by have := half_bounds t; omega
  max := by have := half_bounds t; omega

theorem maxOperand (hs : t.isSigned = true) : Operand s (checkedMax t) (2 ^ (t.width - 1) - 1) where
  has := checkedMax_has hs
  min := by have := half_bounds t; omega
  max := by have := half_bounds t; omega

theorem contains_signed (hs : t.isSigned = true) :
    t.Contains z ↔ -2 ^ (t.width - 1) ≤ z ∧ z < 2 ^ (t.width - 1) := by
  rw [IntegerType.Contains, hs]
  exact Iff.rfl

theorem plus_guards (hs : t.isSigned = true) (ha : Operand s (checkedLhs result) x)
    (hb : Operand s (checkedRhs result) y) (hcx : t.Contains x) (hcy : t.Contains y) :
    Guards s (signedCheck result t .plus) ¬t.Contains (x + y) := by
  have hm := half_bounds t
  rw [contains_signed hs] at hcx hcy ⊢
  have hmax := (hb.compare_int (z := 0) (by decide) .gt).and fun hy =>
    ha.compare ((maxOperand hs).sub hb (by simp only [CInteger.Relation.Holds] at hy; omega)) .gt
  have hmin := (hb.compare_int (z := 0) (by decide) .lt).and fun hy =>
    ha.compare ((minOperand hs).sub hb (by simp only [CInteger.Relation.Holds] at hy; omega)) .lt
  apply (Guards.abortIf (hmax.or fun _ => hmin)).congr
  simp only [CInteger.Relation.Holds]
  omega

theorem minus_guards (hs : t.isSigned = true) (ha : Operand s (checkedLhs result) x)
    (hb : Operand s (checkedRhs result) y) (hcx : t.Contains x) (hcy : t.Contains y) :
    Guards s (signedCheck result t .minus) ¬t.Contains (x - y) := by
  have hm := half_bounds t
  rw [contains_signed hs] at hcx hcy ⊢
  have hmax := (hb.compare_int (z := 0) (by decide) .lt).and fun hy =>
    ha.compare ((maxOperand hs).add hb (by simp only [CInteger.Relation.Holds] at hy; omega)) .gt
  have hmin := (hb.compare_int (z := 0) (by decide) .gt).and fun hy =>
    ha.compare ((minOperand hs).add hb (by simp only [CInteger.Relation.Holds] at hy; omega)) .lt
  apply (Guards.abortIf (hmax.or fun _ => hmin)).congr
  simp only [CInteger.Relation.Holds]
  omega

-- Truncated quotients of the bounds by a number of either sign.
theorem lt_neg_tdiv {m d : Int} (hm : 0 ≤ m) (hd : 0 < d) : z < (-m).tdiv d ↔ m < -z * d := by
  rw [Int.neg_tdiv, Int.tdiv_eq_ediv_of_nonneg hm, ← Int.ediv_lt_iff_lt_mul hd]
  omega

theorem tdiv_lt {m d : Int} (hm : 0 ≤ m) (hd : 0 < d) : m.tdiv d < z ↔ m < z * d := by
  rw [Int.tdiv_eq_ediv_of_nonneg hm, Int.ediv_lt_iff_lt_mul hd]

theorem lt_tdiv_neg {m d : Int} (hm : 0 ≤ m) (hd : d < 0) : z < m.tdiv d ↔ m < z * d := by
  have h := lt_neg_tdiv (z := z) hm (d := -d) (by omega)
  rwa [Int.neg_tdiv_neg, neg_mul_neg] at h

-- One comparison for each combination of signs.
theorem star_quotient_guards (hs : t.isSigned = true) (ha : Operand s a x) (hb : Operand s b y)
    (hz : x ≠ 0 ∧ y ≠ 0) :
    Guards s (.ite (.compare .gt a (intC 0))
        (.ite (.compare .gt b (intC 0))
          (.abortIf (.compare .gt a (.arithmetic .div (checkedMax t) b)))
          (.abortIf (.compare .lt b (.arithmetic .div (checkedMin t) a))))
        (.ite (.compare .gt b (intC 0))
          (.abortIf (.compare .lt a (.arithmetic .div (checkedMin t) b)))
          (.abortIf (.compare .lt a (.arithmetic .div (checkedMax t) b)))))
      ¬(-2 ^ (t.width - 1) ≤ x * y ∧ x * y < 2 ^ (t.width - 1)) := by
  have hm := half_bounds t
  have hmin := minOperand (s := s) hs
  have hmax := maxOperand (s := s) hs
  apply Guards.ite (ha.compare_int (z := 0) (by decide) .gt)
  case h₁ =>
    intro hx
    have hx' : 0 < x := hx
    apply Guards.ite (hb.compare_int (z := 0) (by decide) .gt)
    case h₁ =>
      intro hy
      have hp := mul_pos hx hy
      apply (Guards.abortIf (ha.compare (hmax.divide hb hz.right (by omega) .slash) .gt)).congr
      have hl := tdiv_lt (z := x) (m := 2 ^ (t.width - 1) - 1) (by omega) hy
      simp only [CInteger.Relation.Holds, DivisionOperation.exact]
      omega
    case h₂ =>
      intro hy
      have hp : x * y < 0 := mul_neg_of_pos_of_neg hx (by simp only [CInteger.Relation.Holds] at hy; omega)
      apply (Guards.abortIf (hb.compare (hmin.divide ha hz.left (by omega) .slash) .lt)).congr
      have hl := lt_neg_tdiv (z := y) (m := 2 ^ (t.width - 1)) (by omega) hx
      rw [neg_mul, mul_comm y x] at hl
      simp only [CInteger.Relation.Holds, DivisionOperation.exact]
      omega
  case h₂ =>
    intro hx
    have hx' : x < 0 := by simp only [CInteger.Relation.Holds] at hx; omega
    apply Guards.ite (hb.compare_int (z := 0) (by decide) .gt)
    case h₁ =>
      intro hy
      have hy' : 0 < y := hy
      have hp := mul_neg_of_neg_of_pos hx' hy'
      apply (Guards.abortIf (ha.compare (hmin.divide hb hz.right (by omega) .slash) .lt)).congr
      have hl := lt_neg_tdiv (z := x) (m := 2 ^ (t.width - 1)) (by omega) hy
      rw [neg_mul] at hl
      simp only [CInteger.Relation.Holds, DivisionOperation.exact]
      omega
    case h₂ =>
      intro hy
      have hy' : y < 0 := by simp only [CInteger.Relation.Holds] at hy; omega
      have hp := mul_pos_of_neg_of_neg hx' hy'
      apply (Guards.abortIf (ha.compare (hmax.divide hb hz.right (by omega) .slash) .lt)).congr
      have hl := lt_tdiv_neg (z := x) (m := 2 ^ (t.width - 1) - 1) (by omega) hy'
      simp only [CInteger.Relation.Holds, DivisionOperation.exact]
      omega

theorem star_guards (hs : t.isSigned = true) (ha : Operand s (checkedLhs result) x)
    (hb : Operand s (checkedRhs result) y) : Guards s (signedCheck result t .star) ¬t.Contains (x * y) := by
  have hm := half_bounds t
  rw [contains_signed hs]
  have hz := (ha.compare_int (z := 0) (by decide) .ne).and fun _ => hb.compare_int (z := 0) (by decide) .ne
  have hover := ((ha.compare_int (z := -1) (by decide) .eq).and fun _ => hb.compare (minOperand hs) .eq).or fun _ =>
    (hb.compare_int (z := -1) (by decide) .eq).and fun _ => ha.compare (minOperand hs) .eq
  apply Guards.ite hz
  case h₂ =>
    intro h
    have hxy : x * y = 0 := by
      simp only [CInteger.Relation.Holds, not_and_or, not_not] at h
      exact mul_eq_zero.mpr h
    refine Guards.skip.congr ⟨False.elim, fun hn => hn ?_⟩
    rw [hxy]
    omega
  case h₁ =>
    intro h
    simp only [CInteger.Relation.Holds] at h
    have hg := (Guards.abortIf hover).seq fun _ => (star_quotient_guards hs ha hb h).seq fun _ => .skip
    apply hg.congr
    simp only [CInteger.Relation.Holds, or_false]
    refine ⟨fun hn => hn.elim (fun ho => ?_) id, .inr⟩
    -- The product is the negation of the minimum.
    have hxy : x * y = 2 ^ (t.width - 1) := by
      cases ho
      case inl ho => rw [ho.left, ho.right]; ring
      case inr ho => rw [ho.left, ho.right]; ring
    omega

theorem signedCheck_guards (hs : t.isSigned = true) (ha : Operand s (checkedLhs result) x)
    (hb : Operand s (checkedRhs result) y) (hcx : t.Contains x) (hcy : t.Contains y) (op : CheckedOperation) :
    Guards s (signedCheck result t op) ¬t.Contains (op.exact x y) := by
  cases op
  case plus  => exact plus_guards hs ha hb hcx hcy
  case minus => exact minus_guards hs ha hb hcx hcy
  case star  => exact star_guards hs ha hb

theorem operand_of_contains (hs : t.isSigned = true) (h : Has s a .int64 x) (hc : t.Contains x) : Operand s a x where
  has := h
  min := (int64_contains.mp (contains_int64 hs hc)).left
  max := (int64_contains.mp (contains_int64 hs hc)).right

theorem signedResult_has (hs : t.isSigned = true) (ha : Operand s a x) (hb : Operand s b y) (op : CheckedOperation)
    (hc : t.Contains (op.exact x y)) : Has s (.arithmetic (checkedOperator op) a b) .int64 (op.exact x y) := by
  have h64 := int64_contains.mp (contains_int64 hs hc)
  cases op
  case plus  => exact (ha.add hb h64).has
  case minus => exact (ha.sub hb h64).has
  case star  => exact (ha.mul hb h64).has

theorem signedDivision_guards (hs : t.isSigned = true) (ha : Operand s (checkedLhs result) x)
    (hb : Operand s (checkedRhs result) y) :
    Guards s (divisionCheck result t) (IntegerValue.DivisionFails t.info x y) := by
  have hd := (hb.compare_int (z := 0) (by decide) .eq).or fun _ =>
    (ha.compare (minOperand hs) .eq).and fun _ => hb.compare_int (z := -1) (by decide) .eq
  simp only [divisionCheck, hs, ite_true]
  apply (Guards.abortIf hd).congr
  have hi : t.info.isSigned = true := hs
  simp only [CInteger.Relation.Holds, IntegerValue.DivisionFails, hi, true_and]
  exact Iff.rfl

theorem signedDivision_has (ha : Operand s a x) (hb : Operand s b y) (hs : t.isSigned = true) (hcx : t.Contains x)
    (hd : ¬IntegerValue.DivisionFails t.info x y) (op : DivisionOperation) :
    Has s (.arithmetic (divisionOperator op) a b) .int64 (op.exact x y) := by
  have hm := half_bounds t
  have hi : t.info.isSigned = true := hs
  have hw : t.info.bitWidth = t.width := rfl
  simp only [IntegerValue.DivisionFails, hi, hw, true_and, not_or, not_and] at hd
  rw [contains_signed hs] at hcx
  exact (ha.divide hb hd.left (fun hx => hd.right (by omega)) op).has

end Signed

section Unsigned

variable {result : ValueId} {s : CInteger.Store Name} {a b : Expression} {t : IntegerType} {x y z : Int}

theorem contains_unsigned (hs : t.isSigned = false) : t.Contains z ↔ 0 ≤ z ∧ z < 2 ^ t.width := by
  rw [IntegerType.Contains, hs]
  exact Iff.rfl

theorem uint64_contains : CInteger.Ty.uint64.Contains z ↔ 0 ≤ z ∧ z < 2 ^ 64 :=
  Iff.rfl

theorem maximum_has (hs : t.isSigned = false) : Has s (checkedMax t) .uint64 (2 ^ t.width - 1) := by
  rw [checkedMax, if_neg (by simp [hs]), ← mask_toNat]
  exact uint64C_has _

theorem width_bounds (t : IntegerType) : 1 ≤ (2 : Int) ^ t.width ∧ (2 : Int) ^ t.width ≤ 2 ^ 64 :=
  ⟨one_le_pow₀ (by norm_num), pow_le_pow_right₀ (by norm_num) t.width_le⟩

theorem unsigned_arithmetic (ha : Has s a .uint64 x) (hb : Has s b .uint64 y) (hx : CInteger.Ty.uint64.Contains x)
    (hy : CInteger.Ty.uint64.Contains y) (op : CInteger.Arithmetic) (hz : op.apply .uint64 x y = some z) :
    Has s (.arithmetic op a b) .uint64 z :=
  ha.arithmetic hb (t := .uint64) rfl hx hy hz

theorem unsigned_compare (ha : Has s a .uint64 x) (hb : Has s b .uint64 y) (hx : CInteger.Ty.uint64.Contains x)
    (hy : CInteger.Ty.uint64.Contains y) (r : CInteger.Relation) : Decides s (.compare r a b) (r.Holds x y) :=
  Decides.compare ha hb hx hy r

theorem unsigned_compare_zero (ha : Has s a .uint64 x) (hx : CInteger.Ty.uint64.Contains x) (r : CInteger.Relation) :
    Decides s (.compare r a (intC 0)) (r.Holds x 0) :=
  Decides.compare ha (intC_has 0) hx (by decide) r

theorem unsigned_divide (hs : t.isSigned = false) (ha : Has s a .uint64 x) (hb : Has s b .uint64 y)
    (hcx : t.Contains x) (hcy : t.Contains y) (hy : y ≠ 0) (op : DivisionOperation) :
    Has s (.arithmetic (divisionOperator op) a b) .uint64 (op.exact x y) ∧ t.Contains (op.exact x y) := by
  have hd : ¬IntegerValue.DivisionFails t.info x y := by
    have hi : t.info.isSigned = false := hs
    simp [IntegerValue.DivisionFails, hi, hy]
  have hc (op : DivisionOperation) : t.Contains (op.exact x y) := IntegerValue.divide_inRange hcx hcy hd op
  have hq := CInteger.convert_of_contains (contains_uint64 hs (hc .slash))
  have hr := CInteger.convert_of_contains (contains_uint64 hs (hc .percent))
  refine ⟨unsigned_arithmetic ha hb (contains_uint64 hs hcx) (contains_uint64 hs hcy) _ ?_, hc op⟩
  cases op
  case slash   =>
    simp only [divisionOperator, CInteger.Arithmetic.apply, if_neg hy]
    exact hq
  case percent =>
    simp only [DivisionOperation.exact] at hq hr
    simp only [divisionOperator, CInteger.Arithmetic.apply, if_neg hy, hq, Option.bind_some]
    exact hr

theorem unsignedDivision_guards (hs : t.isSigned = false) (hb : Has s (checkedRhs result) .uint64 y)
    (hcy : t.Contains y) : Guards s (divisionCheck result t) (IntegerValue.DivisionFails t.info x y) := by
  have hi : t.info.isSigned = false := hs
  simp only [divisionCheck, hs, Bool.false_eq_true, ite_false]
  apply (Guards.abortIf (unsigned_compare_zero hb (contains_uint64 hs hcy) .eq)).congr
  simp [CInteger.Relation.Holds, IntegerValue.DivisionFails, hi]

-- A product is too large precisely if one of the factors exceeds the quotient of the maximum by the other.
theorem unsignedStar_guards (hs : t.isSigned = false) (ha : Has s (checkedLhs result) .uint64 x)
    (hb : Has s (checkedRhs result) .uint64 y) (hcx : t.Contains x) (hcy : t.Contains y) :
    Guards s (unsignedCheck result t .star) ¬t.Contains (x * y) := by
  have hm := width_bounds t
  have hmc : t.Contains (2 ^ t.width - 1) := (contains_unsigned hs).mpr (by omega)
  have hzero := unsigned_compare_zero hb (contains_uint64 hs hcy) .ne
  have hquot (hn : CInteger.Relation.ne.Holds y 0) : Decides s
      (.compare .gt (checkedLhs result) (.arithmetic .div (checkedMax t) (checkedRhs result)))
      ((2 ^ t.width - 1 : Int).tdiv y < x) := by
    have hq := unsigned_divide hs (maximum_has hs) hb hmc hcy hn .slash
    exact unsigned_compare ha hq.left (contains_uint64 hs hcx) (contains_uint64 hs hq.right) .gt
  apply (Guards.abortIf (hzero.and hquot)).congr
  rw [contains_unsigned hs] at hcx hcy ⊢
  by_cases hy : y = 0
  case pos => simp [hy, CInteger.Relation.Holds]
  case neg =>
    have hy' : 0 < y := by omega
    have hp := mul_nonneg hcx.left hcy.left
    rw [tdiv_lt (by omega) hy', CInteger.Relation.Holds]
    omega

theorem unsignedPlus_guards (hs : t.isSigned = false) (ha : Has s (checkedLhs result) .uint64 x)
    (hb : Has s (checkedRhs result) .uint64 y) (hcx : t.Contains x) (hcy : t.Contains y) :
    Guards s (unsignedCheck result t .plus) ¬t.Contains (x + y) := by
  have hm := width_bounds t
  have hmc : t.Contains (2 ^ t.width - 1) := (contains_unsigned hs).mpr (by omega)
  have hd : t.Contains (2 ^ t.width - 1 - y) := by
    rw [contains_unsigned hs] at hcy ⊢
    omega
  have hsub := unsigned_arithmetic (maximum_has hs) hb (contains_uint64 hs hmc) (contains_uint64 hs hcy) .sub
    (CInteger.convert_of_contains (contains_uint64 hs hd))
  apply (Guards.abortIf (unsigned_compare ha hsub (contains_uint64 hs hcx) (contains_uint64 hs hd) .gt)).congr
  rw [contains_unsigned hs] at hcx hcy ⊢
  simp only [CInteger.Relation.Holds]
  omega

theorem unsignedMinus_guards (hs : t.isSigned = false) (ha : Has s (checkedLhs result) .uint64 x)
    (hb : Has s (checkedRhs result) .uint64 y) (hcx : t.Contains x) (hcy : t.Contains y) :
    Guards s (unsignedCheck result t .minus) ¬t.Contains (x - y) := by
  apply (Guards.abortIf (unsigned_compare ha hb (contains_uint64 hs hcx) (contains_uint64 hs hcy) .lt)).congr
  rw [contains_unsigned hs] at hcx hcy ⊢
  simp only [CInteger.Relation.Holds]
  omega

theorem unsignedCheck_guards (hs : t.isSigned = false) (ha : Has s (checkedLhs result) .uint64 x)
    (hb : Has s (checkedRhs result) .uint64 y) (hcx : t.Contains x) (hcy : t.Contains y) (op : CheckedOperation) :
    Guards s (unsignedCheck result t op) ¬t.Contains (op.exact x y) := by
  cases op
  case plus  => exact unsignedPlus_guards hs ha hb hcx hcy
  case minus => exact unsignedMinus_guards hs ha hb hcx hcy
  case star  => exact unsignedStar_guards hs ha hb hcx hcy

theorem unsignedResult_has (hs : t.isSigned = false) (ha : Has s a .uint64 x) (hb : Has s b .uint64 y)
    (hcx : t.Contains x) (hcy : t.Contains y) (op : CheckedOperation) (hc : t.Contains (op.exact x y)) :
    Has s (.arithmetic (checkedOperator op) a b) .uint64 (op.exact x y) := by
  have hz := CInteger.convert_of_contains (contains_uint64 hs hc)
  apply unsigned_arithmetic ha hb (contains_uint64 hs hcx) (contains_uint64 hs hcy)
  cases op
  case plus  => exact hz
  case minus => exact hz
  case star  => exact hz

end Unsigned
section Emit

variable {result : ValueId} {s : CInteger.Store Name} {lhs rhs : Expression} {t : IntegerType} {x y : Int}

theorem checkedType_signed (hs : t.isSigned = true) : checkedType t = .int64 :=
  if_pos hs

theorem checkedType_unsigned (hs : t.isSigned = false) : checkedType t = .uint64 :=
  if_neg (by simp [hs])

theorem emitCheckedBinary_yields (hx : Reads result s lhs t x) (hy : Reads result s rhs t y) (hcx : t.Contains x)
    (hcy : t.Contains y) (op : CheckedOperation) :
    (emitCheckedBinary result t lhs rhs op).Yields result s t
      (if t.Contains (op.exact x y) then some (op.exact x y) else none) := by
  apply declareOperands_runs hx hy hcx hcy
  intro s' ha hl hr
  have hg : Guards s' (if t.isSigned then signedCheck result t op else unsignedCheck result t op)
      ¬t.Contains (op.exact x y) ∧ (t.Contains (op.exact x y) →
        Has s' (.arithmetic (checkedOperator op) (checkedLhs result) (checkedRhs result)) (checkedType t)
          (op.exact x y)) := by
    cases hs : t.isSigned
    case true =>
      rw [checkedType_signed hs] at hl hr ⊢
      have hl := operand_of_contains hs hl hcx
      have hr := operand_of_contains hs hr hcy
      exact ⟨signedCheck_guards hs hl hr hcx hcy op, signedResult_has hs hl hr op⟩
    case false =>
      rw [checkedType_unsigned hs] at hl hr ⊢
      exact ⟨unsignedCheck_guards hs hl hr hcx hcy op, unsignedResult_has hs hl hr hcx hcy op⟩
  apply checked_runs ha hg.left (fun h => if_neg h)
  intro h
  have hc := not_not.mp h
  exact ⟨_, if_pos hc, hg.right hc, hc⟩

theorem emitCheckedDivision_yields (hx : Reads result s lhs t x) (hy : Reads result s rhs t y) (hcx : t.Contains x)
    (hcy : t.Contains y) (op : DivisionOperation) :
    (emitCheckedDivision result t lhs rhs op).Yields result s t
      (if IntegerValue.DivisionFails t.info x y then none else some (op.exact x y)) := by
  apply declareOperands_runs hx hy hcx hcy
  intro s' ha hl hr
  have hg : Guards s' (divisionCheck result t) (IntegerValue.DivisionFails t.info x y) ∧
      (¬IntegerValue.DivisionFails t.info x y →
        Has s' (.arithmetic (divisionOperator op) (checkedLhs result) (checkedRhs result)) (checkedType t)
          (op.exact x y)) := by
    cases hs : t.isSigned
    case true =>
      rw [checkedType_signed hs] at hl hr ⊢
      have hl := operand_of_contains hs hl hcx
      have hr := operand_of_contains hs hr hcy
      exact ⟨signedDivision_guards hs hl hr, fun hd => signedDivision_has hl hr hs hcx hd op⟩
    case false =>
      rw [checkedType_unsigned hs] at hl hr ⊢
      exact ⟨unsignedDivision_guards hs hr hcy, fun hd =>
        (unsigned_divide hs hl hr hcx hcy (fun hz => hd (.inl hz)) op).left⟩
  apply checked_runs ha hg.left (fun h => if_pos h)
  intro h
  exact ⟨_, if_neg h, hg.right h, IntegerValue.divide_inRange hcx hcy h op⟩

theorem emitCheckedNeg_signed (hs : t.isSigned = true) (hx : Reads result s lhs t x) (hcx : t.Contains x) :
    (emitCheckedNeg result t lhs).Yields result s t (if t.Contains (-x) then some (-x) else none) := by
  have hm := half_bounds t
  have hl : Has (s.set ⟨.checkedLhs, result⟩ (checkedType t) x) (checkedLhs result) (checkedType t) x :=
    Has.var CInteger.Store.set_self
  have hmin : ¬t.Contains (-x) ↔ x = -2 ^ (t.width - 1) := by
    rw [contains_signed hs] at hcx ⊢
    omega
  apply declareOperand_runs hx .refl hcx
  rw [checkedType_signed hs] at hl ⊢
  have ho := operand_of_contains hs hl hcx
  rw [if_pos hs, if_pos hs]
  apply checked_runs Agrees.refl.set ((Guards.abortIf (ho.compare (minOperand hs) .eq)).congr hmin.symm)
    (fun h => if_neg h)
  intro h
  have hc := not_not.mp h
  refine ⟨_, if_pos hc, ?_, hc⟩
  rw [checkedType_signed hs]
  exact hl.neg (CInteger.convert_of_contains (t := .int64) (contains_int64 hs hc))

-- The negation of an unsigned number exists only if the number is zero.
theorem emitCheckedNeg_unsigned (hs : t.isSigned = false) (hx : Reads result s lhs t x) (hcx : t.Contains x) :
    (emitCheckedNeg result t lhs).Yields result s t (if x = 0 then some 0 else none) := by
  have hm := width_bounds t
  have hl : Has (s.set ⟨.checkedLhs, result⟩ (checkedType t) x) (checkedLhs result) (checkedType t) x :=
    Has.var CInteger.Store.set_self
  apply declareOperand_runs hx .refl hcx
  rw [checkedType_unsigned hs] at hl ⊢
  rw [if_neg (by simp [hs]), if_neg (by simp [hs])]
  apply checked_runs Agrees.refl.set (Guards.abortIf (unsigned_compare_zero hl (contains_uint64 hs hcx) .ne))
    (fun h => if_neg h)
  intro h
  refine ⟨0, if_pos (not_not.mp h), ?_, ?_⟩
  case refine_1 =>
    rw [checkedType_unsigned hs]
    exact uint64C_has 0#64
  case refine_2 =>
    rw [contains_unsigned hs]
    omega

end Emit
end Coglet.Backend.C.Integer
