import Coglet.Target.CLayout

open StructLayout

-- The computations do not wrap around.
namespace Coglet.Target.TypeGraph

variable {τ : Type} {target : TargetInfo} {value align result : BitVec 64}

theorem roundUp64_eq_some (h : roundUp64 value align = some result) :
    0 < align.toNat ∧ result.toNat = roundUp value.toNat align.toNat := by
  have hmax : UINT64_MAX.toNat = 2 ^ 64 - 1 := rfl
  simp only [roundUp64, Option.ite_none_left_eq_some, not_or, BitVec.not_lt, BitVec.le_def, Option.some_inj] at h
  obtain ⟨⟨hne, hle⟩, rfl⟩ := h
  have hpos : 0 < align.toNat := Nat.pos_of_ne_zero fun hz => hne (BitVec.eq_of_toNat_eq hz)
  have h1 : (1#64).toNat = 1 := rfl
  have hsub : (align - 1#64).toNat = align.toNat - 1 := by
    rw [BitVec.toNat_sub_of_le (BitVec.le_def.mpr (h1 ▸ hpos)), h1]
  rw [BitVec.toNat_sub_of_le (BitVec.le_def.mpr (by rw [hmax]; omega)), hmax, hsub] at hle
  -- The sum may wrap around to zero before the subtraction.
  have hadd : (value + align - 1#64).toNat = value.toNat + align.toNat - 1 := by
    rw [BitVec.toNat_sub, BitVec.toNat_add, h1]
    omega
  refine ⟨hpos, ?_⟩
  have hmul : (value.toNat + align.toNat - 1) / align.toNat * align.toNat < 2 ^ 64 :=
    Nat.lt_of_le_of_lt (Nat.div_mul_le_self _ _) (by omega)
  rw [BitVec.toNat_mul, BitVec.toNat_udiv, hadd, Nat.mod_eq_of_lt hmul]
  rfl

theorem add_of_not_lt {offset size : BitVec 64} (h : ¬UINT64_MAX - size < offset) :
    (offset + size).toNat = offset.toNat + size.toNat := by
  have hmax : UINT64_MAX.toNat = 2 ^ 64 - 1 := rfl
  rw [BitVec.not_lt, BitVec.le_def, BitVec.toNat_sub_of_le (BitVec.le_def.mpr (by rw [hmax]; omega)), hmax] at h
  rw [BitVec.toNat_add]
  omega

theorem mul_of_not_lt {size count : BitVec 64} (h : ¬(count ≠ 0#64 ∧ UINT64_MAX / count < size)) :
    (size * count).toNat = size.toNat * count.toNat := by
  have hmax : UINT64_MAX.toNat = 2 ^ 64 - 1 := rfl
  by_cases hz : count = 0#64
  case pos => simp [hz]
  case neg =>
    have hpos : 0 < count.toNat := Nat.pos_of_ne_zero fun hc => hz (BitVec.eq_of_toNat_eq hc)
    rw [not_and, BitVec.not_lt, BitVec.le_def, BitVec.toNat_udiv, hmax] at h
    have hle := (Nat.le_div_iff_mul_le hpos).mp (h hz)
    rw [BitVec.toNat_mul, Nat.mod_eq_of_lt (by omega)]

theorem ite_lt_eq_max {x y : BitVec 64} : (if x < y then y else x).toNat = max x.toNat y.toNat := by
  split
  case isTrue h => exact (Nat.max_eq_right (Nat.le_of_lt h)).symm
  case isFalse h => exact (Nat.max_eq_left (Nat.le_of_not_lt h)).symm

theorem toNat_signExtend {x : BitVec 32} (h : 0 ≤ x.toInt) : (x.signExtend 64).toNat = x.toNat := by
  have hm : x.msb = false := by
    rw [BitVec.msb_eq_toInt]
    exact decide_eq_false (Int.not_lt.mpr h)
  rw [BitVec.signExtend_eq_setWidth_of_msb_false hm, BitVec.toNat_setWidth, Nat.mod_eq_of_lt]
  exact x.isLt.trans (by decide)

theorem finishStruct_eq_ok {header : RecordHeader} {size maxAlign : BitVec 64} {l : TargetLayout}
    (h : finishStruct header size maxAlign = .ok l) :
    l.align.toNat = max (if header.isPacked then 1 else maxAlign.toNat) header.align.toNat ∧ 0 < l.align.toNat ∧
    l.size.toNat = roundUp size.toNat l.align.toNat := by
  rw [finishStruct] at h
  have hm : (if header.isPacked then 1#64 else maxAlign).toNat = if header.isPacked then 1 else maxAlign.toNat := by
    split <;> rfl
  rw [← hm]
  generalize (if header.isPacked then 1#64 else maxAlign) = m at h ⊢
  have ha : (if 0 < header.align.toInt ∧ m < header.align.signExtend 64 then header.align.signExtend 64 else m).toNat =
      max m.toNat header.align.toNat := by
    rcases header.alignPower with hz | ⟨hpos, -⟩
    case inl => simp [hz]
    case inr =>
      simp only [hpos, true_and, ite_lt_eq_max, toNat_signExtend (Int.le_of_lt hpos)]
  generalize (if 0 < header.align.toInt ∧ m < header.align.signExtend 64 then header.align.signExtend 64 else m) = a at h ha
  split at h
  case h_1 => cases h
  case h_2 size' hs =>
    cases h
    obtain ⟨hpos, hr⟩ := roundUp64_eq_some hs
    exact ⟨ha, hpos, hr⟩

section Fields

variable {layout : Option τ → Except String TargetLayout} {isPacked : Bool} {size align size' align' : BitVec 64}
  {fields : List (Option τ)}

-- The fields with their layouts.
structure FieldsLaid (layout : Option τ → Except String TargetLayout) (fields : List (Option τ)) (types : List τ)
    (ls : List Layout) : Prop where
  fields : fields = types.map some
  length : types.length = ls.length
  laid   : ∀ field ∈ types.zip ls, ∃ l, layout (some field.1) = .ok l ∧ field.2 = l.toLayout

theorem FieldsLaid.nil : FieldsLaid layout [] [] [] :=
  ⟨rfl, rfl, fun _ hm => nomatch hm⟩

theorem FieldsLaid.cons {type : τ} {l : TargetLayout} {types : List τ} {ls : List Layout} (hl : layout (some type) = .ok l)
    (h : FieldsLaid layout fields types ls) : FieldsLaid layout (some type :: fields) (type :: types) (l.toLayout :: ls) where
  fields := congrArg _ h.fields
  length := congrArg Nat.succ h.length
  laid   := List.forall_mem_cons.mpr ⟨⟨l, hl, rfl⟩, h.laid⟩

theorem layoutUnionFields_eq_ok (hn : ∀ l, layout none ≠ .ok l)
    (h : layoutUnionFields layout size align fields = .ok (size', align')) : ∃ types ls, FieldsLaid layout fields types ls ∧
      size'.toNat = maxSize size.toNat ls ∧ align'.toNat = maxAlign false align.toNat ls := by
  induction fields generalizing size align
  case nil =>
    cases h
    exact ⟨[], [], .nil, rfl, rfl⟩
  case cons type fields ih =>
    rw [layoutUnionFields] at h
    obtain ⟨l, hl, hr⟩ := TargetInfo.bind_eq_ok h
    cases type
    case none => exact absurd hl (hn l)
    case some type =>
      obtain ⟨types, ls, hls, hs, ha⟩ := ih hr
      refine ⟨type :: types, l.toLayout :: ls, hls.cons hl, ?_, ?_⟩
      · rw [hs, ite_lt_eq_max]
        rfl
      · rw [ha, ite_lt_eq_max]
        rfl

theorem layoutStructFields_eq_ok (hn : ∀ l, layout none ≠ .ok l)
    (h : layoutStructFields layout isPacked size align fields = .ok (size', align')) :
    ∃ types ls offsets, FieldsLaid layout fields types ls ∧ Placement isPacked size.toNat ls offsets size'.toNat ∧
      align'.toNat = maxAlign isPacked align.toNat ls := by
  induction fields generalizing size align
  case nil =>
    cases h
    exact ⟨[], [], [], .nil, .nil, rfl⟩
  case cons type fields ih =>
    rw [layoutStructFields] at h
    obtain ⟨l, hl, hr⟩ := TargetInfo.bind_eq_ok h
    cases type
    case none => exact absurd hl (hn l)
    case some type =>
      have hfield : (if isPacked then 1#64 else l.align).toNat = fieldAlign isPacked l.toLayout := by
        rw [fieldAlign]
        split <;> rfl
      simp only at hr
      generalize (if isPacked then 1#64 else l.align) = a at hr hfield
      split at hr
      case h_1 => cases hr
      case h_2 offset ho =>
        split at hr
        case isTrue => cases hr
        case isFalse hlt =>
          obtain ⟨hpos, hround⟩ := roundUp64_eq_some ho
          obtain ⟨types, ls, offsets, hls, hp, ha⟩ := ih hr
          rw [add_of_not_lt hlt] at hp
          rw [ite_lt_eq_max, hfield] at ha
          refine ⟨type :: types, l.toLayout :: ls, offset.toNat :: offsets, hls.cons hl, .cons ?_ hp, ha⟩
          rw [hround, ← hfield]
          exact roundUp_isLeast hpos

end Fields

end Coglet.Target.TypeGraph
