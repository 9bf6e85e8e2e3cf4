import Coglet.Target.LayoutArithmetic

open StructLayout

namespace Coglet.Target

-- The fields of a target description are values of `unsigned`.
structure TargetInfo.Unsigned (target : TargetInfo) : Prop where
  pointerBits  : target.pointerBits < 2 ^ 32
  pointerAlign : target.pointerAlignBytes < 2 ^ 32
  scalarAlign  : ∀ bits ∈ [8, 16, 32, 64], target.scalarAlign bits < 2 ^ 32

structure TargetInfo.PowersOfTwo (target : TargetInfo) : Prop where
  pointer : target.pointerAlignBytes.isPowerOfTwo
  scalar  : ∀ bits ∈ [8, 16, 32, 64], (target.scalarAlign bits).isPowerOfTwo

namespace TypeGraph

variable {τ : Type} [DecidableEq τ] {target : TargetInfo} {graph : TypeGraph τ} {room : Nat} {stack : List τ} {type : τ}
  {l : TargetLayout}

section Sound

theorem ScalarKind.bits_mem (kind : ScalarKind) : kind.bits ∈ [8, 16, 32, 64] := by
  cases kind <;> decide

theorem toNat_small {n : Nat} (h : n < 2 ^ 32) : (BitVec.ofNat 64 n).toNat = n := by
  rw [BitVec.toNat_ofNat, Nat.mod_eq_of_lt (h.trans (by decide))]

theorem scalarLayout_eq (hu : target.Unsigned) (kind : ScalarKind) :
    (scalarLayout target kind).toLayout = ⟨kind.bits / 8, target.scalarAlign kind.bits⟩ := by
  have hb : kind.bits / 8 < 2 ^ 32 := by cases kind <;> decide
  rw [scalarLayout, TargetLayout.toLayout, toNat_small hb, toNat_small (hu.scalarAlign _ (ScalarKind.bits_mem kind))]

theorem pointerLayout_eq (hu : target.Unsigned) : (pointerLayout target).toLayout = target.pointerLayout := by
  have hb : target.pointerBits / 8 < 2 ^ 32 := Nat.lt_of_le_of_lt (Nat.div_le_self _ _) hu.pointerBits
  rw [pointerLayout, TargetLayout.toLayout, toNat_small hb, toNat_small hu.pointerAlign]
  rfl

omit [DecidableEq τ] in
theorem scalarAlign_eq_zero {bits : Nat} (h : bits ∉ [8, 16, 32, 64]) : target.scalarAlign bits = 0 := by
  simp only [List.mem_cons, List.not_mem_nil, or_false, not_or] at h
  rw [TargetInfo.scalarAlign, if_neg h.1, if_neg h.2.1, if_neg h.2.2.1, if_neg h.2.2.2]

theorem scalarAlign_lt (hu : target.Unsigned) (bits : Nat) : target.scalarAlign bits < 2 ^ 32 := by
  by_cases h : bits ∈ [8, 16, 32, 64]
  case pos => exact hu.scalarAlign bits h
  case neg =>
    rw [scalarAlign_eq_zero h]
    decide

theorem sliceLayout_laid (hu : target.Unsigned) (hs : graph type = .slice) (h : sliceLayout target = .ok l) :
    Laid target graph type l.toLayout := by
  have hb : (BitVec.ofNat 64 (target.pointerBits / 8)).toNat = target.pointerBits / 8 :=
    toNat_small (Nat.lt_of_le_of_lt (Nat.div_le_self _ _) hu.pointerBits)
  have ha := toNat_small (scalarAlign_lt hu target.pointerBits)
  have hp := toNat_small hu.pointerAlign
  simp only [sliceLayout, pointerLayout] at h
  split at h
  case h_1 => cases h
  case h_2 offset ho =>
    split at h
    case isTrue => cases h
    case isFalse hlt =>
      split at h
      case h_1 => cases h
      case h_2 size hz =>
        cases h
        obtain ⟨hpos, hround⟩ := roundUp64_eq_some ho
        obtain ⟨hpos', hround'⟩ := roundUp64_eq_some hz
        rw [hb, ha] at hround
        rw [ha] at hpos
        rw [add_of_not_lt hlt, hb] at hround'
        have hfirst : IsLeast {x | 0 ≤ x ∧ fieldAlign false target.pointerLayout ∣ x} 0 :=
          ⟨⟨Nat.le_refl 0, Nat.dvd_zero _⟩, fun _ _ => Nat.zero_le _⟩
        have hsecond : IsLeast {x | 0 + target.pointerLayout.size ≤ x ∧ target.scalarAlign target.pointerBits ∣ x} offset.toNat := by
          rw [hround, Nat.zero_add]
          exact roundUp_isLeast hpos
        refine .slice hs rfl (.cons hfirst (.cons hsecond .nil)) ?_ ?_
        case refine_1 =>
          have hm := @ite_lt_eq_max (BitVec.ofNat 64 (target.scalarAlign target.pointerBits)) (BitVec.ofNat 64 target.pointerAlignBytes)
          rw [ha, hp, Nat.max_comm] at hm
          exact hm
        case refine_2 =>
          rw [hround']
          exact roundUp_isLeast hpos'

omit [DecidableEq τ] in
theorem FieldsLaid.fields_laid {layout : Option τ → Except String TargetLayout} {fields : List (Option τ)} {types : List τ}
    {ls : List Layout} (h : FieldsLaid layout fields types ls)
    (hl : ∀ field l, layout (some field) = .ok l → Laid target graph field l.toLayout) :
    ∀ field ∈ types.zip ls, Laid target graph field.1 field.2 := by
  intro field hm
  obtain ⟨l, hok, he⟩ := h.laid field hm
  exact he ▸ hl field.1 l hok

-- A packed struct ignores the alignments of its fields.
theorem ite_isPacked {isPacked : Bool} {align : Nat} {ls : List Layout} (h : isPacked = false → align = maxAlign false 1 ls) :
    (if isPacked then 1 else align) = maxAlign isPacked 1 ls := by
  cases isPacked
  case false => exact h rfl
  case true => exact maxAlign_packed.symm

theorem layoutImpl_laid (hu : target.Unsigned) (h : layoutImpl target graph room stack (some type) = .ok l) :
    Laid target graph type l.toLayout := by
  induction room generalizing stack type l
  case zero => cases h
  case succ room ih =>
    have hnone (l : TargetLayout) : layoutImpl target graph room (type :: stack) none ≠ .ok l := by
      cases room <;> exact fun he => nomatch he
    rw [layoutImpl] at h
    split at h
    case isTrue => cases h
    case isFalse =>
      split at h
      case h_1 kind hg =>
        cases h
        rw [scalarLayout_eq hu]
        exact .scalar (.inl hg)
      case h_2 hg =>
        cases h
        rw [pointerLayout_eq hu]
        exact .pointer (.inl hg)
      case h_3 hg =>
        cases h
        rw [pointerLayout_eq hu]
        exact .pointer (.inr (.inl hg))
      case h_4 abi hg =>
        split at h
        case isTrue => cases h
        case isFalse ha =>
          cases h
          rw [pointerLayout_eq hu]
          exact .pointer (.inr (.inr (hg.trans (by rw [Decidable.not_not.mp ha]))))
      case h_5 element size hg =>
        split at h
        case isTrue => cases h
        case isFalse hs =>
          obtain ⟨l', hl, hr⟩ := TargetInfo.bind_eq_ok h
          cases element
          case none => exact absurd hl (hnone l')
          case some element =>
            simp only at hr
            split at hr
            case isTrue => cases hr
            case isFalse hlt =>
              cases hr
              have hsize : 0 ≤ size.toInt := Int.not_lt.mp hs
              have he : (l'.size * size.signExtend 64).toNat = size.toNat * l'.size.toNat := by
                rw [mul_of_not_lt hlt, toNat_signExtend hsize, Nat.mul_comm]
              rw [TargetLayout.toLayout, he]
              exact .array hg hsize (ih hl)
      case h_6 hg => exact sliceLayout_laid hu hg h
      case h_7 => cases h
      case h_8 kind hg =>
        cases h
        rw [scalarLayout_eq hu]
        exact .scalar (.inr hg)
      case h_9 header fields hg =>
        split at h
        case isTrue => cases h
        case isFalse hi =>
          have hcomplete := Bool.eq_false_of_not_eq_true hi
          split at h
          case isTrue hunion =>
            obtain ⟨⟨size, maxAlign⟩, hf, hr⟩ := TargetInfo.bind_eq_ok h
            obtain ⟨types, ls, hls, hs, ha⟩ := layoutUnionFields_eq_ok hnone hf
            obtain ⟨halign, hpos, hsize⟩ := finishStruct_eq_ok hr
            rw [ite_isPacked fun _ => ha] at halign
            refine .union (hls.fields ▸ hg) hcomplete hunion hls.length (hls.fields_laid fun _ _ => ih) halign ?_
            rw [hsize, hs]
            exact roundUp_isLeast hpos
          case isFalse hstruct =>
            obtain ⟨⟨size, maxAlign⟩, hf, hr⟩ := TargetInfo.bind_eq_ok h
            obtain ⟨types, ls, offsets, hls, hp, ha⟩ := layoutStructFields_eq_ok hnone hf
            obtain ⟨halign, hpos, hsize⟩ := finishStruct_eq_ok hr
            rw [ite_isPacked fun hpacked => hpacked ▸ ha] at halign
            refine .struct (hls.fields ▸ hg) hcomplete (Bool.eq_false_of_not_eq_true hstruct) hls.length
              (hls.fields_laid fun _ _ => ih) hp halign ?_
            rw [hsize]
            exact roundUp_isLeast hpos
      case h_10 => cases h

-- The alignments are powers of two, and the objects of aggregate types can follow each other.
theorem Laid.power (hp : target.PowersOfTwo) (hb : 0 < target.pointerBits / 8) {layout : Layout}
    (h : Laid target graph type layout) : layout.align.isPowerOfTwo := by
  have hmax {ls : List Layout} {header : RecordHeader} (hls : ∀ l ∈ ls, l.align.isPowerOfTwo) :
      (max (maxAlign header.isPacked 1 ls) header.align.toNat).isPowerOfTwo := by
    have hm := @maxAlign_isPowerOfTwo header.isPacked ls 1 Nat.isPowerOfTwo_one hls
    rcases header.alignPower with hz | ⟨-, ha⟩
    · rw [hz, BitVec.toNat_zero, Nat.max_zero]
      exact hm
    · exact max_isPowerOfTwo hm ha
  have hzip {types : List τ} {ls : List Layout} (hl : types.length = ls.length)
      (ih : ∀ field ∈ types.zip ls, field.2.align.isPowerOfTwo) : ∀ l ∈ ls, l.align.isPowerOfTwo := by
    intro l hm
    rw [← List.map_snd_zip (Nat.le_of_eq hl.symm), List.mem_map] at hm
    obtain ⟨field, hm, rfl⟩ := hm
    exact ih field hm
  induction h
  case scalar kind _ => exact hp.scalar _ (ScalarKind.bits_mem kind)
  case pointer => exact hp.pointer
  case slice hl hplace ha _ =>
    cases hl
    cases hplace
    case cons hrest =>
      cases hrest
      case cons hsecond _ =>
        rw [ha]
        refine max_isPowerOfTwo hp.pointer (hp.scalar _ ?_)
        by_contra hbits
        obtain ⟨hle, hd⟩ := hsecond.1
        rw [fieldAlign, if_neg Bool.false_ne_true, scalarAlign_eq_zero hbits] at hd
        have hsize : target.pointerLayout.size = target.pointerBits / 8 := rfl
        rw [Nat.eq_zero_of_zero_dvd hd] at hle
        omega
  case array ih => exact ih
  case struct hl _ _ ha _ ih => exact ha ▸ hmax (hzip hl ih)
  case union hl _ ha _ ih => exact ha ▸ hmax (hzip hl ih)

-- The types whose objects are made of other objects or words.
def isAggregate : TypeNode τ → Bool
  | .slice | .struct .. => true
  | _ => false

theorem Laid.dvd {layout : Layout} (h : Laid target graph type layout) (ha : isAggregate (graph type)) :
    layout.align ∣ layout.size := by
  induction h
  case slice hs => exact hs.1.2
  case struct hs _ => exact hs.1.2
  case union hs _ => exact hs.1.2
  case scalar hg => rcases hg with hg | hg <;> simp [hg, isAggregate] at ha
  case pointer hg => rcases hg with hg | hg | hg <;> simp [hg, isAggregate] at ha
  case array hg _ _ _ => simp [hg, isAggregate] at ha

-- The fields of a struct lie behind each other.
def FieldsPlaced (target : TargetInfo) (graph : TypeGraph τ) (isPacked : Bool) (fields : List (Option τ)) (size : Nat) : Prop :=
  ∃ (types : List τ) (ls : List Layout) (offsets : List Nat) (last : Nat),
    fields = types.map some ∧ types.length = ls.length ∧ (∀ field ∈ types.zip ls, Laid target graph field.1 field.2) ∧
    Placement isPacked 0 ls offsets last ∧ (offsets.zip ls).Pairwise (fun f g => f.1 + f.2.size ≤ g.1) ∧ last ≤ size

theorem Laid.fieldsPlaced {layout : Layout} (h : Laid target graph type layout) {header : RecordHeader}
    {fields : List (Option τ)} (hg : graph type = .struct header fields) (hs : header.isUnion = false) :
    FieldsPlaced target graph header.isPacked fields layout.size := by
  induction h
  case struct hg' _ _ hl hf hp _ hsize _ =>
    cases hg.symm.trans hg'
    exact ⟨_, _, _, _, rfl, hl, hf, hp, hp.pairwise, hsize.1.1⟩
  case union hg' _ hu _ _ _ _ _ =>
    cases hg.symm.trans hg'
    cases hs.symm.trans hu
  all_goals simp_all

end Sound

end TypeGraph

end Coglet.Target
