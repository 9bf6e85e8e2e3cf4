import Coglet.Backend.Coercion

open StructLayout RegisterPassing
open Coglet.Ir (AggregateHeader)
open Coglet.Target (AbiShape ObjectField TargetInfo CScalarKind)

-- The aggregates whose fields are stored as what they have been resolved to.

namespace Coglet.Backend.Llvm

-- The alignments of the x86-64 data layouts
structure DataLayout.X86_64 (dl : DataLayout) : Prop where
  pointer : 0 < dl.pointerAlign
  integer : ∀ bits, 0 < dl.integerAlign bits
  float   : dl.floatAlign = 4
  double  : dl.doubleAlign = 8

-- A spelling that does not change how the type is stored. The name `c_bool` is the builtin type.
def IsPlainSpelling : AbiShape → Prop
  | .semantic => True
  | .cScalar kind => kind ≠ .bool
  | _ => False

def IsPointerSpelling : AbiShape → Prop
  | .pointer | .opaquePointer | .function => True
  | _ => False

mutual

-- What the checker accepts in a `#repr(c)` aggregate, if it declares no type of the name `c_bool`.
def WellSpelled (abi : AbiShape) : Ir.ObjectType → Prop
  | .array element _ => match abi with
    | .array elementAbi => WellSpelled elementAbi element
    | _ => False
  | .aggregate header fields => IsPlainSpelling abi ∧ header.isReprC ∧ AreWellSpelled fields
  | .enum backing isReprC backingAbi => IsPlainSpelling abi ∧
      (isReprC → (∃ bits isSigned, backing = .integer bits isSigned) ∧ IsPlainSpelling backingAbi)
  | .bool => IsPlainSpelling abi ∨ abi = .cScalar .bool
  | _ => IsPlainSpelling abi ∨ IsPointerSpelling abi

def IsWellSpelled : ObjectField Ir.ObjectType → Prop
  | ⟨type, abi⟩ => WellSpelled abi type

def AreWellSpelled : List (ObjectField Ir.ObjectType) → Prop
  | [] => True
  | field :: fields => IsWellSpelled field ∧ AreWellSpelled fields

end

theorem areWellSpelled_iff {fields : List (ObjectField Ir.ObjectType)} :
    AreWellSpelled fields ↔ ∀ f ∈ fields, WellSpelled f.abi f.type := by
  induction fields
  case nil => simp [AreWellSpelled]
  case cons field fields ih =>
    cases field
    rw [AreWellSpelled, IsWellSpelled, ih, List.forall_mem_cons]

section Objects

variable {dl : DataLayout} {target : TargetInfo} {header : AggregateHeader}
  {fields all : List (ObjectField Ir.ObjectType)}

theorem findsInFields_iff {base index : Nat} {finding : Finding} :
    FindsInFields dl target header all base index fields finding ↔ ∃ (i : Nat) (field : ObjectField Ir.ObjectType),
      fields[i]? = some field ∧
        ((isMisaligned (objectLayout dl target field.abi field.type).align
            (base + memberOffset dl target header all (index + i)) ∧ finding = .unaligned) ∨
          Finds dl target field.abi field.type (base + memberOffset dl target header all (index + i)) finding) := by
  induction fields generalizing index
  case nil => simp [FindsInFields]
  case cons field fields ih =>
    cases field with
    | mk type abi =>
      rw [FindsInFields, FindsInField, ih]
      constructor
      case mp =>
        rintro (h | ⟨i, f, hf, h⟩)
        · exact ⟨0, _, rfl, h⟩
        · exact ⟨i + 1, f, hf, by rwa [Nat.add_assoc, Nat.add_comm 1] at h⟩
      case mpr =>
        rintro ⟨i, f, hf, h⟩
        cases i
        case zero =>
          cases hf
          exact .inl h
        case succ i => exact .inr ⟨i, f, hf, by rwa [Nat.add_assoc, Nat.add_comm 1]⟩

theorem lowerCObjectType_integer {abi : AbiShape} {bits : Nat} {isSigned : Bool} (ha : IsPlainSpelling abi) :
    lowerCObjectType dl target abi (.integer bits isSigned) = some (.int bits) := by
  cases abi
  case semantic => simp [lowerCObjectType, lowerType]
  case cScalar kind =>
    rw [lowerCObjectType, lowerType]
    exact fun h => ha (by cases h; rfl)
  all_goals exact ha.elim

theorem lowerCObjectType_enum {abi backingAbi : AbiShape} {bits : Nat} {isSigned : Bool} (ha : IsPlainSpelling abi)
    (hb : IsPlainSpelling backingAbi) :
    lowerCObjectType dl target abi (.enum (.integer bits isSigned) true backingAbi) = some (.int bits) := by
  cases abi
  case semantic =>
    rw [lowerCObjectType]
    exact lowerCObjectType_integer hb
  case cScalar kind =>
    rw [lowerCObjectType, lowerType, lowerType]
    exact fun h => ha (by cases h; rfl)
  all_goals exact ha.elim

theorem finds_enum {abi backingAbi : AbiShape} {backing : Ir.ObjectType} {isReprC : Bool} {base : Nat}
    {finding : Finding} (hw : WellSpelled abi (.enum backing isReprC backingAbi)) :
    Finds dl target abi (.enum backing isReprC backingAbi) base finding ↔
      finding = .scalar base (objectLayout dl target abi (.enum backing isReprC backingAbi)).size .integer := by
  have hplain := hw.1
  have heq : Finds dl target abi (.enum backing isReprC backingAbi) base finding ↔
      if isReprC then Finds dl target backingAbi backing base finding
      else finding = .scalar base (objectLayout dl target abi (.enum backing isReprC backingAbi)).size .integer := by
    cases abi
    case semantic => rfl
    case cScalar => rfl
    all_goals exact hplain.elim
  rw [heq]
  split
  case isFalse => rfl
  case isTrue hr =>
    subst hr
    obtain ⟨⟨bits, isSigned, rfl⟩, hb⟩ := hw.2 rfl
    have hl : objectLayout dl target abi (.enum (.integer bits isSigned) true backingAbi) =
        objectLayout dl target backingAbi (.integer bits isSigned) := by
      rw [objectLayout, objectLayout, lowerCObjectType_enum hplain hb, lowerCObjectType_integer hb]
    rw [hl]
    cases backingAbi
    case semantic => rfl
    case cScalar => rfl
    all_goals exact hb.elim

-- The fields of an aggregate that is spelled plainly
theorem finds_aggregate {abi : AbiShape} {base : Nat} {finding : Finding}
    (hw : WellSpelled abi (.aggregate header fields)) :
    Finds dl target abi (.aggregate header fields) base finding ↔
      ((valueLayout dl target (.aggregate header fields)).size > 16 ∧ finding = .large) ∨
        FindsInFields dl target header fields base 0 fields finding := by
  have hplain := hw.1
  cases abi
  case semantic => rfl
  case cScalar => rfl
  all_goals exact hplain.elim

theorem fieldByte_aggregate {abi : AbiShape} {base k : Nat} (hw : WellSpelled abi (.aggregate header fields)) :
    FieldByte dl target abi (.aggregate header fields) base k ↔
      FieldByteOfFields dl target header fields base 0 fields k := by
  have hplain := hw.1
  cases abi
  case semantic => rw [FieldByte, if_pos ⟨by simp, hw.2.1⟩]
  case cScalar kind =>
    rw [FieldByte, if_pos ⟨fun h => hplain (by cases h; rfl), hw.2.1⟩]
  all_goals exact hplain.elim

-- A byte of a field is a byte of a scalar that is found.
theorem exists_scalar_of_fieldByte {abi : AbiShape} {runtime : Ir.ObjectType} {base k : Nat}
    (hw : WellSpelled abi runtime) (h : FieldByte dl target abi runtime base k) :
    ∃ offset size cls, Finds dl target abi runtime base (.scalar offset size cls) ∧ offset ≤ k ∧ k < offset + size := by
  induction runtime using Ir.ObjectType.induct generalizing abi base
  case leaf t ht =>
    cases t <;> cases ht <;> cases abi <;> first | exact ⟨_, _, _, rfl, h.1, h.2⟩ | (simp [WellSpelled, IsPlainSpelling, IsPointerSpelling] at hw)
  case array element length ih =>
    cases abi
    case array elementAbi =>
      obtain ⟨i, hi, h⟩ := h
      obtain ⟨offset, size, cls, hf, hk⟩ := ih hw h
      exact ⟨offset, size, cls, ⟨i, hi, .inr hf⟩, hk⟩
    all_goals exact hw.elim
  case enum => exact ⟨_, _, _, (finds_enum hw).mpr rfl, h.1, h.2⟩
  case aggregate header fields ih =>
    obtain ⟨i, field, hi, h⟩ := fieldByteOfFields_iff.mp ((fieldByte_aggregate hw).mp h)
    have hm := List.mem_of_getElem? hi
    obtain ⟨offset, size, cls, hf, hk⟩ := ih field hm (areWellSpelled_iff.mp hw.2.2 field hm) h
    exact ⟨offset, size, cls, (finds_aggregate hw).mpr (.inr (findsInFields_iff.mpr ⟨i, field, hi, .inr hf⟩)), hk⟩

end Objects

section Bounds

variable {dl : DataLayout} {target : TargetInfo} {header : AggregateHeader}
  {fields : List (ObjectField Ir.ObjectType)} (hdl : dl.X86_64)
include hdl

omit hdl in
theorem struct_align_pos {isPacked : Bool} {types : List LlvmType} : 0 < (dl.layout (.struct isPacked types)).align := by
  rw [DataLayout.layout]
  exact le_maxAlign

-- The alignments of what is lowered are positive.
theorem lowerType_align_pos {runtime : Ir.ObjectType} {type : LlvmType} (h : lowerType dl target runtime = some type) :
    0 < (dl.layout type).align := by
  induction runtime using Ir.ObjectType.induct generalizing type
  case leaf t ht =>
    cases t <;> cases ht <;> rw [lowerType] at h
    case float bits =>
      split at h
      case isTrue =>
        cases h
        simp [DataLayout.layout, Layout.padded, hdl.float]
      case isFalse =>
        split at h <;> cases h
        simp [DataLayout.layout, Layout.padded, hdl.double]
    all_goals
      cases h
      first
      | exact hdl.integer _
      | exact hdl.pointer
      | exact Nat.one_pos
  case array element length ih =>
    rw [lowerType] at h
    obtain ⟨e, he, rfl⟩ := Option.map_eq_some_iff.mp h
    have := ih he
    exact this
  case enum backing _ _ ih =>
    rw [lowerType] at h
    exact ih h
  case aggregate =>
    obtain ⟨_, _, rfl⟩ := lowerType_aggregate h
    exact struct_align_pos

theorem cBoolStorageType_align_pos {type : LlvmType} (h : cBoolStorageType target = some type) :
    0 < (dl.layout type).align := by
  unfold cBoolStorageType at h
  split at h
  case isTrue => cases h
  case isFalse =>
    cases h
    exact hdl.integer _

theorem lowerCObjectType_align_pos {abi : AbiShape} {runtime : Ir.ObjectType} {type : LlvmType}
    (h : lowerCObjectType dl target abi runtime = some type) : 0 < (dl.layout type).align := by
  rw [lowerCObjectType.eq_def] at h
  split at h
  case h_4 => exact lowerCObjectType_align_pos h
  case h_9 =>
    obtain ⟨e, he, rfl⟩ := Option.map_eq_some_iff.mp h
    have := lowerCObjectType_align_pos he
    exact this
  case h_10 => cases h
  all_goals first
    | exact cBoolStorageType_align_pos hdl h
    | exact lowerType_align_pos hdl h
    | (cases h; exact hdl.pointer)
termination_by sizeOf runtime

omit hdl in
theorem size_le_struct {isPacked : Bool} {types : List LlvmType} :
    extent isPacked 0 (dl.layouts types) ≤ (dl.layout (.struct isPacked types)).size := by
  have := @struct_align_pos dl isPacked types
  rw [DataLayout.layout] at this ⊢
  exact le_roundUp this

theorem size_le_wrap {inner wrapped : LlvmType} (h : wrapExplicitAlignment dl header inner = some wrapped) :
    (dl.layout inner).size ≤ (dl.layout wrapped).size := by
  unfold wrapExplicitAlignment at h
  split at h
  case isTrue =>
    cases h
    exact Nat.le_refl _
  case isFalse =>
    obtain ⟨marker, hm, rfl⟩ := Option.map_eq_some_iff.mp h
    have ha : 0 < (dl.layout marker).align := by
      unfold alignmentMarkerType at hm
      split at hm
      case isTrue =>
        cases hm
        exact hdl.integer 8
      case isFalse =>
        split at hm
        case isTrue => cases hm
        case isFalse hv =>
          cases hm
          have : (dl.layout (.array (.vector header.explicitAlignment) 0)).align =
            (dl.layout (.vector header.explicitAlignment)).align := rfl
          omega
    rw [layout_pair, struct_pair]
    have h1 : (dl.layout inner).size ≤ roundUp (dl.layout inner).size (dl.layout marker).align := le_roundUp ha
    have h2 := @le_roundUp (roundUp (dl.layout inner).size (dl.layout marker).align + (dl.layout marker).size)
      (max (max 1 (dl.layout inner).align) (dl.layout marker).align) (by omega)
    exact (h1.trans (Nat.le_add_right _ _)).trans h2

theorem size_le_bytes {count : Nat} : count ≤ (dl.layout (.array (.int 8) count)).size := by
  have hb : 1 ≤ (dl.layout (.int 8)).size := le_roundUp (hdl.integer 8)
  have ha : 0 < (dl.layout (.array (.int 8) count)).align := hdl.integer 8
  calc count = count * 1 := (Nat.mul_one count).symm
    _ ≤ count * (dl.layout (.int 8)).size := Nat.mul_le_mul_left count hb
    _ ≤ (dl.layout (.array (.int 8) count)).size := by
      rw [DataLayout.layout] at ha ⊢
      exact le_roundUp ha

omit hdl in
theorem size_le_singleton {isPacked : Bool} {type : LlvmType} :
    (dl.layout type).size ≤ (dl.layout (.struct isPacked [type])).size := by
  have := @size_le_struct dl isPacked [type]
  simpa [DataLayout.layouts, extent] using this

theorem size_add_le_pair {carrier : LlvmType} {count : Nat} :
    (dl.layout carrier).size + count ≤ (dl.layout (.struct false [carrier, .array (.int 8) count])).size := by
  have hs := @size_le_struct dl false [carrier, .array (.int 8) count]
  have hb := @size_le_bytes dl hdl count
  have ha : 0 < (dl.layout (.array (.int 8) count)).align := hdl.integer 8
  have hr : (dl.layout carrier).size ≤ roundUp (dl.layout carrier).size (dl.layout (.array (.int 8) count)).align :=
    le_roundUp ha
  simp only [DataLayout.layouts, extent, fieldAlign, roundUp_zero, Nat.zero_add, Bool.false_eq_true, if_false] at hs
  omega

theorem size_le_union {types : List LlvmType} {storage type : LlvmType}
    (h : lowerReprCUnion dl header types = some storage) (hm : type ∈ types) : (dl.layout type).size ≤ (dl.layout storage).size := by
  obtain ⟨inner, hb, hw⟩ := Option.bind_eq_some_iff.mp h
  refine Nat.le_trans ?_ (size_le_wrap hdl hw)
  have ⟨hsize, _⟩ := @UnionScan.foldl_add dl types ⟨0, 1, none⟩
  have hle : (dl.layout type).size ≤ (types.foldl (UnionScan.add dl) ⟨0, 1, none⟩).maxSize := by
    rw [hsize, layouts_eq_map]
    exact size_le_maxSize (List.mem_map_of_mem hm)
  refine hle.trans ?_
  unfold UnionScan.body at hb
  split at hb
  case isTrue =>
    cases hb
    exact (size_le_bytes hdl).trans size_le_singleton
  case isFalse =>
    obtain ⟨carrier, hc, rfl⟩ := Option.map_eq_some_iff.mp hb
    split
    case isTrue hlt =>
      have := @size_add_le_pair dl hdl carrier
        ((types.foldl (UnionScan.add dl) ⟨0, 1, none⟩).maxSize - (dl.layout carrier).size)
      omega
    case isFalse hlt => exact (Nat.le_of_not_lt hlt).trans size_le_singleton

-- A member of an aggregate lies in its storage.
theorem memberOffset_le {abi : AbiShape} {storage : LlvmType} (ha : IsPlainSpelling abi) (hr : header.isReprC)
    (hs : lowerCObjectType dl target abi (.aggregate header fields) = some storage) {i : Nat}
    {field : ObjectField Ir.ObjectType} (hi : fields[i]? = some field) :
    ∃ type, lowerCObjectType dl target field.abi field.type = some type ∧
      memberOffset dl target header fields i + (dl.layout type).size ≤ (dl.layout storage).size := by
  have ha : abi = .semantic ∨ ∃ kind ≠ .bool, abi = .cScalar kind := by
    cases abi
    case semantic => exact .inl rfl
    case cScalar kind => exact .inr ⟨kind, ha, rfl⟩
    all_goals exact ha.elim
  obtain ⟨types, ht, hs⟩ := lowerCObjectType_aggregate ha hr hs
  obtain ⟨type, hti, hl⟩ := lowerCFields_get_of_field ht hi
  have hp : ∀ type ∈ types, 0 < (dl.layout type).align := by
    intro type hm
    obtain ⟨j, hj⟩ := List.getElem?_of_mem hm
    obtain ⟨_, _, hl⟩ := lowerCFields_get ht hj
    exact lowerCObjectType_align_pos hdl hl
  refine ⟨type, hl, ?_⟩
  cases hu : header.isUnion
  case true =>
    rw [hu, if_pos rfl] at hs
    rw [memberOffset, hu, if_pos rfl, Nat.zero_add]
    exact size_le_union hdl hs (List.mem_of_getElem? hti)
  case false =>
    rw [hu, if_neg Bool.false_ne_true] at hs
    have hlay : (dl.layouts types)[i]? = some (dl.layout type) := by
      rw [layouts_eq_map, List.getElem?_map, hti]
      rfl
    have hlen : i < (offsets header.isPacked 0 (dl.layouts types)).length := by
      rw [offsets_length]
      exact (List.getElem?_eq_some_iff.mp hlay).1
    have ho := List.getElem?_eq_getElem hlen
    have hpos : ∀ l ∈ dl.layouts types, 0 < l.align := by
      rw [layouts_eq_map]
      intro l hm
      obtain ⟨t, htm, rfl⟩ := List.mem_map.mp hm
      exact hp t htm
    have hin := (offsets_get_le hpos hlay ho).2
    have hm : memberOffset dl target header fields i = (offsets header.isPacked 0 (dl.layouts types))[i] := by
      rw [memberOffset, hu, if_neg Bool.false_ne_true, structFieldOffset, if_pos hr, reprCFieldOffset, ht]
      exact congrArg (·.getD 0) ho
    rw [hm]
    exact hin.trans (size_le_struct.trans (size_le_wrap hdl hs))

-- The scalars of an object lie in its storage.
theorem finds_inside {abi : AbiShape} {runtime : Ir.ObjectType} {storage : LlvmType} {base offset size : Nat}
    {cls : RegClass} (hw : WellSpelled abi runtime) (hs : lowerCObjectType dl target abi runtime = some storage)
    (hf : Finds dl target abi runtime base (.scalar offset size cls)) :
    base ≤ offset ∧ offset + size ≤ base + (dl.layout storage).size := by
  induction runtime using Ir.ObjectType.induct generalizing abi storage base
  case leaf t ht =>
    have whole (c : RegClass)
        (h : Finding.scalar offset size cls = .scalar base (objectLayout dl target abi t).size c) :
        base ≤ offset ∧ offset + size ≤ base + (dl.layout storage).size := by
      cases h
      rw [objectLayout_eq hs]
      omega
    cases t <;> cases ht <;> cases abi <;> first | exact whole _ hf | exact hf.elim
  case array element length ih =>
    cases abi
    case array elementAbi =>
      obtain ⟨i, hi, ⟨_, hf⟩ | hf⟩ := hf
      · cases hf
      · rw [lowerCObjectType] at hs
        obtain ⟨e, he, rfl⟩ := Option.map_eq_some_iff.mp hs
        rw [objectLayout_eq he] at hf
        have := ih hw he hf
        have ha := lowerCObjectType_align_pos hdl he
        have hle : length * (dl.layout e).size ≤ (dl.layout (.array e length)).size := by
          rw [DataLayout.layout]
          exact le_roundUp ha
        have hmul : (dl.layout e).size * (i + 1) ≤ (dl.layout e).size * length := Nat.mul_le_mul_left _ hi
        rw [Nat.mul_succ, Nat.mul_comm _ length] at hmul
        omega
    all_goals exact hw.elim
  case enum =>
    have hf := (finds_enum hw).mp hf
    cases hf
    rw [objectLayout_eq hs]
    omega
  case aggregate header fields ih =>
    rcases (finds_aggregate hw).mp hf with ⟨_, hf⟩ | hf
    · cases hf
    · obtain ⟨i, field, hi, ⟨_, hf⟩ | hf⟩ := findsInFields_iff.mp hf
      · cases hf
      · have hm := List.mem_of_getElem? hi
        obtain ⟨type, hl, hle⟩ := memberOffset_le hdl hw.1 hw.2.1 hs hi
        have := ih field hm (areWellSpelled_iff.mp hw.2.2 field hm) hl hf
        rw [Nat.zero_add] at this
        omega

omit hdl in
theorem lowerCObjectType_float {abi : AbiShape} {bits : Nat} (ha : IsPlainSpelling abi) :
    lowerCObjectType dl target abi (.float bits) = lowerType dl target (.float bits) := by
  cases abi
  case semantic => simp [lowerCObjectType]
  case cScalar kind =>
    rw [lowerCObjectType]
    exact fun h => ha (by cases h; rfl)
  all_goals exact ha.elim

theorem float_aligned {abi : AbiShape} {bits base : Nat} (ha : IsPlainSpelling abi)
    (hb : isMisaligned (objectLayout dl target abi (.float bits)).align base = false)
    (hp : 0 < (objectLayout dl target abi (.float bits)).size) :
    4 ∣ base ∧ 4 ∣ (objectLayout dl target abi (.float bits)).size := by
  have hl : objectLayout dl target abi (.float bits) = valueLayout dl target (.float bits) := by
    rw [objectLayout, lowerCObjectType_float ha, valueLayout]
  rw [hl, valueLayout, lowerType] at hb hp ⊢
  by_cases h32 : bits = 32
  case pos =>
    rw [if_pos h32] at hb ⊢
    simp [DataLayout.layout, Layout.padded, hdl.float, isMisaligned, roundUp] at hb ⊢
    omega
  case neg =>
    by_cases h64 : bits = 64
    case pos =>
      rw [if_neg h32, if_pos h64] at hb ⊢
      simp [DataLayout.layout, Layout.padded, hdl.double, isMisaligned, roundUp] at hb ⊢
      omega
    case neg =>
      rw [if_neg h32, if_neg h64] at hp
      cases hp

-- The floats of an object are aligned if its fields and elements are.
theorem finds_float {abi : AbiShape} {runtime : Ir.ObjectType} {base offset size : Nat} (hw : WellSpelled abi runtime)
    (hu : ¬Finds dl target abi runtime base .unaligned)
    (hb : isMisaligned (objectLayout dl target abi runtime).align base = false)
    (hf : Finds dl target abi runtime base (.scalar offset size .sse)) (hp : 0 < size) : 4 ∣ offset ∧ 4 ∣ size := by
  induction runtime using Ir.ObjectType.induct generalizing abi base
  case leaf t ht =>
    cases t
    case float bits =>
      have ha : IsPlainSpelling abi := by
        rcases hw with ha | ha
        · exact ha
        · cases abi <;> first | exact ha.elim | cases hf
      cases abi
      case semantic =>
        cases hf
        exact float_aligned hdl ha hb hp
      case cScalar =>
        cases hf
        exact float_aligned hdl ha hb hp
      all_goals exact ha.elim
    all_goals cases ht
    all_goals cases abi <;> cases hf
  case array element length ih =>
    cases abi
    case array elementAbi =>
      obtain ⟨i, hi, ⟨_, hf⟩ | hf⟩ := hf
      · cases hf
      · refine ih hw (fun h => hu ⟨i, hi, .inr h⟩) ?_ hf
        exact Bool.eq_false_of_not_eq_true fun h => hu ⟨i, hi, .inl ⟨h, rfl⟩⟩
    all_goals exact hw.elim
  case enum => cases (finds_enum hw).mp hf
  case aggregate header fields ih =>
    rcases (finds_aggregate hw).mp hf with ⟨_, hf⟩ | hf
    · cases hf
    · obtain ⟨i, field, hi, ⟨_, hf⟩ | hf⟩ := findsInFields_iff.mp hf
      · cases hf
      · have hm := List.mem_of_getElem? hi
        have hn {finding : Finding} (h : (isMisaligned (objectLayout dl target field.abi field.type).align
              (base + memberOffset dl target header fields (0 + i)) ∧ finding = .unaligned) ∨
            Finds dl target field.abi field.type (base + memberOffset dl target header fields (0 + i)) finding) :
            Finds dl target abi (.aggregate header fields) base finding :=
          (finds_aggregate hw).mpr (.inr (findsInFields_iff.mpr ⟨i, field, hi, h⟩))
        refine ih field hm (areWellSpelled_iff.mp hw.2.2 field hm) (fun h => hu (hn (.inr h))) ?_ hf
        exact Bool.eq_false_of_not_eq_true fun h => hu (hn (.inl ⟨h, rfl⟩))

end Bounds

-- The aggregates of a program that declares no type of the name `c_bool` are split and joined exactly.
theorem scalarsFit_of_wellSpelled {dl : DataLayout} {target : TargetInfo} {abi : AbiShape} {runtime : Ir.ObjectType}
    {isReturn : Bool} {plan : LlvmCAbiValuePlan} (hdl : dl.X86_64) (hw : WellSpelled abi runtime)
    (h : classifySysvAggregate dl target abi runtime isReturn = some plan) (hk : plan.kind = .coerce) :
    ScalarsFit dl target abi runtime := by
  obtain ⟨out, _, hin⟩ := classifySysvAggregate_inRegisters h hk
  obtain ⟨storage, hs, _⟩ := Option.bind_eq_some_iff.mp h
  have inside (offset size : Nat) (cls : RegClass) (hf : Finds dl target abi runtime 0 (.scalar offset size cls)) :
      offset + size ≤ (objectLayout dl target abi runtime).size := by
    have := finds_inside hdl hw hs hf
    rw [objectLayout_eq hs]
    omega
  have hu : ¬Finds dl target abi runtime 0 .unaligned := fun hf =>
    Bool.noConfusion (hin.memory.symm.trans (hin.marks.memory.mpr ⟨_, hf, trivial⟩))
  constructor
  case reach =>
    intro k hbyte
    obtain ⟨offset, size, cls, hf, hl, hr⟩ := exists_scalar_of_fieldByte hw hbyte
    refine ⟨_, hf, ?_⟩
    unfold Finding.Reaches
    omega
  case inside => exact fun offset size cls hf _ => inside offset size cls hf
  case floats =>
    intro k _ offset size hf hin'
    have hb : isMisaligned (objectLayout dl target abi runtime).align 0 = false := by
      simp [isMisaligned]
    obtain ⟨ho, hsz⟩ := finds_float hdl hw hu hb hf hin'.2.1
    have hd : 4 ∣ min (offset + size) (k * 8 + 8) := by omega
    rw [roundUp_of_dvd (by decide) hd]
    exact (Nat.min_le_left _ _).trans (inside offset size .sse hf)

section X86_64

theorem x86_64DataLayout_x86_64 : x86_64DataLayout.X86_64 where
  pointer := by decide
  integer bits := by
    unfold x86_64DataLayout
    dsimp only
    split
    case isTrue => decide
    case isFalse =>
      split
      case isTrue => decide
      case isFalse => split <;> decide
  float   := rfl
  double  := rfl

theorem pair_aggregatePlan : classifySysvAggregate x86_64DataLayout x86_64Target pair.abi pair.type false =
    some (coercePlan pairLlvmType 8 [.int 64, .int 64]) :=
  pair_plan

theorem pair_scalarsFit : ScalarsFit x86_64DataLayout x86_64Target pair.abi pair.type :=
  scalarsFit_of_wellSpelled x86_64DataLayout_x86_64
    ⟨trivial, rfl, .inl trivial, .inl trivial, trivial⟩ pair_aggregatePlan rfl

theorem pair_coercesExactly : CoercesExactly x86_64DataLayout x86_64Target false pair.abi pair.type
    (coercePlan pairLlvmType 8 [.int 64, .int 64]) :=
  (coercesExactly_iff x86_64DataLayout x86_64Target false false pair.abi pair.type _ pair_aggregatePlan rfl).mpr
    fun _ => pair_scalarsFit

-- `#repr(c) c_bool :: struct { word: u64 }`, a type of the name that is stored as a byte
def wordNamedBool : Ir.ObjectType :=
  .aggregate (Ir.lowerHeader reprCHeader) [word]

-- `#repr(c) Flag :: struct { value: c_bool }`
def flagValue : Ir.ObjectType :=
  .aggregate (Ir.lowerHeader reprCHeader) [⟨wordNamedBool, .cScalar .bool⟩]

theorem flagValue_storage : lowerCObjectType x86_64DataLayout x86_64Target .semantic flagValue =
    some (.struct false [.int 8]) := by
  simp [flagValue, wordNamedBool, word, Ir.lowerHeader, reprCHeader, lowerCObjectType, lowerType, lowerCFields,
    lowerReprCStruct, wrapExplicitAlignment]
  rfl

theorem flagValue_classification :
    classifySysvObject x86_64DataLayout x86_64Target .semantic flagValue 0 .empty =
      some (SysVClassification.empty.markRange 0 8 .integer) := by
  simp [flagValue, wordNamedBool, word, Ir.lowerHeader, reprCHeader, lowerCObjectType, lowerType, lowerCFields,
    lowerReprCStruct, wrapExplicitAlignment, classifySysvObject, classifyStructFields, structFieldOffset,
    reprCFieldOffset, classifySysvField, markObject, scalarClass]
  rfl

-- Eight bytes are loaded from an object of a single byte.
theorem flagValue_loads_outside :
    ∃ plan, classifySysvAggregate x86_64DataLayout x86_64Target .semantic flagValue false = some plan ∧
      plan.kind = .coerce ∧ ¬CoercesExactly x86_64DataLayout x86_64Target false .semantic flagValue plan := by
  refine ⟨coercePlan (.struct false [.int 8]) 1 [.int 64], ?_, rfl, ?_⟩
  · rw [classifySysvAggregate, flagValue_storage]
    change (sysvClassification x86_64DataLayout x86_64Target .semantic flagValue 1).bind _ = _
    rw [sysvClassification, if_neg (by decide), flagValue_classification]
    rfl
  · intro h
    have := h.inside 0 (.int 64) rfl
    rw [objectLayout_eq flagValue_storage] at this
    exact absurd this (by decide)

end X86_64

end Coglet.Backend.Llvm
