import Coglet.Target.Layout

open StructLayout

-- The objects that the checker accepts.

namespace Coglet.Target

-- What `make_sem_abi_type` asserts of the spelling of a type. A native C scalar is recognised by its name alone.
def AbiShape.fits : AbiShape → ObjectType → Bool
  | .semantic, _ | .cScalar _, _ => true
  | .pointer, .pointer | .opaquePointer, .opaquePointer | .function, .function _ => true
  | .array element, .array type _ => element.fits type
  | _, _ => false

theorem AbiShape.fits_array {s : AbiShape} {t : ObjectType} (h : (AbiShape.array s).fits t) :
    ∃ element size, t = .array element size ∧ s.fits element := by
  cases t <;> first | exact ⟨_, _, rfl, h⟩ | exact Bool.noConfusion h

-- `repr_c_enum_backing_type_syntax_supported`
def CScalarKind.isInteger : CScalarKind → Bool
  | .bool | .float | .double => false
  | _ => true

namespace ObjectType

def isInteger : ObjectType → Bool
  | s8 | s16 | s32 | s64 | u8 | u16 | u32 | u64 => true
  | _ => false

-- `repr_c_struct_field_type_supported`
def reprCFieldSupported : ObjectType → Bool
  | void | slice => false
  | function abi => abi == .c
  | array element size => 0 < size && element.reprCFieldSupported
  | enum isReprC _ _ => isReprC
  | struct header _ => header.isReprC && !header.isIncomplete
  | _ => true

mutual

def accepted : ObjectType → Bool
  | array element _ => element.accepted
  | enum isReprC abi backing =>
    backing.isInteger && (!isReprC || match abi with
      | .cScalar kind => kind.isInteger
      | _ => false)
  | struct header fields => (!header.isReprC || !fields.isEmpty) && acceptedFields header.isReprC fields
  | _ => true

def acceptedField (isReprC : Bool) : ObjectField ObjectType → Bool
  | ⟨type, abi⟩ => type.accepted && (!isReprC || (type.reprCFieldSupported && abi.fits type))

def acceptedFields (isReprC : Bool) : List (ObjectField ObjectType) → Bool
  | [] => true
  | field :: fields => acceptedField isReprC field && acceptedFields isReprC fields

end

mutual

-- The types of objects that take a single byte.
def isByte : ObjectType → Bool
  | bool | s8 | u8 => true
  | array element size => size == 1 && element.isByte
  | enum _ _ backing => backing.isByte
  | struct header fields => header.align ≤ 1 && (header.isUnion || fields.length == 1) && areBytes fields
  | _ => false

def isByteField : ObjectField ObjectType → Bool
  | ⟨type, _⟩ => type.isByte

def areBytes : List (ObjectField ObjectType) → Bool
  | [] => true
  | field :: fields => isByteField field && areBytes fields

end

-- The spelling of the element of an array that is spelled as an array.
def elementAbi : Option AbiShape → Option AbiShape
  | some (.array element) => some element
  | _ => none

theorem elementAbi_eq_some {abi : Option AbiShape} {element : AbiShape} (h : elementAbi abi = some element) :
    abi = some (.array element) := by
  unfold elementAbi at h
  split at h
  case h_1 =>
    cases h
    rfl
  case h_2 => cases h

mutual

-- A property of an object and of all objects in it. The spelling of a field matters in `#repr(c)` aggregates only.
def Everywhere (P : Option AbiShape → ObjectType → Prop) (abi : Option AbiShape) : ObjectType → Prop
  | array element size => P abi (array element size) ∧ Everywhere P (elementAbi abi) element
  | struct header fields => P abi (struct header fields) ∧ EverywhereFields P header.isReprC fields
  | type => P abi type

def EverywhereField (P : Option AbiShape → ObjectType → Prop) (isReprC : Bool) : ObjectField ObjectType → Prop
  | ⟨type, abi⟩ => Everywhere P (if isReprC then some abi else none) type

def EverywhereFields (P : Option AbiShape → ObjectType → Prop) (isReprC : Bool) : List (ObjectField ObjectType) → Prop
  | [] => True
  | field :: fields => EverywhereField P isReprC field ∧ EverywhereFields P isReprC fields

end

theorem acceptedFields_iff {isReprC : Bool} {fields : List (ObjectField ObjectType)} :
    acceptedFields isReprC fields ↔ ∀ f ∈ fields, f.type.accepted ∧
      (isReprC → f.type.reprCFieldSupported ∧ f.abi.fits f.type) := by
  induction fields
  case nil => simp [acceptedFields]
  case cons field fields ih =>
    cases field
    cases isReprC <;> simp_all [acceptedFields, acceptedField]

theorem areBytes_iff {fields : List (ObjectField ObjectType)} : areBytes fields ↔ ∀ f ∈ fields, f.type.isByte := by
  induction fields
  case nil => simp [areBytes]
  case cons field fields ih =>
    cases field
    simp_all [areBytes, isByteField]

theorem everywhereFields_iff {P : Option AbiShape → ObjectType → Prop} {isReprC : Bool}
    {fields : List (ObjectField ObjectType)} : EverywhereFields P isReprC fields ↔
      ∀ f ∈ fields, Everywhere P (if isReprC then some f.abi else none) f.type := by
  induction fields
  case nil => simp [EverywhereFields]
  case cons field fields ih =>
    cases field
    simp [EverywhereFields, EverywhereField, ih]

theorem accepted_backing {isReprC : Bool} {abi : AbiShape} {backing : ObjectType}
    (h : (enum isReprC abi backing).accepted) : backing.isInteger := by
  simp only [accepted, Bool.and_eq_true] at h
  exact h.1

theorem accepted_of_isInteger {t : ObjectType} (h : t.isInteger) : t.accepted ∧ t.reprCFieldSupported := by
  cases t <;> first | exact ⟨rfl, rfl⟩ | cases h

-- A `#repr(c)` struct or union has fields, and their types are supported.
theorem accepted_fields {header : StructHeader} {fields : List (ObjectField ObjectType)}
    (h : (struct header fields).accepted) (hr : header.isReprC) : fields ≠ [] ∧
      ∀ f ∈ fields, f.type.accepted ∧ f.type.reprCFieldSupported ∧ f.abi.fits f.type := by
  simp only [accepted, Bool.and_eq_true, hr, Bool.not_true, Bool.false_or, acceptedFields_iff] at h
  refine ⟨?_, fun f hf => ⟨(h.2 f hf).1, (h.2 f hf).2 trivial⟩⟩
  rintro rfl
  cases h.1

theorem accepted_field {header : StructHeader} {fields : List (ObjectField ObjectType)} {f : ObjectField ObjectType}
    (h : (struct header fields).accepted) (hf : f ∈ fields) : f.type.accepted ∧
      ∀ a, (if header.isReprC then some f.abi else none) = some a → f.type.reprCFieldSupported ∧ a.fits f.type := by
  simp only [accepted, Bool.and_eq_true, acceptedFields_iff] at h
  have ⟨ha, hs⟩ := h.2 f hf
  refine ⟨ha, fun a he => ?_⟩
  split at he
  case isTrue hr =>
    cases he
    exact hs hr
  case isFalse => cases he

theorem Everywhere.here {P : Option AbiShape → ObjectType → Prop} {abi : Option AbiShape} {t : ObjectType}
    (h : Everywhere P abi t) : P abi t := by
  cases t
  case array => exact h.1
  case struct => exact h.1
  all_goals exact h

theorem everywhere_array {P : Option AbiShape → ObjectType → Prop} {abi : Option AbiShape} {element : ObjectType}
    {size : Int} : Everywhere P abi (array element size) ↔
      P abi (array element size) ∧ Everywhere P (elementAbi abi) element :=
  Iff.rfl

theorem everywhere_enum {P : Option AbiShape → ObjectType → Prop} {abi : Option AbiShape} {isReprC : Bool}
    {backingAbi : AbiShape} {backing : ObjectType} :
    Everywhere P abi (enum isReprC backingAbi backing) ↔ P abi (enum isReprC backingAbi backing) :=
  Iff.rfl

theorem everywhere_struct {P : Option AbiShape → ObjectType → Prop} {abi : Option AbiShape} {header : StructHeader}
    {fields : List (ObjectField ObjectType)} : Everywhere P abi (struct header fields) ↔ P abi (struct header fields) ∧
      ∀ f ∈ fields, Everywhere P (if header.isReprC then some f.abi else none) f.type := by
  rw [Everywhere, everywhereFields_iff]

theorem everywhere_leaf {P : Option AbiShape → ObjectType → Prop} {abi : Option AbiShape} {t : ObjectType}
    (h : t.isLeaf) : Everywhere P abi t ↔ P abi t := by
  cases t <;> first | exact Iff.rfl | cases h

end ObjectType

namespace TargetInfo

variable {target : TargetInfo}

theorem padded_eq_byte_iff {size align : Nat} : Layout.padded size align = ⟨1, 1⟩ ↔ size = 1 ∧ align = 1 := by
  unfold Layout.padded
  constructor
  case mp =>
    intro h
    have ⟨hs, ha⟩ := Layout.mk.inj h
    subst ha
    exact ⟨by simpa using hs, rfl⟩
  case mpr =>
    rintro ⟨rfl, rfl⟩
    simp

theorem layout_size_pos (header : StructHeader) {ls : List Layout} (hls : ∀ l ∈ ls, l.Regular ∧ 0 < l.size)
    (hn : ls ≠ []) : 0 < (header.layout ls).size := by
  have ha : 0 < (header.layout ls).align := (header.layout_regular fun l h => (hls l h).1).align_pos
  apply Nat.lt_of_lt_of_le _ (le_roundUp ha)
  split
  case isTrue =>
    cases ls
    case nil => exact absurd rfl hn
    case cons l ls => exact (hls l (.head _)).2.trans_le (size_le_maxSize (.head _))
  case isFalse =>
    have := @add_length_le_extent header.isPacked ls 0 fun l h => ⟨(hls l h).1.power, (hls l h).2⟩
    have := List.length_pos_iff.mpr hn
    omega

theorem pointer_size_pos (ht : target.Natural) : 1 < target.pointerLayout.size := by
  cases ht.pointerBits <;> simp_all [pointerLayout]

theorem reprCField_size_pos (ht : target.Natural) {depth : Nat} {t : ObjectType} {l : Layout}
    (ha : t.accepted) (hs : t.reprCFieldSupported) (h : target.layoutImpl depth t = .ok l) : 0 < l.size := by
  induction t using ObjectType.induct generalizing depth l
  case leaf t hl =>
    cases layoutImpl_leaf hl h
    case scalar bits type layout =>
      have hb := ObjectType.scalarBits_mem type
      simp only [List.mem_cons, List.not_mem_nil, or_false] at hb
      subst layout
      change 0 < bits / 8
      omega
    case pointer layout => exact layout ▸ Nat.lt_of_succ_lt (pointer_size_pos ht)
    case slice type _ =>
      rw [type] at hs
      cases hs
  case array element size ih =>
    simp only [ObjectType.reprCFieldSupported, Bool.and_eq_true, decide_eq_true_eq] at hs
    have ⟨_, l', hl', hl⟩ := layoutImpl_array h
    rw [hl]
    exact Nat.mul_pos (ih ha hs.2 hl') (by omega)
  case enum isReprC abi backing ih =>
    have ⟨hb, hb'⟩ := ObjectType.accepted_of_isInteger (ObjectType.accepted_backing ha)
    exact ih hb hb' (layoutImpl_enum h)
  case struct header fields ih =>
    simp only [ObjectType.reprCFieldSupported, Bool.and_eq_true] at hs
    have ⟨hn, hf⟩ := ObjectType.accepted_fields ha hs.1
    have ⟨_, ls, hls, hl⟩ := layoutImpl_struct h
    rw [hl]
    apply layout_size_pos
    · apply fieldLayouts_forall (P := fun l => l.Regular ∧ 0 < l.size) hls
      intro f hm l hl
      exact ⟨layoutImpl_regular ht hl, ih f hm (hf f hm).1 (hf f hm).2.1 hl⟩
    · rintro rfl
      cases hls
      exact hn rfl

theorem fieldLayouts_length {depth : Nat} {fields : List (ObjectField ObjectType)} {ls : List Layout}
    (h : target.FieldLayouts depth fields ls) : fields.length = ls.length :=
  h.length_eq

-- The fields of a struct or union that takes a byte.
theorem layout_eq_byte_iff (header : StructHeader) {ls : List Layout} (hls : ∀ l ∈ ls, l.Regular ∧ 0 < l.size)
    (hn : ls ≠ []) : header.layout ls = ⟨1, 1⟩ ↔
      header.align ≤ 1 ∧ (header.isUnion ∨ ls.length = 1) ∧ ∀ l ∈ ls, l = ⟨1, 1⟩ := by
  have hlen := List.length_pos_iff.mpr hn
  have byte {l : Layout} (hm : l ∈ ls) (hs : l.size ≤ 1) : l = ⟨1, 1⟩ := by
    have hl : l.size = 1 := Nat.le_antisymm hs (hls l hm).2
    have := (hls l hm).1.dvd
    rw [hl] at this
    have ha := Nat.dvd_one.mp this
    cases l
    simp_all
  have hext := @add_length_le_extent header.isPacked ls 0 fun l h => ⟨(hls l h).1.power, (hls l h).2⟩
  have hmax := @le_maxAlign header.isPacked ls 1
  unfold StructHeader.layout
  rw [padded_eq_byte_iff]
  constructor
  case mp =>
    rintro ⟨hs, ha⟩
    refine ⟨by omega, ?_⟩
    cases hu : header.isUnion
    case false =>
      rw [hu, if_neg Bool.false_ne_true] at hs
      have h1 : ls.length = 1 := by
        omega
      refine ⟨.inr h1, fun l hm => ?_⟩
      obtain ⟨l', rfl⟩ := List.length_eq_one_iff.mp h1
      cases List.mem_singleton.mp hm
      apply byte hm
      simp [extent] at hs
      omega
    case true =>
      rw [hu, if_pos rfl] at hs
      exact ⟨.inl rfl, fun l hm => byte hm (hs ▸ size_le_maxSize hm)⟩
  case mpr =>
    rintro ⟨ha, hu, hb⟩
    have hm : maxAlign header.isPacked 1 ls = 1 := maxAlign_eq_one fun l h => by rw [hb l h]
    refine ⟨?_, by omega⟩
    split
    case isTrue =>
      obtain ⟨l, hl⟩ := List.exists_mem_of_ne_nil ls hn
      apply Nat.le_antisymm
      · exact maxSize_le (Nat.zero_le 1) fun l h => by rw [hb l h]
      · have := @size_le_maxSize ls 0 l hl
        rwa [hb l hl] at this
    case isFalse hn' =>
      have h1 := hu.resolve_left hn'
      obtain ⟨l, rfl⟩ := List.length_eq_one_iff.mp h1
      simp [extent, hb l (.head _)]

theorem isByte_iff (ht : target.Natural) {depth : Nat} {t : ObjectType} {l : Layout} (ha : t.accepted)
    (hs : t.reprCFieldSupported) (h : target.layoutImpl depth t = .ok l) : l = ⟨1, 1⟩ ↔ t.isByte := by
  induction t using ObjectType.induct generalizing depth l
  case leaf t hl =>
    cases layoutImpl_leaf hl h
    case scalar bits type layout =>
      rw [layout]
      cases t <;> cases type <;> simp [ObjectType.isByte, ht.scalarAlign8]
    case pointer type layout =>
      have := pointer_size_pos ht
      have hn : l ≠ ⟨1, 1⟩ := by
        rintro rfl
        rw [← layout] at this
        exact Nat.lt_irrefl 1 this
      cases t <;> cases type <;> simp [ObjectType.isByte, hn]
    case slice type _ =>
      rw [type] at hs
      cases hs
  case array element size ih =>
    simp only [ObjectType.reprCFieldSupported, Bool.and_eq_true, decide_eq_true_eq] at hs
    have ⟨_, l', hl', hl⟩ := layoutImpl_array h
    have hb := ih ha hs.2 hl'
    rw [hl, ObjectType.isByte, Bool.and_eq_true, ← hb, beq_iff_eq]
    constructor
    case mp =>
      intro he
      have ⟨h1, h2⟩ := Layout.mk.inj he
      have h3 : l'.size = 1 := Nat.eq_one_of_mul_eq_one_right h1
      have h4 : size.toNat = 1 := Nat.eq_one_of_mul_eq_one_left h1
      refine ⟨by omega, ?_⟩
      cases l'
      simp_all
    case mpr =>
      rintro ⟨rfl, rfl⟩
      rfl
  case enum isReprC abi backing ih =>
    have ⟨hb, hb'⟩ := ObjectType.accepted_of_isInteger (ObjectType.accepted_backing ha)
    exact ih hb hb' (layoutImpl_enum h)
  case struct header fields ih =>
    simp only [ObjectType.reprCFieldSupported, Bool.and_eq_true] at hs
    have ⟨hn, hf⟩ := ObjectType.accepted_fields ha hs.1
    have ⟨_, ls, hls, hl⟩ := layoutImpl_struct h
    have hpos : ∀ l ∈ ls, l.Regular ∧ 0 < l.size := by
      apply fieldLayouts_forall (P := fun l => l.Regular ∧ 0 < l.size) hls
      intro f hm l hl
      exact ⟨layoutImpl_regular ht hl, reprCField_size_pos ht (hf f hm).1 (hf f hm).2.1 hl⟩
    have hne : ls ≠ [] := by
      rintro rfl
      cases hls
      exact hn rfl
    have hbytes : (∀ l ∈ ls, l = ⟨1, 1⟩) ↔ ObjectType.areBytes fields := by
      rw [ObjectType.areBytes_iff]
      clear hn hl hpos hne h ha
      induction hls
      case nil => simp
      case cons hl' _ ih' =>
        have := ih _ (.head _) (hf _ (.head _)).1 (hf _ (.head _)).2.1 hl'
        rw [List.forall_mem_cons, List.forall_mem_cons, this,
          ih' (fun f hm => ih f (.tail _ hm)) fun f hm => hf f (.tail _ hm)]
    rw [hl, layout_eq_byte_iff header hpos hne, hbytes, ← fieldLayouts_length hls, ObjectType.isByte]
    simp [and_assoc]

end TargetInfo
end Coglet.Target
