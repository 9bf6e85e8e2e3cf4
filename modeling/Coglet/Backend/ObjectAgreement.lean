import Coglet.Backend.LayoutAgreement
import Coglet.Target.Object

open StructLayout
open Coglet.Target (AbiShape ObjectField ObjectType StructHeader TargetInfo CScalarKind)

-- The frontend and the LLVM backend give the same memory to an object.

namespace Coglet.Backend.Llvm

-- The LLVM type that is built for an object. Without a spelling it is the type of values.
def storageType (dl : DataLayout) (target : TargetInfo) (abi : Option AbiShape) (type : ObjectType) :
    Option LlvmType := do
  let runtime ← Ir.lowerType target type
  match abi with
  | none => lowerType dl target runtime
  | some abi => lowerCObjectType dl target abi runtime

structure ObjectAgrees (dl : DataLayout) (target : TargetInfo) (abi : Option AbiShape) (type : ObjectType) : Prop where
  layout : ∀ l storage, target.layoutOfType type = .ok l → storageType dl target abi type = some storage →
    dl.layout storage = l
  offset : ∀ header fields ls runtime index offset, type = .struct header fields → header.isReprC →
    header.isUnion = false → List.Forall₂ (fun f l => target.layoutOfType f.type = .ok l) fields ls →
    Ir.lowerFields target fields = some runtime →
    reprCFieldOffset dl target (Ir.lowerHeader header) runtime index = some offset →
    (offsets header.isPacked 0 ls)[index]? = some offset

section Objects

variable {dl : DataLayout} {target : TargetInfo} {abi : AbiShape} {t : ObjectType} {storage : LlvmType} {l : Layout}

theorem storageType_none {runtime : Ir.ObjectType} (hr : Ir.lowerType target t = some runtime) :
    storageType dl target none t = lowerType dl target runtime := by
  rw [storageType, hr]
  rfl

theorem storageType_some {runtime : Ir.ObjectType} (hr : Ir.lowerType target t = some runtime) :
    storageType dl target (some abi) t = lowerCObjectType dl target abi runtime := by
  rw [storageType, hr]
  rfl

theorem storageType_eq_some {abi : Option AbiShape} (h : storageType dl target abi t = some storage) :
    ∃ runtime, Ir.lowerType target t = some runtime := by
  have ⟨runtime, hr, _⟩ := Option.bind_eq_some_iff.mp h
  exact ⟨runtime, hr⟩

theorem storageType_cScalar {kind : CScalarKind} (hk : kind ≠ .bool) :
    storageType dl target (some (.cScalar kind)) t = storageType dl target none t := by
  cases hr : Ir.lowerType target t
  case none => simp [storageType, hr]
  case some runtime =>
    rw [storageType_some hr, storageType_none hr, lowerCObjectType]
    exact fun h => hk (by cases h; rfl)

theorem lowerCObjectType_semantic {runtime : Ir.ObjectType} (hb : runtime ≠ .bool)
    (he : ∀ backing abi, runtime ≠ .enum backing true abi) :
    lowerCObjectType dl target .semantic runtime = lowerType dl target runtime := by
  cases runtime
  case bool => exact absurd rfl hb
  case enum backing isReprC abi =>
    cases isReprC
    case true => exact absurd rfl (he backing abi)
    case false => simp [lowerCObjectType]
  all_goals simp [lowerCObjectType]

theorem storageType_semantic (hb : t ≠ .bool) (he : ∀ abi backing, t ≠ .enum true abi backing) :
    storageType dl target (some .semantic) t = storageType dl target none t := by
  cases hr : Ir.lowerType target t
  case none => simp [storageType, hr]
  case some runtime =>
    rw [storageType_some hr, storageType_none hr, lowerCObjectType_semantic]
    · rintro rfl
      exact hb (Ir.lowerType_eq_bool hr)
    · rintro backing abi rfl
      have ⟨backing, ht⟩ := Ir.lowerType_eq_enum hr
      exact he abi backing ht

theorem storageType_array {abi : Option AbiShape} {element : ObjectType} {size : Int}
    (ha : abi = none ∨ ∃ s, abi = some (.array s))
    (h : storageType dl target abi (.array element size) = some storage) : ∃ e,
      storageType dl target (ObjectType.elementAbi abi) element = some e ∧ storage = .array e size.toNat := by
  obtain ⟨runtime, hr, hs⟩ := Option.bind_eq_some_iff.mp h
  rw [Ir.lowerType] at hr
  split at hr
  case isTrue => cases hr
  case isFalse =>
    obtain ⟨r, hr', he⟩ := Option.map_eq_some_iff.mp hr
    subst he
    cases ha
    case inl ha =>
      subst ha
      dsimp only at hs
      rw [lowerType] at hs
      obtain ⟨e, he, hs⟩ := Option.map_eq_some_iff.mp hs
      exact ⟨e, (storageType_none hr').trans he, hs.symm⟩
    case inr ha =>
      obtain ⟨s, rfl⟩ := ha
      dsimp only at hs
      rw [lowerCObjectType] at hs
      obtain ⟨e, he, hs⟩ := Option.map_eq_some_iff.mp hs
      exact ⟨e, (storageType_some hr').trans he, hs.symm⟩

-- The fields of a `#repr(c)` aggregate are stored as they are spelled, the fields of another struct as values.
theorem lowerCFields_storageType {fields : List (ObjectField ObjectType)} {runtime : List (ObjectField Ir.ObjectType)}
    {types : List LlvmType} (hr : Ir.lowerFields target fields = some runtime)
    (h : lowerCFields dl target runtime = some types) :
    List.Forall₂ (fun f type => storageType dl target (some f.abi) f.type = some type) fields types := by
  have hf := Ir.lowerFields_forall₂ hr
  clear hr
  induction hf generalizing types
  case nil =>
    rw [lowerCFields] at h
    cases h
    exact .nil
  case cons f r _ rs hfr _ ih =>
    cases r with
    | mk type abi =>
      rw [lowerCFields] at h
      obtain ⟨s, hs, h⟩ := Option.bind_eq_some_iff.mp h
      obtain ⟨ss, hss, h⟩ := Option.bind_eq_some_iff.mp h
      cases h
      refine .cons ?_ (ih hss)
      rw [storageType_some hfr.1, ← hfr.2]
      exact hs

theorem lowerFields_storageType {fields : List (ObjectField ObjectType)} {runtime : List (ObjectField Ir.ObjectType)}
    {types : List LlvmType} (hr : Ir.lowerFields target fields = some runtime)
    (h : lowerFields dl target runtime = some types) :
    List.Forall₂ (fun f type => storageType dl target none f.type = some type) fields types := by
  have hf := Ir.lowerFields_forall₂ hr
  clear hr
  induction hf generalizing types
  case nil =>
    rw [lowerFields] at h
    cases h
    exact .nil
  case cons f r _ rs hfr _ ih =>
    cases r with
    | mk type abi =>
      rw [lowerFields] at h
      obtain ⟨s, hs, h⟩ := Option.bind_eq_some_iff.mp h
      obtain ⟨ss, hss, h⟩ := Option.bind_eq_some_iff.mp h
      cases h
      refine .cons ?_ (ih hss)
      rw [storageType_none hfr.1]
      exact hs

theorem layouts_eq {spelling : ObjectField ObjectType → Option AbiShape} {fields : List (ObjectField ObjectType)}
    {types : List LlvmType} {ls : List Layout} (ha : ∀ f ∈ fields, ObjectAgrees dl target (spelling f) f.type)
    (hs : List.Forall₂ (fun f type => storageType dl target (spelling f) f.type = some type) fields types)
    (hl : List.Forall₂ (fun f l => target.layoutOfType f.type = .ok l) fields ls) : dl.layouts types = ls := by
  induction hs generalizing ls
  case nil =>
    cases hl
    rfl
  case cons f type _ _ hs _ ih =>
    cases hl
    case cons hl hls =>
      rw [DataLayout.layouts, (ha f (.head _)).layout _ _ hl hs, ih (fun f hm => ha f (.tail _ hm)) hls]

end Objects

section Agreement

variable {dl : DataLayout} {target : TargetInfo} (ht : target.Natural) (hdl : dl.Agrees target)
include ht hdl

variable {t : ObjectType} {storage : LlvmType} {l : Layout}

theorem storageType_leaf (hl : target.LeafLayout t l) (hs : storageType dl target none t = some storage) :
    dl.layout storage = l := by
  cases hl
  case scalar bits type layout =>
    subst layout
    cases t <;> cases type <;> simp [storageType, Ir.lowerType, lowerType] at hs <;> subst hs
    case bool => exact layout_bool ht hdl
    case f32 => exact layout_float ht hdl
    case f64 => exact layout_double ht hdl
    all_goals exact layout_integer ht hdl (by decide)
  case pointer type layout =>
    subst layout
    cases t <;> cases type <;> simp [storageType, Ir.lowerType, lowerType] at hs <;> subst hs
    all_goals exact layout_ptr ht hdl
  case slice type layout =>
    subst type
    obtain ⟨runtime, hr, hs⟩ := Option.bind_eq_some_iff.mp hs
    obtain ⟨length, hl, hr⟩ := Ir.lowerType_slice hr
    have hb : length = .integer target.pointerBits false := by
      unfold Ir.fixedIntegerTypeForBits at hl
      split at hl
      case isTrue => exact (Option.some.inj hl).symm
      case isFalse => cases hl
    have hp : target.pointerBits ∈ [8, 16, 32, 64] := by
      cases ht.pointerBits <;> simp_all
    subst hr hb
    simp [lowerType, Ir.sliceHeader, lowerFields] at hs
    rw [← hs, layout_pair, layout_ptr ht hdl, layout_integer ht hdl hp, Target.TargetInfo.sliceLayout_eq ht layout]

-- A pointer that is spelled as one.
theorem lowerCObjectType_pointer (hp : t.isPointer) (hl : target.layoutOfType t = .ok l) : dl.layout .ptr = l := by
  have hl := (Target.TargetInfo.layoutOfType_eq_ok hl).2
  have ⟨hleaf, hscalar⟩ := ObjectType.isPointer_leaf hp
  rw [layout_ptr ht hdl]
  cases Target.TargetInfo.layoutImpl_leaf hleaf hl
  case scalar type _ => cases hscalar.symm.trans type
  case pointer layout => exact layout.symm
  case slice type _ =>
    subst type
    cases hp

-- A truth value that is stored as C does.
theorem cBoolStorageType_layout (h : cBoolStorageType target = some storage) : dl.layout storage = ⟨1, 1⟩ := by
  unfold cBoolStorageType at h
  rw [ht.cBoolBits] at h
  cases h
  exact layout_byte ht hdl

omit hdl in
theorem storageType_array_layout {abi : Option AbiShape} {element : ObjectType} {size : Int}
    (ha : abi = none ∨ ∃ s, abi = some (.array s)) (he : ObjectAgrees dl target (ObjectType.elementAbi abi) element)
    (hl : target.layoutOfType (.array element size) = .ok l)
    (h : storageType dl target abi (.array element size) = some storage) : dl.layout storage = l := by
  have ⟨hv, hl⟩ := Target.TargetInfo.layoutOfType_eq_ok hl
  have ⟨_, l', hl', hl⟩ := Target.TargetInfo.layoutImpl_array hl
  have ⟨e, hse, hst⟩ := storageType_array ha h
  have hle := he.layout l' e (Target.TargetInfo.layoutOfType_of_layoutImpl hv hl') hse
  have hreg := Target.TargetInfo.layoutImpl_regular ht hl'
  have hd : l'.align ∣ size.toNat * l'.size := hreg.dvd.mul_left _
  rw [hst, DataLayout.layout, hle, hl, Layout.padded, roundUp_of_dvd hreg.align_pos hd, Nat.mul_comm]

theorem storageType_enum {isReprC : Bool} {backingAbi : AbiShape} {backing : ObjectType} (hb : backing.isInteger)
    (hl : target.layoutOfType (.enum isReprC backingAbi backing) = .ok l)
    (h : storageType dl target none (.enum isReprC backingAbi backing) = some storage) : dl.layout storage = l := by
  have hleaf : backing.isLeaf := by
    cases backing <;> first | rfl | cases hb
  have ⟨runtime, hr⟩ := storageType_eq_some h
  have ⟨r, hr', he⟩ := Option.map_eq_some_iff.mp hr
  rw [storageType_none hr, ← he, lowerType, ← storageType_none hr'] at h
  have hl' := Target.TargetInfo.layoutImpl_enum (Target.TargetInfo.layoutOfType_eq_ok hl).2
  exact storageType_leaf ht hdl (Target.TargetInfo.layoutImpl_leaf hleaf hl') h

-- A field of a `#repr(c)` aggregate whose spelling is not that of an array.
theorem storageType_spelled {abi : AbiShape} (ha : t.accepted) (hs : t.reprCFieldSupported) (hf : abi.fits t)
    (hb : abi = .cScalar .bool → t.isByte) (harray : ∀ s, abi ≠ .array s)
    (hnone : ∀ storage, storageType dl target none t = some storage → dl.layout storage = l)
    (hl : target.layoutOfType t = .ok l) (h : storageType dl target (some abi) t = some storage) :
    dl.layout storage = l := by
  have hl' := (Target.TargetInfo.layoutOfType_eq_ok hl).2
  obtain ⟨runtime, hr⟩ := storageType_eq_some h
  -- A spelled truth value takes a byte.
  have byte (hbyte : t.isByte) (hc : cBoolStorageType target = some storage) : dl.layout storage = l := by
    rw [cBoolStorageType_layout ht hdl hc]
    exact ((Target.TargetInfo.isByte_iff ht ha hs hl').mpr hbyte).symm
  cases abi
  case semantic =>
    by_cases htb : t = .bool
    case pos =>
      subst htb
      cases hr
      rw [storageType_some rfl, lowerCObjectType] at h
      exact byte rfl h
    case neg =>
      by_cases hte : ∃ abi backing, t = .enum true abi backing
      case pos =>
        obtain ⟨abi, backing, rfl⟩ := hte
        simp only [ObjectType.accepted, Bool.and_eq_true, Bool.not_true, Bool.false_or] at ha
        obtain ⟨r, hr', he⟩ := Option.map_eq_some_iff.mp hr
        subst he
        rw [storageType_some hr, lowerCObjectType] at h
        apply hnone
        rw [storageType_none hr, lowerType, ← h, ← storageType_none hr', ← storageType_some hr']
        cases abi
        case cScalar kind =>
          symm
          apply storageType_cScalar
          rintro rfl
          cases ha.2
        all_goals cases ha.2
      case neg =>
        rw [storageType_semantic htb fun abi backing he => hte ⟨abi, backing, he⟩] at h
        exact hnone storage h
  case cScalar kind =>
    by_cases hk : kind = .bool
    case pos =>
      subst hk
      rw [storageType_some hr, lowerCObjectType] at h
      exact byte (hb rfl) h
    case neg =>
      rw [storageType_cScalar hk] at h
      exact hnone storage h
  case pointer | opaquePointer | function =>
    rw [storageType_some hr, lowerCObjectType] at h
    cases h
    exact lowerCObjectType_pointer ht hdl (by cases t <;> first | rfl | exact Bool.noConfusion hf) hl
  case array s => exact absurd rfl (harray s)

theorem storageType_struct {header : StructHeader} {fields : List (ObjectField ObjectType)} {ls : List Layout}
    (hi : header.isIncomplete = false)
    (ha : ∀ f ∈ fields, ObjectAgrees dl target (if header.isReprC then some f.abi else none) f.type)
    (hls : List.Forall₂ (fun f l => target.layoutOfType f.type = .ok l) fields ls) (hreg : ∀ l ∈ ls, l.Regular)
    (h : storageType dl target none (.struct header fields) = some storage) : dl.layout storage = header.layout ls := by
  obtain ⟨runtime, hr⟩ := storageType_eq_some h
  obtain ⟨fields', he, hf⟩ := Ir.lowerType_struct hr
  rw [storageType_none hr, he, lowerType] at h
  have hc : (Ir.lowerHeader header).isReprC = header.isReprC := rfl
  have hu : (Ir.lowerHeader header).isUnion = header.isUnion := rfl
  have hcomplete : (!(Ir.lowerHeader header).isComplete || (Ir.lowerHeader header).isIncomplete) = false := by
    simp [Ir.lowerHeader, hi]
  rw [hc, hu, hcomplete] at h
  cases hrepr : header.isReprC
  case true =>
    simp only [hrepr, if_true] at ha h
    obtain ⟨types, ht', h⟩ := Option.bind_eq_some_iff.mp h
    have hl := layouts_eq ha (lowerCFields_storageType (hf hi) ht') hls
    rw [← hl] at hreg ⊢
    split at h
    case isTrue hu => exact lowerReprCUnion_layout ht hdl hu hreg h
    case isFalse hu => exact lowerReprCStruct_layout ht hdl (Bool.eq_false_of_not_eq_true hu) hrepr hreg h
  case false =>
    have hn : header.isUnion = false := by
      apply Bool.eq_false_of_not_eq_true
      intro hu
      rw [header.unionReprC hu] at hrepr
      cases hrepr
    obtain ⟨hp, halign⟩ := header.plain hrepr
    simp only [hrepr, hn] at ha h
    obtain ⟨types, ht', hs⟩ := Option.map_eq_some_iff.mp h
    rw [← hs, DataLayout.layout, layouts_eq ha (lowerFields_storageType (hf hi) ht') hls, StructHeader.layout, hn, hp,
      halign, Nat.max_zero]
    rfl

omit ht hdl in
theorem reprCFieldOffset_struct {header : StructHeader} {fields : List (ObjectField ObjectType)} {ls : List Layout}
    {runtime : List (ObjectField Ir.ObjectType)} {index offset : Nat} (hr : header.isReprC)
    (ha : ∀ f ∈ fields, ObjectAgrees dl target (some f.abi) f.type)
    (hls : List.Forall₂ (fun f l => target.layoutOfType f.type = .ok l) fields ls)
    (hf : Ir.lowerFields target fields = some runtime)
    (h : reprCFieldOffset dl target (Ir.lowerHeader header) runtime index = some offset) :
    (offsets header.isPacked 0 ls)[index]? = some offset := by
  have ⟨types, ht', ho⟩ := Option.bind_eq_some_iff.mp h
  have hp : (Ir.lowerHeader header).isPacked = header.isPacked := if_pos hr
  rwa [DataLayout.offsetOfElement, hp, layouts_eq ha (lowerCFields_storageType hf ht') hls] at ho

end Agreement

-- The name `c_bool` is not reserved. What the spelling promises is that the type takes a byte.
def CBoolIsByte (abi : Option AbiShape) (type : ObjectType) : Prop :=
  abi = some (.cScalar .bool) → type.isByte

section Everywhere

variable {dl : DataLayout} {target : TargetInfo} (ht : target.Natural) (hdl : dl.Agrees target)
include ht hdl

variable {abi : Option AbiShape} {t : ObjectType} {l : Layout} (ha : t.accepted)
  (hs : ∀ a, abi = some a → t.reprCFieldSupported ∧ a.fits t) (hl : target.layoutOfType t = .ok l)
include ha hs hl

-- The other direction of the agreement. It needs nothing of the parts of an object.
theorem ObjectAgrees.cBoolIsByte (h : ObjectAgrees dl target abi t) : CBoolIsByte abi t := by
  rintro rfl
  have hl' := (Target.TargetInfo.layoutOfType_eq_ok hl).2
  have ⟨runtime, hr⟩ := Ir.lowerType_isSome ht hl'
  have hst : storageType dl target (some (.cScalar .bool)) t = some (.int 8) := by
    rw [storageType_some hr, lowerCObjectType, cBoolStorageType, ht.cBoolBits]
    rfl
  have he := h.layout l (.int 8) hl hst
  rw [layout_byte ht hdl] at he
  exact (Target.TargetInfo.isByte_iff ht ha (hs _ rfl).1 hl').mp he.symm

theorem storageType_layout {storage : LlvmType} (hb : CBoolIsByte abi t) (harray : ∀ s, abi ≠ some (.array s))
    (hnone : ∀ storage, storageType dl target none t = some storage → dl.layout storage = l)
    (h : storageType dl target abi t = some storage) : dl.layout storage = l := by
  cases abi
  case none => exact hnone storage h
  case some a =>
    have ⟨hsup, hf⟩ := hs a rfl
    refine storageType_spelled ht hdl ha hsup hf ?_ (fun s h => harray s (h ▸ rfl)) hnone hl h
    exact fun he => hb (he ▸ rfl)

omit ht hdl ha hs hl in
theorem ObjectAgrees.of_layout (hn : ∀ header fields, t ≠ .struct header fields)
    (h : ∀ l storage, target.layoutOfType t = .ok l → storageType dl target abi t = some storage →
      dl.layout storage = l) : ObjectAgrees dl target abi t where
  layout := h
  offset := fun header fields _ _ _ _ he => absurd he (hn header fields)

end Everywhere

section Everywhere

variable {dl : DataLayout} {target : TargetInfo} (ht : target.Natural) (hdl : dl.Agrees target)
include ht hdl

theorem objectAgrees_array {abi : Option AbiShape} {element : ObjectType} {size : Int}
    (ha : (ObjectType.array element size).accepted)
    (hs : ∀ a, abi = some a → (ObjectType.array element size).reprCFieldSupported ∧ a.fits (.array element size))
    (he : ObjectAgrees dl target (ObjectType.elementAbi abi) element) (hb : CBoolIsByte abi (.array element size)) :
    ObjectAgrees dl target abi (.array element size) := by
  apply ObjectAgrees.of_layout (fun _ _ h => by cases h)
  intro l storage hl h
  by_cases harray : ∃ s, abi = some (.array s)
  case pos => exact storageType_array_layout ht (.inr harray) he hl h
  case neg =>
    have hn : ObjectType.elementAbi abi = none := by
      unfold ObjectType.elementAbi
      split
      case h_1 s => exact absurd ⟨s, rfl⟩ harray
      case h_2 => rfl
    rw [hn] at he
    apply storageType_layout ht hdl ha hs hl hb (fun s hs => harray ⟨s, hs⟩) _ h
    exact fun storage => storageType_array_layout ht (.inl rfl) he hl

theorem objectAgrees_struct {abi : Option AbiShape} {header : StructHeader} {fields : List (ObjectField ObjectType)}
    (ha : (ObjectType.struct header fields).accepted)
    (hs : ∀ a, abi = some a → (ObjectType.struct header fields).reprCFieldSupported ∧ a.fits (.struct header fields))
    (hf : ∀ f ∈ fields, ObjectAgrees dl target (if header.isReprC then some f.abi else none) f.type)
    (hb : CBoolIsByte abi (.struct header fields)) : ObjectAgrees dl target abi (.struct header fields) where
  layout := by
    intro l storage hl h
    have ⟨hv, hl'⟩ := Target.TargetInfo.layoutOfType_eq_ok hl
    have ⟨hi, ls, hls, he⟩ := Target.TargetInfo.layoutImpl_struct hl'
    have hreg : ∀ l ∈ ls, l.Regular :=
      Target.TargetInfo.fieldLayouts_forall hls fun _ _ _ h => Target.TargetInfo.layoutImpl_regular ht h
    have hls : List.Forall₂ (fun f l => target.layoutOfType f.type = .ok l) fields ls :=
      hls.imp fun _ _ h => Target.TargetInfo.layoutOfType_of_layoutImpl hv h
    apply storageType_layout ht hdl ha hs hl hb _ _ h
    · rintro s rfl
      cases (hs _ rfl).2
    · intro storage h
      rw [he]
      exact storageType_struct ht hdl hi hf hls hreg h
  offset := by
    intro header' fields' ls runtime index offset hst hr _ hls hrt h
    cases hst
    rw [hr] at hf
    exact reprCFieldOffset_struct hr hf hls hrt h

theorem everywhere_agrees_iff {abi : Option AbiShape} {t : ObjectType} {l : Layout} (ha : t.accepted)
    (hs : ∀ a, abi = some a → t.reprCFieldSupported ∧ a.fits t) (hl : target.layoutOfType t = .ok l) :
    ObjectType.Everywhere (ObjectAgrees dl target) abi t ↔ ObjectType.Everywhere CBoolIsByte abi t := by
  have here := @ObjectAgrees.cBoolIsByte dl target ht hdl abi t l ha hs hl
  obtain ⟨hv, hl'⟩ := Target.TargetInfo.layoutOfType_eq_ok hl
  induction t using ObjectType.induct generalizing abi l
  case leaf t hleaf =>
    rw [ObjectType.everywhere_leaf hleaf, ObjectType.everywhere_leaf hleaf]
    refine ⟨here, fun hb => ?_⟩
    apply ObjectAgrees.of_layout
    · rintro header fields rfl
      cases hleaf
    · intro l storage hl h
      have hl' := (Target.TargetInfo.layoutOfType_eq_ok hl).2
      apply storageType_layout ht hdl ha hs hl hb _ _ h
      · rintro s rfl
        obtain ⟨_, _, he, _⟩ := AbiShape.fits_array (hs _ rfl).2
        rw [he] at hleaf
        cases hleaf
      · exact fun _ => storageType_leaf ht hdl (Target.TargetInfo.layoutImpl_leaf hleaf hl')
  case array element size ih =>
    obtain ⟨_, l', hle, _⟩ := Target.TargetInfo.layoutImpl_array hl'
    have hle := Target.TargetInfo.layoutOfType_of_layoutImpl hv hle
    have hse : ∀ a, ObjectType.elementAbi abi = some a → element.reprCFieldSupported ∧ a.fits element := by
      intro a he
      obtain ⟨hsup, hfit⟩ := hs (.array a) (ObjectType.elementAbi_eq_some he)
      simp only [ObjectType.reprCFieldSupported, Bool.and_eq_true] at hsup
      exact ⟨hsup.2, hfit⟩
    have hE : ObjectType.Everywhere (ObjectAgrees dl target) (ObjectType.elementAbi abi) element ↔
        ObjectType.Everywhere CBoolIsByte (ObjectType.elementAbi abi) element :=
      ih ha hse hle (ObjectAgrees.cBoolIsByte ht hdl ha hse hle) (Target.TargetInfo.layoutOfType_eq_ok hle).2
    rw [ObjectType.everywhere_array, ObjectType.everywhere_array, hE]
    apply and_congr_left
    intro hb
    exact ⟨here, objectAgrees_array ht hdl ha hs (hE.mpr hb).here⟩
  case enum isReprC backingAbi backing ih =>
    rw [ObjectType.everywhere_enum, ObjectType.everywhere_enum]
    refine ⟨here, fun hb => ?_⟩
    apply ObjectAgrees.of_layout (fun _ _ h => by cases h)
    intro l storage hl h
    apply storageType_layout ht hdl ha hs hl hb _ _ h
    · rintro s rfl
      obtain ⟨_, _, he, _⟩ := AbiShape.fits_array (hs _ rfl).2
      cases he
    · exact fun _ => storageType_enum ht hdl (ObjectType.accepted_backing ha) hl
  case struct header fields ih =>
    obtain ⟨_, ls, hls, _⟩ := Target.TargetInfo.layoutImpl_struct hl'
    have hF : ∀ f ∈ fields,
        (ObjectType.Everywhere (ObjectAgrees dl target) (if header.isReprC then some f.abi else none) f.type ↔
          ObjectType.Everywhere CBoolIsByte (if header.isReprC then some f.abi else none) f.type) := by
      intro f hm
      obtain ⟨l', hl'⟩ := Target.TargetInfo.fieldLayouts_mem hls hm
      have hl := Target.TargetInfo.layoutOfType_of_layoutImpl hv hl'
      obtain ⟨hf, hsf⟩ := ObjectType.accepted_field ha hm
      exact ih f hm hf hsf hl (ObjectAgrees.cBoolIsByte ht hdl hf hsf hl) (Target.TargetInfo.layoutOfType_eq_ok hl).2
    rw [ObjectType.everywhere_struct, ObjectType.everywhere_struct, forall₂_congr hF]
    apply and_congr_left
    intro hb
    exact ⟨here, objectAgrees_struct ht hdl ha hs fun f hm => ((hF f hm).mpr (hb f hm)).here⟩

end Everywhere

theorem layouts_agree_iff (config : Target.TargetConfig) {dl : DataLayout}
    (hdl : dl.Agrees (Target.targetInfoFromConfig config)) {abi : Option AbiShape} {t : ObjectType} {l : Layout}
    (ha : t.accepted) (hs : ∀ a, abi = some a → t.reprCFieldSupported ∧ a.fits t)
    (hl : (Target.targetInfoFromConfig config).layoutOfType t = .ok l) :
    ObjectType.Everywhere (ObjectAgrees dl (Target.targetInfoFromConfig config)) abi t ↔
      ObjectType.Everywhere CBoolIsByte abi t :=
  everywhere_agrees_iff (Target.TargetInfo.targetInfoFromConfig_natural config) hdl ha hs hl

section X86_64

def x86_64Linux : Target.TargetConfig :=
  ⟨.x86_64, .linux, .sysv⟩

def x86_64DataLayout : DataLayout where
  pointerSize  := 8
  pointerAlign := 8
  integerAlign := fun bits => if bits ≤ 8 then 1 else if bits ≤ 16 then 2 else if bits ≤ 32 then 4 else 8
  floatAlign   := 4
  doubleAlign  := 8
  vectorAlign  := fun count => count

theorem x86_64DataLayout_agrees : x86_64DataLayout.Agrees (Target.targetInfoFromConfig x86_64Linux) where
  pointerSize  := rfl
  pointerAlign := rfl
  bool         := rfl
  integer      := by decide
  float        := rfl
  double       := rfl

def reprCHeader : StructHeader where
  isReprC      := true
  isPacked     := false
  isUnion      := false
  isIncomplete := false
  align        := 0
  unionReprC   := fun _ => rfl
  plain        := fun h => Bool.noConfusion h
  alignPower   := fun h => absurd h (Nat.lt_irrefl 0)

-- `#repr(c) Entry :: struct { count: u16, used: c_bool }`
def entry : ObjectType :=
  .struct reprCHeader [⟨.u16, .semantic⟩, ⟨.bool, .cScalar .bool⟩]

theorem entry_layout : (Target.targetInfoFromConfig x86_64Linux).layoutOfType entry = .ok ⟨4, 2⟩ := by
  rfl

theorem entry_cBoolIsByte : ObjectType.Everywhere CBoolIsByte none entry := by
  apply ObjectType.everywhere_struct.mpr
  simp [CBoolIsByte, reprCHeader, ObjectType.Everywhere, ObjectType.isByte]

theorem entry_layouts_agree :
    ObjectType.Everywhere (ObjectAgrees x86_64DataLayout (Target.targetInfoFromConfig x86_64Linux)) none entry :=
  (layouts_agree_iff x86_64Linux x86_64DataLayout_agrees rfl (fun _ h => by cases h) entry_layout).mpr entry_cBoolIsByte

-- `#repr(c) c_bool :: struct { word: u64 }`
def wordBool : ObjectType :=
  .struct reprCHeader [⟨.u64, .semantic⟩]

-- `#repr(c) Flag :: struct { value: c_bool }`
def flag : ObjectType :=
  .struct reprCHeader [⟨wordBool, .cScalar .bool⟩]

theorem flag_layouts_disagree :
    flag.accepted ∧ (Target.targetInfoFromConfig x86_64Linux).layoutOfType flag = .ok ⟨8, 8⟩ ∧
      storageType x86_64DataLayout (Target.targetInfoFromConfig x86_64Linux) none flag = some (.struct false [.int 8]) ∧
      x86_64DataLayout.layout (.struct false [.int 8]) = ⟨1, 1⟩ ∧
      ¬ObjectAgrees x86_64DataLayout (Target.targetInfoFromConfig x86_64Linux) none flag := by
  have hl : (Target.targetInfoFromConfig x86_64Linux).layoutOfType flag = .ok ⟨8, 8⟩ := by
    rfl
  have hs : storageType x86_64DataLayout (Target.targetInfoFromConfig x86_64Linux) none flag =
      some (.struct false [.int 8]) := by
    simp [storageType, flag, wordBool, reprCHeader, Ir.lowerType, Ir.lowerFields, Ir.lowerField, Ir.lowerHeader, lowerType,
      lowerCFields, lowerCObjectType, cBoolStorageType, lowerReprCStruct, wrapExplicitAlignment, x86_64Linux,
      Target.targetInfoFromConfig]
  have hb : x86_64DataLayout.layout (.struct false [.int 8]) = ⟨1, 1⟩ := by
    rfl
  refine ⟨rfl, hl, hs, hb, fun h => ?_⟩
  have := h.layout _ _ hl hs
  rw [hb] at this
  cases this

end X86_64

end Coglet.Backend.Llvm
