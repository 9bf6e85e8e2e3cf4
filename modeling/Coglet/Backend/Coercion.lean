import Coglet.Backend.LayoutAgreement
import Coglet.Backend.SysVPassing
import Coglet.Backend.SysVUsedBytes
import Coglet.Lib.ByteChunks

open StructLayout RegisterPassing ByteChunks
open Coglet.Ir (AggregateHeader)
open Coglet.Target (AbiShape ObjectField TargetInfo)

-- Aggregates that are split into registers and joined from them.

namespace Coglet.Backend.Llvm

namespace DataLayout

variable (dl : DataLayout)

-- The bytes that a load or a store of a type touches.
def storeSize : LlvmType → Nat
  | .int bits => (bits + 7) / 8
  | .float => 4
  | .double => 8
  | type => (dl.layout type).size

mutual

-- The bytes of a type that are not padding.
def isDataByte : LlvmType → Nat → Bool
  | .array element length, k =>
    k < length * (dl.layout element).size && isDataByte element (k % (dl.layout element).size)
  | .struct isPacked fields, k => isDataByteOfFields isPacked 0 fields k
  | type, k => k < dl.storeSize type

def isDataByteOfFields (isPacked : Bool) (stop : Nat) : List LlvmType → Nat → Bool
  | [], _ => false
  | field :: fields, k =>
    let offset := roundUp stop (fieldAlign isPacked (dl.layout field))
    (offset ≤ k && k < offset + (dl.layout field).size && isDataByte field (k - offset)) ||
      isDataByteOfFields isPacked (offset + (dl.layout field).size) fields k

end

def holdsByte (type : LlvmType) (k : Nat) : Bool :=
  k < (dl.layout type).size && dl.isDataByte type k

end DataLayout

-- A value has no padding.
structure LlvmValue (dl : DataLayout) (type : LlvmType) where
  bytes   : Bytes UInt8
  padding : ∀ k, dl.holdsByte type k = false → bytes k = none

namespace LlvmValue

variable {dl : DataLayout} {type : LlvmType}

-- `LLVMConstNull`
def null : LlvmValue dl type where
  bytes k := if dl.holdsByte type k then some 0 else none
  padding k h := by simp [h]

-- The padding in memory becomes undefined.
def store (memory : Bytes UInt8) (value : LlvmValue dl type) : Bytes UInt8 :=
  fun k => if k < (dl.layout type).size then value.bytes k else memory k

def load (memory : Bytes UInt8) : LlvmValue dl type where
  bytes k := if dl.holdsByte type k then memory k else none
  padding k h := by simp [h]

end LlvmValue

section Split

variable (dl : DataLayout) (plan : LlvmCAbiValuePlan) {storage : LlvmType}

def splitAggregateValue (value : LlvmValue dl storage) : List (List (Option UInt8)) :=
  readEach 8 (value.store fun _ => none) 0 (plan.components.map dl.storeSize)

end Split

-- The slot is null first.
def joinAggregateComponents {dl : DataLayout} {storage : LlvmType} (components : List (List (Option UInt8))) :
    LlvmValue dl storage :=
  .load (writeEach 8 ((@LlvmValue.null dl storage).store fun _ => none) 0 components)

section Fields

variable (dl : DataLayout) (target : TargetInfo)

def InObject (abi : AbiShape) (runtime : Ir.ObjectType) (base k : Nat) : Prop :=
  base ≤ k ∧ k < base + (objectLayout dl target abi runtime).size

mutual

-- The bytes of the fields that are no aggregates themselves.
def FieldByte (abi : AbiShape) (runtime : Ir.ObjectType) (base k : Nat) : Prop :=
  match runtime with
  | .array element length =>
    match abi with
    | .array elementAbi =>
      ∃ i < length, FieldByte elementAbi element (base + (objectLayout dl target elementAbi element).size * i) k
    | abi => InObject dl target abi (.array element length) base k
  | .aggregate header fields =>
    match abi with
    | .semantic | .cScalar _ =>
      if abi ≠ .cScalar .bool ∧ header.isReprC then FieldByteOfFields header fields base 0 fields k
      else InObject dl target abi (.aggregate header fields) base k
    | abi => InObject dl target abi (.aggregate header fields) base k
  | runtime => InObject dl target abi runtime base k

def FieldByteOfField (base k : Nat) : ObjectField Ir.ObjectType → Prop
  | ⟨type, abi⟩ => FieldByte abi type base k

def FieldByteOfFields (header : AggregateHeader) (all : List (ObjectField Ir.ObjectType)) (base index : Nat) :
    List (ObjectField Ir.ObjectType) → Nat → Prop
  | [], _ => False
  | field :: fields, k => FieldByteOfField (base + memberOffset dl target header all index) k field ∨
      FieldByteOfFields header all base (index + 1) fields k

end

-- The scalars of the types that the fields have been resolved to fit the storage of the fields.
structure ScalarsFit (abi : AbiShape) (runtime : Ir.ObjectType) : Prop where
  reach  : ∀ k, FieldByte dl target abi runtime 0 k → ∃ f, Finds dl target abi runtime 0 f ∧ f.Reaches (k / 8) (k % 8)
  inside : ∀ offset size cls, Finds dl target abi runtime 0 (.scalar offset size cls) → 0 < size →
    offset + size ≤ (objectLayout dl target abi runtime).size
  -- An eightbyte of floats is passed as one or two floats.
  floats : ∀ k, (∀ f, Finds dl target abi runtime 0 f → ¬f.In k .integer) → ∀ offset size,
    Finds dl target abi runtime 0 (.scalar offset size .sse) → (Finding.scalar offset size .sse).In k .sse →
    roundUp (min (offset + size) (k * 8 + 8)) 4 ≤ (objectLayout dl target abi runtime).size

structure CoercesExactly (isWin64 : Bool) (abi : AbiShape) (runtime : Ir.ObjectType) (plan : LlvmCAbiValuePlan) :
    Prop where
  inside   : ∀ (i : Nat) (component : LlvmType), plan.components[i]? = some component →
    8 * i + dl.storeSize component ≤ (objectLayout dl target abi runtime).size
  covered  : isWin64 = false → ∀ out,
    sysvClassification dl target abi runtime (objectLayout dl target abi runtime).size = some out →
    ∀ k, FieldByte dl target abi runtime 0 k → k % 8 < out.usedBytes (k / 8)
  restores : ∀ storage ∈ plan.storageType, ∀ value : LlvmValue dl storage, ∀ k, FieldByte dl target abi runtime 0 k →
    (joinAggregateComponents (splitAggregateValue dl plan value) : LlvmValue dl storage).bytes k = value.bytes k

end Fields

section Restore

variable {dl : DataLayout} {plan : LlvmCAbiValuePlan} {storage : LlvmType}

-- A byte in a register is restored. Padding is undefined before and afterwards.
theorem join_split {i k : Nat} {component : LlvmType} (value : LlvmValue dl storage)
    (hc : plan.components[i]? = some component) (hl : 8 * i ≤ k) (hr : k < 8 * i + dl.storeSize component) :
    (joinAggregateComponents (splitAggregateValue dl plan value) : LlvmValue dl storage).bytes k = value.bytes k := by
  have hsize : (plan.components.map dl.storeSize)[i]? = some (dl.storeSize component) := by
    rw [List.getElem?_map, hc]
    rfl
  have hcopy : writeEach 8 ((@LlvmValue.null dl storage).store fun _ => none) 0
      (readEach 8 (value.store fun _ => none) 0 (plan.components.map dl.storeSize)) k = value.store (fun _ => none) k :=
    writeEach_readEach hsize (by omega) (by omega)
  unfold joinAggregateComponents LlvmValue.load splitAggregateValue
  dsimp only
  cases hb : dl.holdsByte storage k
  case false =>
    rw [value.padding k hb]
    rfl
  case true =>
    have hs : k < (dl.layout storage).size := by
      simp only [DataLayout.holdsByte, Bool.and_eq_true, decide_eq_true_eq] at hb
      exact hb.1
    rw [if_pos rfl, hcopy, LlvmValue.store, if_pos hs]

end Restore

section FirstByte

variable {dl : DataLayout} {target : TargetInfo}

-- A struct that takes memory begins with a field that does.
theorem exists_first_of_extent {isPacked : Bool} {fields : List Layout} (h : 0 < extent isPacked 0 fields) :
    ∃ (i : Nat) (l : Layout), fields[i]? = some l ∧ 0 < l.size ∧ (offsets isPacked 0 fields)[i]? = some 0 := by
  induction fields
  case nil => cases h
  case cons field fields ih =>
    rw [extent, roundUp_zero, Nat.zero_add] at h
    rw [offsets, roundUp_zero, Nat.zero_add]
    cases hs : field.size
    case succ => exact ⟨0, field, rfl, by omega, rfl⟩
    case zero =>
      rw [hs] at h
      obtain ⟨i, l, hl, hp, ho⟩ := ih h
      exact ⟨i + 1, l, hl, hp, ho⟩

theorem exists_pos_of_maxSize {fields : List Layout} (h : 0 < maxSize 0 fields) : ∃ l ∈ fields, 0 < l.size := by
  by_contra hn
  push Not at hn
  have := maxSize_le (Nat.le_refl 0) hn
  omega

theorem size_pos_of_wrap {header : AggregateHeader} {inner wrapped : LlvmType}
    (h : wrapExplicitAlignment dl header inner = some wrapped) (hp : 0 < (dl.layout wrapped).size) :
    0 < (dl.layout inner).size := by
  unfold wrapExplicitAlignment at h
  split at h
  case isTrue =>
    cases h
    exact hp
  case isFalse =>
    obtain ⟨marker, hm, rfl⟩ := Option.map_eq_some_iff.mp h
    have hz : (dl.layout marker).size = 0 := by
      unfold alignmentMarkerType at hm
      split at hm
      case isTrue =>
        cases hm
        simp [DataLayout.layout, Layout.padded]
      case isFalse =>
        split at hm
        case isTrue => cases hm
        case isFalse =>
          cases hm
          simp [DataLayout.layout, Layout.padded]
    by_contra hn
    rw [layout_pair, struct_pair, hz, Nat.eq_zero_of_not_pos hn] at hp
    simp [Layout.padded] at hp

theorem UnionScan.carrier_mem {fields : List LlvmType} {scan : UnionScan} {carrier : LlvmType}
    (h : (fields.foldl (UnionScan.add dl) scan).carrier = some carrier) :
    carrier ∈ fields ∨ scan.carrier = some carrier := by
  induction fields generalizing scan
  case nil => exact .inr h
  case cons field fields ih =>
    rcases ih h with hm | hs
    · exact .inl (.tail _ hm)
    · unfold UnionScan.add at hs
      dsimp only at hs
      split at hs
      case isTrue =>
        cases hs
        exact .inl (.head _)
      case isFalse =>
        cases hc : scan.carrier <;> rw [hc] at hs <;> cases hs
        · exact .inl (.head _)
        · exact .inr rfl

theorem layouts_eq_map (types : List LlvmType) : dl.layouts types = types.map dl.layout := by
  induction types
  case nil => rfl
  case cons type types ih => rw [DataLayout.layouts, ih, List.map_cons]

-- A union that takes memory has a field that does.
theorem exists_pos_of_union {header : AggregateHeader} {types : List LlvmType} {storage : LlvmType}
    (h : lowerReprCUnion dl header types = some storage) (hp : 0 < (dl.layout storage).size) :
    ∃ type ∈ types, 0 < (dl.layout type).size := by
  obtain ⟨inner, hb, hw⟩ := Option.bind_eq_some_iff.mp h
  have hpos := size_pos_of_wrap hw hp
  have ⟨hsize, _⟩ := @UnionScan.foldl_add dl types ⟨0, 1, none⟩
  have ofMax (hm : 0 < (types.foldl (UnionScan.add dl) ⟨0, 1, none⟩).maxSize) :
      ∃ type ∈ types, 0 < (dl.layout type).size := by
    obtain ⟨l, hl, hs⟩ := exists_pos_of_maxSize (hsize ▸ hm)
    rw [layouts_eq_map] at hl
    obtain ⟨type, ht, rfl⟩ := List.mem_map.mp hl
    exact ⟨type, ht, hs⟩
  unfold UnionScan.body at hb
  split at hb
  case isTrue =>
    cases hb
    apply ofMax
    by_contra hn
    rw [layout_singleton, struct_singleton, DataLayout.layout, Nat.eq_zero_of_not_pos hn] at hpos
    simp [Layout.padded] at hpos
  case isFalse =>
    obtain ⟨carrier, hc, rfl⟩ := Option.map_eq_some_iff.mp hb
    split at hpos
    case isTrue hlt => exact ofMax (by omega)
    case isFalse =>
      have hm : carrier ∈ types := by
        rcases UnionScan.carrier_mem hc with hm | hn
        · exact hm
        · cases hn
      refine ⟨carrier, hm, ?_⟩
      by_contra hn
      rw [layout_singleton, struct_singleton, Nat.eq_zero_of_not_pos hn] at hpos
      simp [Layout.padded] at hpos

variable {header : AggregateHeader} {fields all : List (ObjectField Ir.ObjectType)}

theorem fieldByteOfFields_iff {base index k : Nat} :
    FieldByteOfFields dl target header all base index fields k ↔ ∃ (i : Nat) (field : ObjectField Ir.ObjectType),
      fields[i]? = some field ∧
        FieldByte dl target field.abi field.type (base + memberOffset dl target header all (index + i)) k := by
  induction fields generalizing index
  case nil => simp [FieldByteOfFields]
  case cons field fields ih =>
    cases field with
    | mk type abi =>
      rw [FieldByteOfFields, FieldByteOfField, ih]
      constructor
      case mp =>
        rintro (h | ⟨i, f, hf, h⟩)
        · exact ⟨0, _, rfl, h⟩
        · exact ⟨i + 1, f, hf, by rwa [Nat.add_assoc, Nat.add_comm 1] at h⟩
      case mpr =>
        rintro ⟨i, f, hf, h⟩
        cases i
        case zero =>
          cases hf
          exact .inl h
        case succ i => exact .inr ⟨i, f, hf, by rwa [Nat.add_assoc, Nat.add_comm 1]⟩

theorem lowerCFields_get {types : List LlvmType} (h : lowerCFields dl target fields = some types) {i : Nat}
    {type : LlvmType} (hi : types[i]? = some type) :
    ∃ field, fields[i]? = some field ∧ lowerCObjectType dl target field.abi field.type = some type := by
  induction fields generalizing types i
  case nil =>
    rw [lowerCFields] at h
    cases h
    cases hi
  case cons field fields ih =>
    cases field with
    | mk runtime abi =>
      rw [lowerCFields] at h
      obtain ⟨first, hf, h⟩ := Option.bind_eq_some_iff.mp h
      obtain ⟨rest, hr, h⟩ := Option.bind_eq_some_iff.mp h
      cases h
      cases i
      case zero =>
        cases hi
        exact ⟨_, rfl, hf⟩
      case succ i => exact ih hr hi

theorem lowerCFields_get_of_field {types : List LlvmType} (h : lowerCFields dl target fields = some types) {i : Nat}
    {field : ObjectField Ir.ObjectType} (hi : fields[i]? = some field) :
    ∃ type, types[i]? = some type ∧ lowerCObjectType dl target field.abi field.type = some type := by
  induction fields generalizing types i
  case nil => cases hi
  case cons first fields ih =>
    cases first with
    | mk runtime abi =>
      rw [lowerCFields] at h
      obtain ⟨first, hf, h⟩ := Option.bind_eq_some_iff.mp h
      obtain ⟨rest, hr, h⟩ := Option.bind_eq_some_iff.mp h
      cases h
      cases i
      case zero =>
        cases hi
        exact ⟨_, rfl, hf⟩
      case succ i => exact ih hr hi

-- The fields of an aggregate that is stored with a C layout.
theorem lowerCObjectType_aggregate {abi : AbiShape} {storage : LlvmType}
    (ha : abi = .semantic ∨ ∃ kind ≠ .bool, abi = .cScalar kind) (hr : header.isReprC)
    (h : lowerCObjectType dl target abi (.aggregate header fields) = some storage) :
    ∃ types, lowerCFields dl target fields = some types ∧
      (if header.isUnion then lowerReprCUnion dl header types else lowerReprCStruct dl header types) = some storage := by
  have h : lowerType dl target (.aggregate header fields) = some storage := by
    rcases ha with rfl | ⟨kind, hk, rfl⟩
    · rwa [lowerCObjectType] at h <;> simp
    · rw [lowerCObjectType] at h
      · exact h
      · simp [hk]
  rw [lowerType, if_pos hr] at h
  split at h
  case isTrue => cases h
  case isFalse =>
    obtain ⟨types, ht, h⟩ := Option.bind_eq_some_iff.mp h
    refine ⟨types, ht, ?_⟩
    split at h
    case isTrue hu => rw [if_pos hu, h]
    case isFalse hu => rw [if_neg hu, h]

theorem objectLayout_pos {abi : AbiShape} {runtime : Ir.ObjectType} (h : 0 < (objectLayout dl target abi runtime).size) :
    ∃ storage, lowerCObjectType dl target abi runtime = some storage ∧ 0 < (dl.layout storage).size := by
  cases hs : lowerCObjectType dl target abi runtime
  case none => simp [objectLayout, hs] at h
  case some storage => exact ⟨storage, rfl, objectLayout_eq hs ▸ h⟩

theorem exists_field_at_zero {abi : AbiShape} (ha : abi = .semantic ∨ ∃ kind ≠ .bool, abi = .cScalar kind)
    (hr : header.isReprC) (h : 0 < (objectLayout dl target abi (.aggregate header fields)).size) :
    ∃ (i : Nat) (field : ObjectField Ir.ObjectType), fields[i]? = some field ∧
      0 < (objectLayout dl target field.abi field.type).size ∧ memberOffset dl target header fields i = 0 := by
  obtain ⟨storage, hs, hp⟩ := objectLayout_pos h
  obtain ⟨types, ht, hs⟩ := lowerCObjectType_aggregate ha hr hs
  cases hu : header.isUnion
  case true =>
    rw [hu, if_pos rfl] at hs
    obtain ⟨type, hm, hp⟩ := exists_pos_of_union hs hp
    obtain ⟨i, hi⟩ := List.getElem?_of_mem hm
    obtain ⟨field, hf, hl⟩ := lowerCFields_get ht hi
    exact ⟨i, field, hf, objectLayout_eq hl ▸ hp, by rw [memberOffset, hu, if_pos rfl]⟩
  case false =>
    rw [hu, if_neg Bool.false_ne_true] at hs
    have hp := size_pos_of_wrap hs hp
    have he : 0 < extent header.isPacked 0 (dl.layouts types) := by
      by_contra hn
      rw [DataLayout.layout, StructLayout.struct, Nat.eq_zero_of_not_pos hn] at hp
      simp [Layout.padded] at hp
    obtain ⟨i, l, hl, hpos, ho⟩ := exists_first_of_extent he
    rw [layouts_eq_map, List.getElem?_map] at hl
    obtain ⟨type, hi, rfl⟩ := Option.map_eq_some_iff.mp hl
    obtain ⟨field, hf, hl⟩ := lowerCFields_get ht hi
    refine ⟨i, field, hf, objectLayout_eq hl ▸ hpos, ?_⟩
    rw [memberOffset, hu, if_neg Bool.false_ne_true, structFieldOffset, if_pos hr, reprCFieldOffset, ht]
    exact congrArg (·.getD 0) ho

-- An object that takes memory begins with a byte of a field.
theorem fieldByte_first {abi : AbiShape} {runtime : Ir.ObjectType} {base : Nat}
    (h : 0 < (objectLayout dl target abi runtime).size) : FieldByte dl target abi runtime base base := by
  induction runtime using Ir.ObjectType.induct generalizing abi base
  case leaf t ht =>
    have hin : InObject dl target abi t base base := ⟨Nat.le_refl _, by omega⟩
    cases t <;> first | exact hin | cases ht
  case enum => exact ⟨Nat.le_refl _, by omega⟩
  case array element length ih =>
    have hin : InObject dl target abi (.array element length) base base := ⟨Nat.le_refl _, by omega⟩
    cases abi
    case array elementAbi =>
      obtain ⟨storage, hs, hp⟩ := objectLayout_pos h
      rw [lowerCObjectType] at hs
      obtain ⟨e, he, rfl⟩ := Option.map_eq_some_iff.mp hs
      have hne : length * (dl.layout e).size ≠ 0 := by
        intro hz
        rw [DataLayout.layout, hz] at hp
        simp [Layout.padded] at hp
      have hl : 0 < length := Nat.pos_of_ne_zero fun hz => hne (by rw [hz, Nat.zero_mul])
      have hsz : 0 < (objectLayout dl target elementAbi element).size :=
        Nat.pos_of_ne_zero fun hz => hne (by rw [← objectLayout_eq he, hz, Nat.mul_zero])
      exact ⟨0, hl, ih hsz⟩
    all_goals exact hin
  case aggregate header fields ih =>
    have hin : InObject dl target abi (.aggregate header fields) base base := ⟨Nat.le_refl _, by omega⟩
    have hfields (ha : abi = .semantic ∨ ∃ kind ≠ .bool, abi = .cScalar kind) (hr : header.isReprC) :
        FieldByteOfFields dl target header fields base 0 fields base := by
      obtain ⟨i, field, hf, hp, ho⟩ := exists_field_at_zero ha hr h
      rw [fieldByteOfFields_iff]
      refine ⟨i, field, hf, ?_⟩
      rw [Nat.zero_add, ho]
      exact ih field (List.mem_of_getElem? hf) hp
    cases abi
    case semantic =>
      rw [FieldByte]
      split
      case isTrue hc => exact hfields (.inl rfl) hc.2
      case isFalse => exact hin
    case cScalar kind =>
      rw [FieldByte]
      split
      case isTrue hc => exact hfields (.inr ⟨kind, fun hk => hc.1 (hk ▸ rfl), rfl⟩) hc.2
      case isFalse => exact hin
    all_goals exact hin

end FirstByte

section Registers

variable {dl : DataLayout} {target : TargetInfo} {out : SysVClassification}

-- The bytes of the register that an eightbyte is passed in.
def registerSize (cls : SysVClass) (used : Nat) : Nat :=
  if cls = .sse then if used ≤ 4 then 4 else 8 else used

theorem storeSize_sysvComponent {cls : SysVClass} {used : Nat} {component : LlvmType}
    (h : sysvComponent cls used = some component) : dl.storeSize component = registerSize cls used := by
  unfold sysvComponent at h
  split at h
  case h_1 =>
    cases h
    rw [DataLayout.storeSize, registerSize, if_neg (by simp)]
    omega
  case h_2 =>
    cases h
    rw [registerSize, if_pos rfl]
    split <;> rfl
  all_goals cases h

theorem sysvComponents_ne_nil {eightbytes : List Nat} {components : List LlvmType}
    (h : sysvComponents out eightbytes = some components) (hn : components ≠ []) :
    ∃ k ∈ eightbytes, out.classes k ≠ .noClass := by
  induction eightbytes generalizing components
  case nil =>
    cases h
    exact absurd rfl hn
  case cons k ks ih =>
    rw [sysvComponents] at h
    split at h
    case isTrue =>
      obtain ⟨k', hk, hc⟩ := ih h hn
      exact ⟨k', .tail _ hk, hc⟩
    case isFalse hk => exact ⟨k, .head _, fun hc => hk (.inl hc)⟩

theorem storeSize_pos {eightbytes : List Nat} {components : List LlvmType}
    (h : sysvComponents out eightbytes = some components) : ∀ component ∈ components, 0 < dl.storeSize component := by
  induction eightbytes generalizing components
  case nil =>
    cases h
    exact fun _ h => nomatch h
  case cons k ks ih =>
    rw [sysvComponents] at h
    split at h
    case isTrue => exact ih h
    case isFalse hk =>
      obtain ⟨first, hf, h⟩ := Option.bind_eq_some_iff.mp h
      obtain ⟨rest, hr, h⟩ := Option.bind_eq_some_iff.mp h
      cases h
      refine List.forall_mem_cons.mpr ⟨?_, ih hr⟩
      rw [storeSize_sysvComponent hf, registerSize]
      split
      case isTrue => split <;> decide
      case isFalse => exact Nat.pos_of_ne_zero fun hz => hk (.inr hz)

-- The first eightbyte is classified, so every eightbyte is passed in the register of the same number.
theorem sysvComponents_get {components : List LlvmType} (hc : out.Consistent) (h0 : out.classes 0 ≠ .noClass)
    (h : sysvComponents out [0, 1] = some components) {i : Nat} {component : LlvmType} :
    components[i]? = some component ↔
      i < 2 ∧ out.classes i ≠ .noClass ∧ sysvComponent (out.classes i) (out.usedBytes i) = some component := by
  have hu : ¬(out.classes 0 = .noClass ∨ out.usedBytes 0 = 0) := by
    rw [hc.used, or_self]
    exact h0
  rw [sysvComponents, if_neg hu] at h
  obtain ⟨first, hf, h⟩ := Option.bind_eq_some_iff.mp h
  obtain ⟨rest, hr, h⟩ := Option.bind_eq_some_iff.mp h
  cases h
  rw [sysvComponents] at hr
  split at hr
  case isTrue h1 =>
    have h1 : out.classes 1 = .noClass := h1.elim id (hc.used 1).mp
    cases hr
    rcases i with _ | _ | i
    · simp [hf, h0]
    · simp [h1]
    · simp
  case isFalse h1 =>
    have h1 : out.classes 1 ≠ .noClass := fun h => h1 (.inl h)
    obtain ⟨second, hs, h⟩ := Option.bind_eq_some_iff.mp hr
    cases h
    rcases i with _ | _ | i
    · simp [hf, h0]
    · simp [hs, h1]
    · simp

end Registers

section Sysv

variable {dl : DataLayout} {target : TargetInfo} {abi : AbiShape} {runtime : Ir.ObjectType} {out : SysVClassification}

-- What is known of an aggregate that is not passed in memory.
structure InRegisters (dl : DataLayout) (target : TargetInfo) (abi : AbiShape) (runtime : Ir.ObjectType)
    (out : SysVClassification) (components : List LlvmType) : Prop where
  marks      : Marks (Finds dl target abi runtime 0) .empty out
  uses       : Uses (Finds dl target abi runtime 0) .empty out
  memory     : out.memory = false
  registers  : sysvComponents out [0, 1] = some components
  nonempty   : components ≠ []

namespace InRegisters

variable {components : List LlvmType} (h : InRegisters dl target abi runtime out components)
include h

theorem used_iff {k n : Nat} : n < out.usedBytes k ↔ ∃ f, Finds dl target abi runtime 0 f ∧ f.Reaches k n := by
  rw [h.uses.used h.memory]
  simp [SysVClassification.empty]

theorem scalar_le {offset size : Nat} {cls : RegClass} (hf : Finds dl target abi runtime 0 (.scalar offset size cls))
    (hs : 0 < size) : offset + size ≤ 16 := by
  by_contra hl
  have hm := h.marks.memory.mpr ⟨_, hf, hs, Nat.lt_of_not_le hl⟩
  exact Bool.noConfusion (h.memory.symm.trans hm)

theorem class_ne_iff {k : Nat} : out.classes k ≠ .noClass ↔ 0 < out.usedBytes k := by
  rw [Nat.pos_iff_ne_zero, Ne, Ne, h.marks.consistent.used]

theorem class_ne_of_reaches {k n : Nat} {f : Finding} (hf : Finds dl target abi runtime 0 f) (hr : f.Reaches k n) :
    out.classes k ≠ .noClass :=
  h.class_ne_iff.mpr (Nat.lt_of_le_of_lt (Nat.zero_le n) (h.used_iff.mpr ⟨f, hf, hr⟩))

theorem integer_iff {k : Nat} (hk : k < 2) :
    out.classes k = .integer ↔ ∃ f, Finds dl target abi runtime 0 f ∧ f.In k .integer := by
  rw [h.marks.integer h.memory k hk]
  simp [SysVClassification.empty]

theorem class_eq_sse {k : Nat} (hn : out.classes k ≠ .noClass) (hi : out.classes k ≠ .integer) :
    out.classes k = .sse := by
  have hm := h.marks.consistent.memory k
  cases hc : out.classes k
  case sse => rfl
  all_goals contradiction

theorem used_le {k : Nat} : out.usedBytes k ≤ 8 := by
  by_contra hl
  obtain ⟨f, _, hr⟩ := h.used_iff.mp (Nat.lt_of_not_le hl)
  cases f
  case scalar => exact absurd hr.1 (Nat.lt_irrefl 8)
  all_goals exact hr

theorem used_le_registerSize {k : Nat} : out.usedBytes k ≤ registerSize (out.classes k) (out.usedBytes k) := by
  have := h.used_le (k := k)
  unfold registerSize
  split
  case isTrue => split <;> omega
  case isFalse => exact Nat.le_refl _

theorem reach_iff {F : Nat → Prop} : (∀ k, F k → k % 8 < out.usedBytes (k / 8)) ↔
    ∀ k, F k → ∃ f, Finds dl target abi runtime 0 f ∧ f.Reaches (k / 8) (k % 8) :=
  forall₂_congr fun _ _ => h.used_iff

-- Every eightbyte is passed in a register that lies in the storage exactly when its scalars do.
theorem registers_inside_iff {bound : Nat} :
    (∀ k, out.classes k ≠ .noClass → 8 * k + registerSize (out.classes k) (out.usedBytes k) ≤ bound) ↔
      (∀ offset size cls, Finds dl target abi runtime 0 (.scalar offset size cls) → 0 < size → offset + size ≤ bound) ∧
      ∀ k, (∀ f, Finds dl target abi runtime 0 f → ¬f.In k .integer) → ∀ offset size,
        Finds dl target abi runtime 0 (.scalar offset size .sse) → (Finding.scalar offset size .sse).In k .sse →
        roundUp (min (offset + size) (k * 8 + 8)) 4 ≤ bound := by
  constructor
  case mp =>
    intro hb
    refine ⟨fun offset size cls hf hs => ?_, fun k hk offset size hf hin => ?_⟩
    · -- The register of the last eightbyte that the scalar has bytes in.
      have hr : (Finding.scalar offset size cls).Reaches ((offset + size - 1) / 8) ((offset + size - 1) % 8) := by
        unfold Finding.Reaches
        omega
      have hu := h.used_iff.mpr ⟨_, hf, hr⟩
      have := hb _ (h.class_ne_of_reaches hf hr)
      have := h.used_le_registerSize (k := (offset + size - 1) / 8)
      omega
    · obtain ⟨-, hs, hl, hr⟩ := hin
      have h16 := h.scalar_le hf hs
      have hn := h.class_ne_of_reaches (k := k) (n := 0) hf ⟨by omega, hs, hl, by omega⟩
      have hc : out.classes k = .sse := by
        apply h.class_eq_sse hn
        rw [Ne, h.integer_iff (by omega)]
        exact fun ⟨f, hf, hi⟩ => hk f hf hi
      have hb := hb k hn
      rw [hc, registerSize, if_pos rfl] at hb
      by_cases h4 : k * 8 + 4 < offset + size
      case pos =>
        have hu := h.used_iff.mpr ⟨_, hf, (⟨by omega, hs, hl, h4⟩ : (Finding.scalar offset size .sse).Reaches k 4)⟩
        rw [if_neg (Nat.not_le_of_lt hu)] at hb
        have := @roundUp_le (min (offset + size) (k * 8 + 8)) 4 (k * 8 + 8) (Nat.min_le_right _ _) (by omega)
        omega
      case neg =>
        have := @roundUp_le (min (offset + size) (k * 8 + 8)) 4 (k * 8 + 4) (by omega) (by omega)
        split at hb <;> omega
  case mpr =>
    rintro ⟨hi, hf⟩ k hn
    have hpos := h.class_ne_iff.mp hn
    by_cases hc : out.classes k = .integer
    case pos =>
      rw [hc, registerSize, if_neg (by simp)]
      obtain ⟨f, hfind, hr⟩ := h.used_iff.mp (Nat.sub_one_lt_of_lt hpos)
      cases f
      case scalar offset size cls =>
        have := hi offset size cls hfind hr.2.1
        have := hr.2.2.2
        omega
      all_goals exact hr.elim
    case neg =>
      have hk : ∀ f, Finds dl target abi runtime 0 f → ¬f.In k .integer := by
        intro f hfind hin
        cases f
        case scalar offset size cls =>
          have := h.scalar_le hfind hin.2.1
          exact hc ((h.integer_iff (by have := hin.2.2.2; omega)).mpr ⟨_, hfind, hin⟩)
        all_goals exact hin
      -- A float that reaches a byte takes the half of the register that the byte is in.
      have half (n : Nat) (hu : n < out.usedBytes k) (hn4 : n % 4 = 0) : k * 8 + n + 4 ≤ bound := by
        obtain ⟨f, hfind, hr⟩ := h.used_iff.mp hu
        cases f
        case scalar offset size cls =>
          obtain ⟨h8, hs, hl, hr⟩ := hr
          cases cls
          case integer => exact absurd ⟨rfl, hs, hl, by omega⟩ (hk _ hfind)
          case sse =>
            have := hf k hk offset size hfind ⟨rfl, hs, hl, by omega⟩
            have hle := @le_roundUp (min (offset + size) (k * 8 + 8)) 4 (by decide)
            have hd := @dvd_roundUp (min (offset + size) (k * 8 + 8)) 4
            omega
        all_goals exact hr.elim
      rw [h.class_eq_sse hn hc, registerSize, if_pos rfl]
      split
      case isTrue => have := half 0 hpos rfl; omega
      case isFalse h4 => have := half 4 (by omega) rfl; omega

theorem lt_two_of_class {k : Nat} (hn : out.classes k ≠ .noClass) : k < 2 := by
  obtain ⟨f, hf, hr⟩ := h.used_iff.mp (h.class_ne_iff.mp hn)
  cases f
  case scalar =>
    have := h.scalar_le hf hr.2.1
    have := hr.2.2.2
    omega
  all_goals exact hr.elim

theorem exists_register {k : Nat} (hn : out.classes k ≠ .noClass) :
    ∃ component, sysvComponent (out.classes k) (out.usedBytes k) = some component := by
  by_cases hi : out.classes k = .integer
  case pos => exact ⟨_, by rw [hi, sysvComponent]⟩
  case neg => exact ⟨_, by rw [h.class_eq_sse hn hi, sysvComponent]⟩

theorem get_of_class {k : Nat} (h0 : out.classes 0 ≠ .noClass) (hn : out.classes k ≠ .noClass) :
    ∃ component, components[k]? = some component ∧
      dl.storeSize component = registerSize (out.classes k) (out.usedBytes k) := by
  obtain ⟨component, hc⟩ := h.exists_register hn
  exact ⟨component, (sysvComponents_get h.marks.consistent h0 h.registers).mpr ⟨h.lt_two_of_class hn, hn, hc⟩,
    storeSize_sysvComponent hc⟩

theorem components_inside_iff {bound : Nat} (h0 : out.classes 0 ≠ .noClass) :
    (∀ (i : Nat) (component : LlvmType), components[i]? = some component → 8 * i + dl.storeSize component ≤ bound) ↔
      ∀ k, out.classes k ≠ .noClass → 8 * k + registerSize (out.classes k) (out.usedBytes k) ≤ bound := by
  constructor
  case mp =>
    intro hb k hn
    obtain ⟨component, hc, hs⟩ := h.get_of_class h0 hn
    exact hs ▸ hb k component hc
  case mpr =>
    intro hb i component hc
    obtain ⟨_, hn, hr⟩ := (sysvComponents_get h.marks.consistent h0 h.registers).mp hc
    rw [storeSize_sysvComponent hr]
    exact hb i hn

theorem exists_class : ∃ k, out.classes k ≠ .noClass := by
  obtain ⟨k, _, hn⟩ := sysvComponents_ne_nil h.registers h.nonempty
  exact ⟨k, hn⟩

-- The first component takes memory.
theorem size_pos_of_inside {bound : Nat}
    (hb : ∀ (i : Nat) (component : LlvmType), components[i]? = some component →
      8 * i + dl.storeSize component ≤ bound) : 0 < bound := by
  obtain ⟨component, rest, hc⟩ := List.exists_cons_of_ne_nil h.nonempty
  have := hb 0 component (hc ▸ rfl)
  have := @storeSize_pos dl out _ _ h.registers component (hc ▸ .head _)
  omega

theorem size_pos_of_fit (hf : ScalarsFit dl target abi runtime) : 0 < (objectLayout dl target abi runtime).size := by
  obtain ⟨k, hn⟩ := h.exists_class
  obtain ⟨f, hfind, hr⟩ := h.used_iff.mp (h.class_ne_iff.mp hn)
  cases f
  case scalar offset size cls =>
    have := hf.inside offset size cls hfind hr.2.1
    have := hr.2.1
    omega
  all_goals exact hr.elim

theorem first_class (hp : 0 < (objectLayout dl target abi runtime).size)
    (hr : ∀ k, FieldByte dl target abi runtime 0 k → ∃ f, Finds dl target abi runtime 0 f ∧ f.Reaches (k / 8) (k % 8)) :
    out.classes 0 ≠ .noClass := by
  obtain ⟨f, hf, hr⟩ := hr 0 (fieldByte_first hp)
  exact h.class_ne_of_reaches hf hr

end InRegisters

theorem classifySysvAggregate_inRegisters {isReturn : Bool} {plan : LlvmCAbiValuePlan}
    (h : classifySysvAggregate dl target abi runtime isReturn = some plan) (hk : plan.kind = .coerce) :
    ∃ out, sysvClassification dl target abi runtime (objectLayout dl target abi runtime).size = some out ∧
      InRegisters dl target abi runtime out plan.components := by
  obtain ⟨storage, hs, h⟩ := Option.bind_eq_some_iff.mp h
  obtain ⟨out, hcls, h⟩ := Option.bind_eq_some_iff.mp h
  rw [← objectLayout_eq hs] at hcls h
  refine ⟨out, hcls, ?_⟩
  split at h
  case isTrue =>
    cases h
    cases hk
  case isFalse hm =>
    have hm := Bool.eq_false_of_not_eq_true hm
    obtain ⟨components, hcomp, h⟩ := Option.bind_eq_some_iff.mp h
    split at h
    case isTrue => cases h
    case isFalse hne =>
      cases h
      unfold sysvClassification at hcls
      split at hcls
      case isTrue =>
        cases hcls
        cases hm
      case isFalse =>
        exact ⟨classifySysvObject_marks abi 0 _ _ hcls rfl empty_consistent,
          classifySysvObject_accounts Uses.account abi 0 _ _ hcls rfl empty_consistent, hm, hcomp,
          fun he => hne (List.isEmpty_iff.mpr he)⟩

theorem coercesExactly_sysv_iff {isReturn : Bool} {plan : LlvmCAbiValuePlan}
    (h : classifySysvAggregate dl target abi runtime isReturn = some plan) (hk : plan.kind = .coerce) :
    CoercesExactly dl target false abi runtime plan ↔ ScalarsFit dl target abi runtime := by
  obtain ⟨out, hcls, hin⟩ := classifySysvAggregate_inRegisters h hk
  constructor
  case mp =>
    intro hc
    have hr := hin.reach_iff.mp (hc.covered rfl out hcls)
    have h0 := hin.first_class (hin.size_pos_of_inside hc.inside) hr
    have ⟨hi, hf⟩ := hin.registers_inside_iff.mp ((hin.components_inside_iff h0).mp hc.inside)
    exact ⟨hr, hi, hf⟩
  case mpr =>
    intro hf
    have h0 := hin.first_class (hin.size_pos_of_fit hf) hf.reach
    refine ⟨?_, ?_, ?_⟩
    · exact (hin.components_inside_iff h0).mpr (hin.registers_inside_iff.mpr ⟨hf.inside, hf.floats⟩)
    · intro _ out' hcls'
      cases hcls.symm.trans hcls'
      exact hin.reach_iff.mpr hf.reach
    · intro storage _ value k hbyte
      obtain ⟨f, hfind, hr⟩ := hf.reach k hbyte
      have hn := hin.class_ne_of_reaches hfind hr
      have hu := hin.used_iff.mpr ⟨f, hfind, hr⟩
      have hle := hin.used_le_registerSize (k := k / 8)
      obtain ⟨component, hc, hs⟩ := hin.get_of_class h0 hn
      apply join_split value hc <;> omega

end Sysv

section Win64

variable {dl : DataLayout} {target : TargetInfo} {abi : AbiShape} {runtime : Ir.ObjectType}

theorem coercesExactly_win64 {isReturn : Bool} {plan : LlvmCAbiValuePlan}
    (h : classifyWin64Aggregate dl target abi runtime isReturn = some plan) (hk : plan.kind = .coerce) :
    CoercesExactly dl target true abi runtime plan := by
  obtain ⟨storage, hs, h⟩ := Option.bind_eq_some_iff.mp h
  dsimp only at h
  split at h
  case isFalse =>
    cases h
    cases hk
  case isTrue =>
    cases h
    have hsize : dl.storeSize (.int ((dl.layout storage).size * 8)) = (objectLayout dl target abi runtime).size := by
      rw [objectLayout_eq hs, DataLayout.storeSize]
      omega
    constructor
    case inside =>
      intro i component hc
      cases i
      case zero =>
        cases hc
        omega
      case succ => cases hc
    case covered => exact fun h => Bool.noConfusion h
    case restores =>
      rintro _ ⟨⟩ value k _
      by_cases hl : k < (objectLayout dl target abi runtime).size
      case pos => exact join_split (i := 0) value rfl (Nat.zero_le k) (by omega)
      case neg =>
        have hb : dl.holdsByte storage k = false := by
          rw [objectLayout_eq hs] at hl
          simp [DataLayout.holdsByte, hl]
        rw [value.padding k hb]
        exact LlvmValue.padding _ k hb

end Win64

-- Splitting and joining is exact for all aggregates of the Windows convention. For the System V convention it is so
-- exactly when the scalars that the classification finds fit the storage.
theorem coercesExactly_iff (dl : DataLayout) (target : TargetInfo) (isWin64 isReturn : Bool) (abi : AbiShape)
    (runtime : Ir.ObjectType) (plan : LlvmCAbiValuePlan)
    (h : (if isWin64 then classifyWin64Aggregate dl target abi runtime isReturn
      else classifySysvAggregate dl target abi runtime isReturn) = some plan) (hk : plan.kind = .coerce) :
    CoercesExactly dl target isWin64 abi runtime plan ↔ (isWin64 = false → ScalarsFit dl target abi runtime) := by
  cases isWin64
  case false =>
    rw [coercesExactly_sysv_iff h hk]
    exact ⟨fun hf _ => hf, fun hf => hf rfl⟩
  case true => exact iff_of_true (coercesExactly_win64 h hk) fun h => Bool.noConfusion h

end Coglet.Backend.Llvm
