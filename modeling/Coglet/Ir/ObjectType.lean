import Coglet.Target.Layout

open Coglet.Target (AbiShape ObjectField TargetInfo)

namespace Coglet.Ir

structure AggregateHeader where
  isUnion           : Bool
  isComplete        : Bool
  isIncomplete      : Bool
  isReprC           : Bool
  isPacked          : Bool
  explicitAlignment : Nat
deriving DecidableEq, Repr

-- A runtime type of the intermediate representation as an object in memory.
inductive ObjectType
  | void | bool
  | integer (bits : Nat) (isSigned : Bool)
  | float (bits : Nat)
  | pointer | opaquePointer
  | array (element : ObjectType) (length : Nat)
  | function
  | enum (backing : ObjectType) (isReprC : Bool) (backingAbi : AbiShape)
  | aggregate (header : AggregateHeader) (fields : List (ObjectField ObjectType))

namespace ObjectType

-- The types that contain no other types.
def isLeaf : ObjectType → Bool
  | array .. | enum .. | aggregate .. => false
  | _ => true

@[elab_as_elim]
theorem induct {P : ObjectType → Prop} (leaf : ∀ t, t.isLeaf → P t) (array : ∀ e n, P e → P (array e n))
    (enum : ∀ b r a, P b → P (enum b r a)) (aggregate : ∀ h fs, (∀ f ∈ fs, P f.type) → P (aggregate h fs))
    (t : ObjectType) : P t := by
  apply ObjectType.rec (motive_1 := P) (motive_2 := fun fs => ∀ f ∈ fs, P f.type) (motive_3 := fun f => P f.type)
  all_goals first | exact leaf _ rfl | skip
  case integer => exact fun _ _ => leaf _ rfl
  case float => exact fun _ => leaf _ rfl
  case array => exact array
  case enum => exact enum
  case aggregate => exact aggregate
  case nil => exact fun _ h => nomatch h
  case cons =>
    intro f fs hf hfs g hg
    cases hg
    case head => exact hf
    case tail hg => exact hfs g hg
  case mk => exact fun _ _ h => h

end ObjectType

def fixedIntegerTypeForBits (bits : Nat) : Option ObjectType :=
  if bits = 8 ∨ bits = 16 ∨ bits = 32 ∨ bits = 64 then some (.integer bits false) else none

def sliceHeader : AggregateHeader where
  isUnion           := false
  isComplete        := true
  isIncomplete      := false
  isReprC           := false
  isPacked          := false
  explicitAlignment := 0

-- The layout attributes are kept for `#repr(c)` aggregates only.
def lowerHeader (header : Target.StructHeader) : AggregateHeader where
  isUnion           := header.isUnion
  isComplete        := !header.isIncomplete
  isIncomplete      := header.isIncomplete
  isReprC           := header.isReprC
  isPacked          := if header.isReprC then header.isPacked else false
  explicitAlignment := if header.isReprC then header.align else 0

mutual

-- `cog_ir_lower_type`, together with the definition of the nominal types
def lowerType (target : TargetInfo) : Target.ObjectType → Option ObjectType
  | .void => some .void
  | .bool => some .bool
  | .s8 => some (.integer 8 true)
  | .s16 => some (.integer 16 true)
  | .s32 => some (.integer 32 true)
  | .s64 => some (.integer 64 true)
  | .u8 => some (.integer 8 false)
  | .u16 => some (.integer 16 false)
  | .u32 => some (.integer 32 false)
  | .u64 => some (.integer 64 false)
  | .f32 => some (.float 32)
  | .f64 => some (.float 64)
  | .pointer => some .pointer
  | .opaquePointer => some .opaquePointer
  | .function _ => some .function
  | .array element size =>
    if size < 0 then none else (lowerType target element).map (.array · size.toNat)
  | .slice => do
    let length ← fixedIntegerTypeForBits target.pointerBits
    some (.aggregate sliceHeader [⟨.pointer, .semantic⟩, ⟨length, .semantic⟩])
  | .enum isReprC backingAbi backing => (lowerType target backing).map (.enum · isReprC backingAbi)
  | .struct header fields =>
    if header.isIncomplete then
      some (.aggregate (lowerHeader header) [])
    else
      (lowerFields target fields).map (.aggregate (lowerHeader header))

def lowerField (target : TargetInfo) : ObjectField Target.ObjectType → Option (ObjectField ObjectType)
  | ⟨type, abi⟩ => (lowerType target type).map (⟨·, abi⟩)

def lowerFields (target : TargetInfo) : List (ObjectField Target.ObjectType) → Option (List (ObjectField ObjectType))
  | [] => some []
  | field :: fields => do
    let field ← lowerField target field
    let fields ← lowerFields target fields
    some (field :: fields)

end

section Lowering

variable {target : TargetInfo} {t : Target.ObjectType} {runtime : ObjectType}

theorem lowerType_slice (h : lowerType target .slice = some runtime) :
    ∃ length, fixedIntegerTypeForBits target.pointerBits = some length ∧
      runtime = .aggregate sliceHeader [⟨.pointer, .semantic⟩, ⟨length, .semantic⟩] := by
  have ⟨length, hl, hr⟩ := Option.bind_eq_some_iff.mp h
  exact ⟨length, hl, (Option.some.inj hr).symm⟩

theorem lowerType_struct {header : Target.StructHeader} {fields : List (ObjectField Target.ObjectType)}
    (h : lowerType target (.struct header fields) = some runtime) :
    ∃ fields', runtime = .aggregate (lowerHeader header) fields' ∧
      (header.isIncomplete = false → lowerFields target fields = some fields') := by
  rw [lowerType] at h
  split at h
  case isTrue hi =>
    cases h
    exact ⟨[], rfl, fun hf => Bool.noConfusion (hf.symm.trans hi)⟩
  case isFalse =>
    have ⟨fields', hf, hr⟩ := Option.map_eq_some_iff.mp h
    exact ⟨fields', hr.symm, fun _ => hf⟩

theorem lowerType_eq_bool (h : lowerType target t = some .bool) : t = .bool := by
  cases t
  case bool => rfl
  case slice => have ⟨_, _, h⟩ := lowerType_slice h; cases h
  case struct => have ⟨_, h, _⟩ := lowerType_struct h; cases h
  all_goals simp [lowerType] at h

theorem lowerType_eq_enum {backing : ObjectType} {isReprC : Bool} {abi : AbiShape}
    (h : lowerType target t = some (.enum backing isReprC abi)) : ∃ backing, t = .enum isReprC abi backing := by
  cases t
  case enum =>
    simp only [lowerType, Option.map_eq_some_iff] at h
    obtain ⟨_, _, ⟨⟩⟩ := h
    exact ⟨_, rfl⟩
  case slice => have ⟨_, _, h⟩ := lowerType_slice h; cases h
  case struct => have ⟨_, h, _⟩ := lowerType_struct h; cases h
  all_goals simp [lowerType] at h

theorem lowerFields_forall₂ {fields : List (ObjectField Target.ObjectType)} {runtime : List (ObjectField ObjectType)}
    (h : lowerFields target fields = some runtime) :
    List.Forall₂ (fun f r => lowerType target f.type = some r.type ∧ r.abi = f.abi) fields runtime := by
  induction fields generalizing runtime
  case nil =>
    cases h
    exact .nil
  case cons field fields ih =>
    have ⟨r, hr, h⟩ := Option.bind_eq_some_iff.mp h
    have ⟨rs, hrs, h⟩ := Option.bind_eq_some_iff.mp h
    cases h
    refine .cons ?_ (ih hrs)
    cases field
    have ⟨r', hr', he⟩ := Option.map_eq_some_iff.mp hr
    cases he
    exact ⟨hr', rfl⟩

theorem lowerFields_isSome {fields : List (ObjectField Target.ObjectType)}
    (h : ∀ f ∈ fields, ∃ runtime, lowerType target f.type = some runtime) :
    ∃ runtime, lowerFields target fields = some runtime := by
  induction fields
  case nil => exact ⟨[], rfl⟩
  case cons field fields ih =>
    have ⟨r, hr⟩ := h field (.head _)
    have ⟨rs, hrs⟩ := ih fun f hf => h f (.tail _ hf)
    cases field with
    | mk type abi => exact ⟨⟨r, abi⟩ :: rs, by simp [lowerFields, lowerField, hr, hrs]⟩

-- What has a layout can be lowered.
theorem lowerType_isSome (ht : target.Natural) {depth : Nat} {l : StructLayout.Layout}
    (h : target.layoutImpl depth t = .ok l) : ∃ runtime, lowerType target t = some runtime := by
  induction t using Target.ObjectType.induct generalizing depth l
  case leaf t hl =>
    cases t <;> cases hl
    case slice => cases ht.pointerBits <;> simp_all [lowerType, fixedIntegerTypeForBits]
    all_goals exact ⟨_, rfl⟩
  case array element size ih =>
    have ⟨hs, l', hl', _⟩ := Target.TargetInfo.layoutImpl_array h
    have ⟨r, hr⟩ := ih hl'
    exact ⟨.array r size.toNat, by simp [lowerType, hr, Int.not_lt.mpr hs]⟩
  case enum isReprC abi backing ih =>
    have ⟨r, hr⟩ := ih (Target.TargetInfo.layoutImpl_enum h)
    exact ⟨.enum r isReprC abi, by simp [lowerType, hr]⟩
  case struct header fields ih =>
    have ⟨hi, ls, hls, _⟩ := Target.TargetInfo.layoutImpl_struct h
    have hf : ∀ f ∈ fields, ∃ runtime, lowerType target f.type = some runtime := by
      intro f hm
      have ⟨l, hl⟩ := Target.TargetInfo.fieldLayouts_mem hls hm
      exact ih f hm hl
    have ⟨rs, hrs⟩ := lowerFields_isSome hf
    exact ⟨.aggregate (lowerHeader header) rs, by simp [lowerType, hi, hrs]⟩

end Lowering
end Coglet.Ir
