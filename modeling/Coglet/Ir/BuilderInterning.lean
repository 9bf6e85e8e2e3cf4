import Coglet.Ir.BuilderAtomic
import Coglet.Lib.Consing

-- The tables of types, ABI types and constants never hold the same content twice.

namespace Coglet.Ir.Builder

open Attempt Interning
open Ast (SourceSpan)

section Shapes

-- What a structural type says apart from the types that it is made of.
inductive TypeShape
  | void | bool
  | integer (bits : Nat) (isSigned : Bool)
  | float (bits : Nat)
  | pointer (isReadonly isVolatile : Bool)
  | opaquePointer (isReadonly isVolatile : Bool)
  | array (length : Nat)
  | function (abi : CogIrAbiRepresentation) (callingConvention : CogIrCallingConvention) (isVariadic : Bool)

def typeShape : CogIrType → Option TypeShape
  | .void => some .void
  | .bool => some .bool
  | .integer bits isSigned => some (.integer bits isSigned)
  | .float bits => some (.float bits)
  | .pointer _ isReadonly isVolatile => some (.pointer isReadonly isVolatile)
  | .opaquePointer isReadonly isVolatile => some (.opaquePointer isReadonly isVolatile)
  | .array _ length => some (.array length)
  | .function _ _ abi callingConvention isVariadic => some (.function abi callingConvention isVariadic)
  | .nominal .. => none

def typeChildren : CogIrType → List CogIrTypeId
  | .pointer pointee .. => [pointee]
  | .array elementType _ => [elementType]
  | .function resultType parameterTypes .. => resultType :: parameterTypes
  | _ => []

structure AbiShape where
  kind        : CogIrAbiTypeKind
  cScalarKind : CogIrCScalarKind
  runtimeType : Unfolding TypeShape

def abiChildren (type : CogIrAbiType) : List CogIrAbiTypeId :=
  match type.kind with
  | .pointer | .array => [type.elementType]
  | .function => type.returnType :: type.parameterTypes
  | _ => []

-- The fields that a kind of ABI type does not use have fixed values.
structure CogIrAbiType.Normal (type : CogIrAbiType) : Prop where
  cScalarKind    : type.kind ≠ .cScalar → type.cScalarKind = .none
  elementType    : type.kind ≠ .pointer → type.kind ≠ .array → type.elementType = COG_IR_ID_INVALID
  parameterTypes : type.kind ≠ .function → type.parameterTypes = []
  returnType     : type.kind ≠ .function → type.returnType = COG_IR_ID_INVALID

inductive ScalarPayload
  | zero
  | bool (value : Bool)
  | integer (bits : BitVec 64)
  | float32 (bits : BitVec 32)
  | float64 (bits : BitVec 64)
  | null

def scalar : CogIrConstant → Option (ScalarPayload × CogIrTypeId)
  | .zero type => some (.zero, type)
  | .bool type value => some (.bool value, type)
  | .integer type bits => some (.integer bits, type)
  | .float32 type bits => some (.float32 bits, type)
  | .float64 type bits => some (.float64 bits, type)
  | .null type => some (.null, type)
  | .array .. | .struct .. => none

def IsScalar (constant : CogIrConstant) : Prop :=
  (scalar constant).isSome

theorem typeShape_injective {a b : CogIrType} {s : TypeShape} (ha : typeShape a = some s) (hb : typeShape b = some s)
    (hc : typeChildren a = typeChildren b) : a = b := by
  have h := ha.trans hb.symm
  cases a
  case nominal => cases ha
  all_goals
    clear ha hb
    cases b <;> simp_all [typeShape, typeChildren]

theorem scalar_injective {a b : CogIrConstant} (ha : scalar a = some s) (hb : scalar b = some s) : a = b := by
  have h := ha.trans hb.symm
  cases a
  case array | struct => cases ha
  all_goals
    clear ha hb
    cases b <;> simp_all [scalar]

theorem typeShape_of_structural {a : CogIrType} (h : a.Structural) : ∃ s, typeShape a = some s := by
  cases a
  case nominal => exact h.elim
  all_goals exact ⟨_, rfl⟩

theorem CogIrAbiType.Normal.eq {a b : CogIrAbiType} (ha : a.Normal) (hb : b.Normal) (hk : a.kind = b.kind)
    (hs : a.cScalarKind = b.cScalarKind) (hr : a.runtimeType = b.runtimeType) (hc : abiChildren a = abiChildren b) :
    a = b := by
  obtain ⟨kind, runtimeType, cScalarKind, elementType, parameterTypes, returnType⟩ := a
  obtain ⟨kind', runtimeType', cScalarKind', elementType', parameterTypes', returnType'⟩ := b
  obtain ⟨_, ha₁, ha₂, ha₃⟩ := ha
  obtain ⟨_, hb₁, hb₂, hb₃⟩ := hb
  dsimp only at *
  subst hk hs hr
  cases kind <;> simp_all [abiChildren]

end Shapes

namespace Module

variable (m : Module)

def contents : List CogIrType :=
  m.types.items.map (·.content)

-- What the numbers of types, of ABI types and of constants stand for
def TypeDenotes : CogIrTypeId → Unfolding TypeShape → Prop :=
  Denotes CogIrType.Structural (fun type shape => typeShape type = some shape) typeChildren m.contents

def AbiShaped (type : CogIrAbiType) (shape : AbiShape) : Prop :=
  type.Normal ∧ type.kind = shape.kind ∧ type.cScalarKind = shape.cScalarKind ∧
    m.TypeDenotes type.runtimeType shape.runtimeType

def AbiTypeDenotes : CogIrAbiTypeId → Unfolding AbiShape → Prop :=
  Denotes (fun _ => True) m.AbiShaped abiChildren m.abiTypes.items

def ScalarShaped (constant : CogIrConstant) (shape : ScalarPayload × Unfolding TypeShape) : Prop :=
  ∃ type, scalar constant = some (shape.1, type) ∧ m.TypeDenotes type shape.2

def ConstantDenotes : CogIrConstId → Unfolding (ScalarPayload × Unfolding TypeShape) → Prop :=
  Denotes IsScalar m.ScalarShaped (fun _ => []) m.constants.items

-- The tables of a module between two calls
structure Interned : Prop where
  types           : Distinct CogIrType.Structural m.contents
  typesDescend    : Descends CogIrType.Structural typeChildren m.contents
  abiTypes        : Distinct (fun _ => True) m.abiTypes.items
  abiTypesDescend : Descends (fun _ => True) abiChildren m.abiTypes.items
  abiTypesValid   : ∀ type ∈ m.abiTypes.items, type.Normal ∧ type.runtimeType < m.types.items.length
  constants       : Distinct IsScalar m.constants.items
  constantsValid  : ∀ constant ∈ m.constants.items, ∀ payload type, scalar constant = some (payload, type) →
    type < m.types.items.length

variable {m : Module}

namespace Interned

theorem type_injective (h : m.Interned) (h₁ : m.TypeDenotes i τ) (h₂ : m.TypeDenotes j τ) : i = j :=
  h₁.injective h.types (fun _ _ _ _ _ => typeShape_injective) h₂

theorem abiType_injective (h : m.Interned) (h₁ : m.AbiTypeDenotes i τ) (h₂ : m.AbiTypeDenotes j τ) : i = j := by
  refine h₁.injective h.abiTypes (fun a b s _ _ ha hb hc => ?_) h₂
  exact ha.1.eq hb.1 (ha.2.1.trans hb.2.1.symm) (ha.2.2.1.trans hb.2.2.1.symm) (h.type_injective ha.2.2.2 hb.2.2.2) hc

theorem constant_injective (h : m.Interned) (h₁ : m.ConstantDenotes i τ) (h₂ : m.ConstantDenotes j τ) :
    i = j := by
  refine h₁.injective h.constants (fun a b s _ _ ⟨t, ha, ht⟩ ⟨t', hb, ht'⟩ _ => ?_) h₂
  cases h.type_injective ht ht'
  exact scalar_injective ha hb

theorem type_total (h : m.Interned) (hi : i < m.types.items.length) : ∃ τ, m.TypeDenotes i τ :=
  Denotes.total h.typesDescend (fun _ _ => typeShape_of_structural) (by simpa [contents] using hi)

theorem abiType_total (h : m.Interned) (hi : i < m.abiTypes.items.length) : ∃ τ, m.AbiTypeDenotes i τ := by
  refine Denotes.total h.abiTypesDescend (fun a ha _ => ?_) hi
  have ⟨hn, hr⟩ := h.abiTypesValid a ha
  have ⟨τ, hτ⟩ := h.type_total hr
  exact ⟨⟨a.kind, a.cScalarKind, τ⟩, hn, rfl, rfl, hτ⟩

theorem constant_total (h : m.Interned) (hi : i < m.constants.items.length) : ∃ τ, m.ConstantDenotes i τ := by
  refine Denotes.total (fun _ _ _ _ => nofun) (fun a ha hs => ?_) hi
  obtain ⟨⟨payload, type⟩, hp⟩ := Option.isSome_iff_exists.mp hs
  have ⟨τ, hτ⟩ := h.type_total (h.constantsValid a ha payload type hp)
  exact ⟨(payload, τ), type, hp, hτ⟩

end Interned

section Unique

theorem type_unique (h₁ : m.TypeDenotes i τ) (h₂ : m.TypeDenotes i τ') : τ = τ' :=
  h₁.unique (fun _ _ _ ha hb => Option.some.inj (ha.symm.trans hb)) h₂

theorem abiType_unique (h₁ : m.AbiTypeDenotes i τ) (h₂ : m.AbiTypeDenotes i τ') : τ = τ' := by
  refine h₁.unique (fun a s s' ha hb => ?_) h₂
  obtain ⟨kind, cScalarKind, runtimeType⟩ := s
  obtain ⟨kind', cScalarKind', runtimeType'⟩ := s'
  obtain ⟨_, rfl, rfl, ha⟩ := ha
  obtain ⟨_, rfl, rfl, hb⟩ := hb
  exact congrArg _ (type_unique ha hb)

theorem constant_unique (h₁ : m.ConstantDenotes i τ) (h₂ : m.ConstantDenotes i τ') : τ = τ' := by
  refine h₁.unique (fun a ⟨payload, tree⟩ ⟨payload', tree'⟩ ⟨t, ha, ht⟩ ⟨t', hb, ht'⟩ => ?_) h₂
  cases ha.symm.trans hb
  exact congrArg _ (type_unique ht ht')

end Unique

section Growth

-- What a later state of a module keeps. A nominal type is completed at most once.
structure Grown (m m' : Module) : Prop where
  types     : Extends CogIrType.Structural m.contents m'.contents
  nominal   : ∀ (i : CogIrTypeId) kind debugName body, m.contents[i]? = some (.nominal kind debugName body) →
    ∃ body', m'.contents[i]? = some (.nominal kind debugName body') ∧ (body ≠ .declared → body' = body)
  abiTypes  : Extends (fun _ => True) m.abiTypes.items m'.abiTypes.items
  constants : Extends (fun _ => True) m.constants.items m'.constants.items

namespace Grown

theorem refl : Grown m m where
  types                := .refl
  nominal _ _ _ body h := ⟨body, h, fun _ => rfl⟩
  abiTypes             := .refl
  constants            := .refl

theorem trans (h₁ : Grown m m') (h₂ : Grown m' m'') : Grown m m'' where
  types := h₁.types.trans h₂.types
  nominal i kind debugName body h := by
    obtain ⟨body', h', hb⟩ := h₁.nominal i kind debugName body h
    obtain ⟨body'', h'', hb'⟩ := h₂.nominal i kind debugName body' h'
    exact ⟨body'', h'', fun hd => (hb' (hb hd ▸ hd)).trans (hb hd)⟩
  abiTypes  := h₁.abiTypes.trans h₂.abiTypes
  constants := h₁.constants.trans h₂.constants

theorem typeDenotes (h : Grown m m') (ht : m.TypeDenotes i τ) : m'.TypeDenotes i τ :=
  ht.mono h.types fun _ _ => id

theorem abiTypeDenotes (h : Grown m m') (ht : m.AbiTypeDenotes i τ) : m'.AbiTypeDenotes i τ :=
  ht.mono h.abiTypes fun _ _ ⟨hn, hk, hs, hr⟩ => ⟨hn, hk, hs, h.typeDenotes hr⟩

theorem scalarExtends (h : Grown m m') : Extends IsScalar m.constants.items m'.constants.items where
  keyed i a ha _   := h.constants.keyed i a ha trivial
  unkeyed i a ha k := ⟨a, h.constants.keyed i a ha trivial, k⟩

theorem constantDenotes (h : Grown m m') (ht : m.ConstantDenotes i τ) : m'.ConstantDenotes i τ :=
  ht.mono h.scalarExtends fun _ _ ⟨type, hp, hr⟩ => ⟨type, hp, h.typeDenotes hr⟩

end Grown

end Growth

section Requests

inductive Request
  | type (content : CogIrType)
  | abiType (type : CogIrAbiType)
  | constant (constant : CogIrConstant)

def intern (m : Module) : Request → Module × Option Nat
  | .type content => m.internType content
  | .abiType type => m.internAbiType type
  | .constant constant => m.internScalarConstant constant

-- The parts of the content are known.
def Valid (m : Module) : Request → Prop
  | .type content => content.Structural ∧ ∀ c ∈ typeChildren content, (m.getType c).isSome
  | .abiType type =>
    type.Normal ∧ (m.getType type.runtimeType).isSome ∧ ∀ c ∈ abiChildren type, (m.getAbiType c).isSome
  | .constant constant => ∃ payload type, scalar constant = some (payload, type) ∧ (m.getType type).isSome

-- The content is the entry with the number.
def Holds (m : Module) (id : Nat) : Request → Prop
  | .type content => m.contents[id]? = some content
  | .abiType type => m.abiTypes.items[id]? = some type
  | .constant constant => m.constants.items[id]? = some constant

-- The entry is there already or is the new one at the end of its table.
theorem internType_cases (m : Module) (content : CogIrType) :
    m.internType content = fail m ∨ (∃ i, m.internType content = done m i ∧ m.contents[i]? = some content) ∨
      (content ∉ m.contents ∧ m.internType content =
        done { m with types := m.types.push ⟨content, sourceSpanInvalid⟩ } m.types.items.length) := by
  unfold internType
  obtain ⟨i, hi, hc⟩ | ⟨hn, hc⟩ := find_cases TypeEntry.content m.types.items content
  case inl =>
    simp only [hi]
    exact .inr (.inl ⟨i, rfl, hc⟩)
  case inr =>
    simp only [hn, appendType]
    split
    case isTrue => exact .inl rfl
    case isFalse => exact .inr (.inr ⟨hc, rfl⟩)

theorem internAbiType_cases (m : Module) (type : CogIrAbiType) :
    m.internAbiType type = fail m ∨ (∃ i, m.internAbiType type = done m i ∧ m.abiTypes.items[i]? = some type) ∨
      (type ∉ m.abiTypes.items ∧ m.internAbiType type =
        done { m with abiTypes := m.abiTypes.push type } m.abiTypes.items.length) := by
  unfold internAbiType
  obtain ⟨i, hi, hc⟩ | ⟨hn, hc⟩ := find_cases id m.abiTypes.items type
  case inl =>
    simp only [id] at hi
    simp only [hi]
    exact .inr (.inl ⟨i, rfl, by simpa using hc⟩)
  case inr =>
    simp only [id] at hn
    simp only [hn, appendAbiType]
    split
    case isTrue => exact .inl rfl
    case isFalse => exact .inr (.inr ⟨by simpa using hc, rfl⟩)

theorem internScalarConstant_cases (m : Module) (constant : CogIrConstant) :
    m.internScalarConstant constant = fail m ∨
      (∃ i, m.internScalarConstant constant = done m i ∧ m.constants.items[i]? = some constant) ∨
      (constant ∉ m.constants.items ∧ m.internScalarConstant constant =
        done { m with constants := m.constants.push constant } m.constants.items.length) := by
  unfold internScalarConstant
  obtain ⟨i, hi, hc⟩ | ⟨hn, hc⟩ := find_cases id m.constants.items constant
  case inl =>
    simp only [id] at hi
    simp only [hi]
    exact .inr (.inl ⟨i, rfl, by simpa using hc⟩)
  case inr =>
    simp only [id] at hn
    simp only [hn, appendConstant]
    split
    case isTrue => exact .inl rfl
    case isFalse => exact .inr (.inr ⟨by simpa using hc, rfl⟩)

end Requests

section TableSteps

theorem lt_of_lookup {items : List α} {id : Nat} (h : (lookup items id).isSome) : id < items.length := by
  obtain ⟨a, ha⟩ := Option.isSome_iff_exists.mp h
  exact (List.getElem?_eq_some_iff.mp (getElem?_of_lookup ha)).1

theorem lt_of_getType {id : CogIrTypeId} (h : (m.getType id).isSome) : id < m.types.items.length :=
  lt_of_lookup (by simpa [getType] using h)

-- What one call does to the tables
inductive TableStep (m : Module) : Module → Prop
  | same (types : m'.types = m.types) (abiTypes : m'.abiTypes = m.abiTypes) (constants : m'.constants = m.constants) :
      TableStep m m'
  | type (span : SourceSpan) (fresh : content.Structural → content ∉ m.contents)
      (children : content.Structural → ∀ c ∈ typeChildren content, c < m.types.items.length) :
      TableStep m { m with types := m.types.push ⟨content, span⟩ }
  | define (body : CogIrNominalBody) (entry : m.types.items[i]? = some ⟨.nominal kind debugName .declared, span⟩) :
      TableStep m (m.setType i ⟨.nominal kind debugName body, span⟩)
  | abiType (normal : type.Normal) (runtimeType : type.runtimeType < m.types.items.length)
      (children : ∀ c ∈ abiChildren type, c < m.abiTypes.items.length) (fresh : type ∉ m.abiTypes.items) :
      TableStep m { m with abiTypes := m.abiTypes.push type }
  | constant (valid : ∀ payload type, scalar constant = some (payload, type) → type < m.types.items.length)
      (fresh : IsScalar constant → constant ∉ m.constants.items) :
      TableStep m { m with constants := m.constants.push constant }

theorem contents_push (m : Module) (entry : TypeEntry) :
    { m with types := m.types.push entry }.contents = m.contents ++ [entry.content] := by
  simp [contents]

theorem contents_setType (m : Module) (i : Nat) (entry : TypeEntry) :
    (m.setType i entry).contents = m.contents.set i entry.content := by
  simp [contents, setType]

namespace TableStep

theorem interned (s : TableStep m m') (h : m.Interned) : m'.Interned := by
  cases s with
  | same types abiTypes constants =>
    have hc : m'.contents = m.contents := by rw [contents, types, contents]
    exact ⟨hc ▸ h.types, hc ▸ h.typesDescend, abiTypes ▸ h.abiTypes, abiTypes ▸ h.abiTypesDescend,
      abiTypes ▸ types ▸ h.abiTypesValid, constants ▸ h.constants, constants ▸ types ▸ h.constantsValid⟩
  | @type content span fresh children =>
    have hl {n : Nat} (hn : n < m.types.items.length) : n < (m.types.push ⟨content, span⟩).items.length := by
      simpa using Nat.lt_succ_of_lt hn
    exact
      { types           := contents_push .. ▸ h.types.append fresh
        typesDescend    := contents_push .. ▸ h.typesDescend.append (by simpa [contents] using children)
        abiTypes        := h.abiTypes
        abiTypesDescend := h.abiTypesDescend
        abiTypesValid   := fun type ht => (h.abiTypesValid type ht).imp_right hl
        constants       := h.constants
        constantsValid  := fun constant hc payload type hs => hl (h.constantsValid constant hc payload type hs) }
  | @define i kind name span body entry =>
    have hn : ¬CogIrType.Structural (.nominal kind name body) := id
    have hl {n : Nat} (hn : n < m.types.items.length) :
        n < (m.types.set i ⟨.nominal kind name body, span⟩).items.length := by
      simpa using hn
    exact
      { types           := contents_setType .. ▸ h.types.set hn
        typesDescend    := contents_setType .. ▸ h.typesDescend.set hn
        abiTypes        := h.abiTypes
        abiTypesDescend := h.abiTypesDescend
        abiTypesValid   := fun type ht => (h.abiTypesValid type ht).imp_right hl
        constants       := h.constants
        constantsValid  := fun constant hc payload type hs => hl (h.constantsValid constant hc payload type hs) }
  | @abiType type normal runtimeType children fresh =>
    refine { h with abiTypes := ?_, abiTypesDescend := ?_, abiTypesValid := fun type' ht => ?_ }
    case refine_1 => exact h.abiTypes.append fun _ => fresh
    case refine_2 => exact h.abiTypesDescend.append fun _ => children
    case refine_3 =>
      obtain ht | ht := List.mem_append.mp ht
      case inl => exact h.abiTypesValid type' ht
      case inr =>
        cases List.mem_singleton.mp ht
        exact ⟨normal, runtimeType⟩
  | @constant constant valid fresh =>
    refine { h with constants := ?_, constantsValid := fun constant' ht => ?_ }
    case refine_1 => exact h.constants.append fresh
    case refine_2 =>
      obtain ht | ht := List.mem_append.mp ht
      case inl => exact h.constantsValid constant' ht
      case inr => exact List.mem_singleton.mp ht ▸ valid

theorem grown (s : TableStep m m') : Grown m m' := by
  cases s with
  | same types abiTypes constants =>
    have hc : m'.contents = m.contents := by rw [contents, types, contents]
    exact
      { types     := hc ▸ .refl
        nominal   := fun _ _ _ body h => ⟨body, hc ▸ h, fun _ => rfl⟩
        abiTypes  := abiTypes ▸ .refl
        constants := constants ▸ .refl }
  | @type content span fresh children =>
    exact
      { types     := contents_push .. ▸ .append _
        nominal   := fun i _ _ body h =>
          ⟨body, contents_push .. ▸ (@Extends.append _ (fun _ => True) _ _).keyed i _ h trivial, fun _ => rfl⟩
        abiTypes  := .refl
        constants := .refl }
  | @define i kind name span body entry =>
    have ha : m.contents[i]? = some (.nominal kind name .declared) := by simp [contents, entry]
    refine
      { types     := contents_setType .. ▸ .set ha id id
        nominal   := fun j kind' name' body' h => ?_
        abiTypes  := .refl
        constants := .refl }
    rw [contents_setType]
    by_cases hij : i = j
    case neg => exact ⟨body', by rw [List.getElem?_set_ne hij, h], fun _ => rfl⟩
    case pos =>
      subst hij
      cases ha.symm.trans h
      exact ⟨body, by simp [(List.getElem?_eq_some_iff.mp h).1], fun hn => absurd rfl hn⟩
  | @abiType type normal runtimeType children fresh => exact { Grown.refl with abiTypes := .append _ }
  | @constant constant valid fresh => exact { Grown.refl with constants := .append _ }

end TableStep

end TableSteps

section Calls

-- The calls that look up what they are asked for
def Interns : Call → Prop
  | .typeVoid | .typeBool | .typeInteger .. | .typeFloat .. | .typePointer .. | .typeOpaquePointer .. | .typeArray ..
  | .typeFunction .. | .abiTypeSemantic .. | .abiTypeCScalar .. | .abiTypePointer .. | .abiTypeOpaquePointer ..
  | .abiTypeArray .. | .abiTypeFunction .. | .constZero .. | .constBool .. | .constInteger .. | .constFloat32 ..
  | .constFloat64 .. | .constNull .. => True
  | _ => False

-- What such a call asks for, if it does not refuse its arguments
def request (m : Module) : Call → Option Request
  | .typeVoid => some (.type .void)
  | .typeBool => some (.type .bool)
  | .typeInteger bits isSigned =>
    if bits = 8 ∨ bits = 16 ∨ bits = 32 ∨ bits = 64 then some (.type (.integer bits isSigned)) else none
  | .typeFloat bits => if bits = 32 ∨ bits = 64 then some (.type (.float bits)) else none
  | .typePointer pointee isReadonly isVolatile =>
    if (m.getType pointee).isSome then some (.type (.pointer pointee isReadonly isVolatile)) else none
  | .typeOpaquePointer isReadonly isVolatile => some (.type (.opaquePointer isReadonly isVolatile))
  | .typeArray elementType length =>
    if (m.getType elementType).isSome then some (.type (.array elementType length)) else none
  | .typeFunction result parameters abi convention variadic =>
    if (m.getType result).isSome ∧ parameters.missing = false ∧ ∀ c ∈ parameters.toList, (m.getType c).isSome then
      some (.type (.function result parameters.toList abi convention variadic))
    else none
  | .abiTypeSemantic runtimeType =>
    if (m.getType runtimeType).isSome then some (.abiType (abiTypeOf .semantic runtimeType)) else none
  | .abiTypeCScalar runtimeType scalar =>
    if (m.getType runtimeType).isSome ∧ scalar ≠ .none then
      some (.abiType { abiTypeOf .cScalar runtimeType with cScalarKind := scalar })
    else none
  | .abiTypePointer runtimeType elementType =>
    if (m.getType runtimeType).any isPointer ∧ (m.getAbiType elementType).isSome then
      some (.abiType { abiTypeOf .pointer runtimeType with elementType := elementType })
    else none
  | .abiTypeOpaquePointer runtimeType =>
    if (m.getType runtimeType).any isOpaquePointer then
      some (.abiType (abiTypeOf .opaquePointer runtimeType))
    else none
  | .abiTypeArray runtimeType elementType =>
    if (m.getType runtimeType).any isArray ∧ (m.getAbiType elementType).isSome then
      some (.abiType { abiTypeOf .array runtimeType with elementType := elementType })
    else none
  | .abiTypeFunction runtimeType returnType parameters =>
    if ((m.getAbiType returnType).isSome ∧
        ((m.getType runtimeType).bind functionType).any (parameters.count = ·.parameterTypes.length) ∧
        parameters.missing = false) ∧
        ∀ c ∈ parameters.toList, (m.getAbiType c).isSome then
      some (.abiType { abiTypeOf .function runtimeType with
        parameterTypes := parameters.toList
        returnType     := returnType })
    else none
  | .constZero type => if (m.getType type).isSome then some (.constant (.zero type)) else none
  | .constBool type value => if (m.getType type).any isBool then some (.constant (.bool type value)) else none
  | .constInteger type bits =>
    if (m.getType type).any isIntegerOrEnum then some (.constant (.integer type bits)) else none
  | .constFloat32 type bits =>
    if (m.getType type).any (isFloat 32) then some (.constant (.float32 type bits)) else none
  | .constFloat64 type bits =>
    if (m.getType type).any (isFloat 64) then some (.constant (.float64 type bits)) else none
  | .constNull type => if (m.getType type).any isNullable then some (.constant (.null type)) else none
  | _ => none

def answer (m : Module) : Option Request → Module × Option Reply
  | none => fail m
  | some r => number (m.intern r)

theorem answer_ite {c d : Prop} [Decidable c] [Decidable d] (r : Request) (h : c ↔ ¬d) :
    number (if c then fail m else m.intern r) = m.answer (if d then some r else none) := by
  by_cases hd : d
  case pos => rw [if_neg (fun hc => h.mp hc hd), if_pos hd, answer]
  case neg => rw [if_pos (h.mpr hd), if_neg hd, answer]; rfl

theorem answer_guard {c d d' : Prop} [Decidable c] [Decidable d] [Decidable d'] {r : Request} (h : c ↔ ¬d)
    (ha : number a = m.answer (if d' then some r else none)) :
    number (if c then fail m else a) = m.answer (if d ∧ d' then some r else none) := by
  by_cases hd : d
  case pos => rw [if_neg (fun hc => h.mp hc hd), ha]; simp only [hd, true_and]
  case neg => rw [if_pos (h.mpr hd), if_neg (fun hn => hd hn.1), answer]; rfl

theorem answer_typeFunction (hm : m.mutable) :
    m.step (.typeFunction result parameters abi convention variadic) =
      m.answer (m.request (.typeFunction result parameters abi convention variadic)) :=
  answer_guard (by simp [hm]) <| answer_guard (by simp) <|
    answer_ite (.type (.function result parameters.toList abi convention variadic)) (by simp)

theorem answer_abiTypeFunction (hm : m.mutable) :
    m.step (.abiTypeFunction runtimeType returnType parameters) =
      m.answer (m.request (.abiTypeFunction runtimeType returnType parameters)) := by
  cases ht : (m.getType runtimeType).bind functionType
  case none => simp [step, abiTypeFunction, request, ht, answer, number, fail]
  case some type =>
    rw [request]
    simp only [ht, step, abiTypeFunction]
    refine answer_guard (by simp [hm, -not_and, not_and_or, or_assoc]) (answer_ite (.abiType _) (by simp))

theorem step_request {call : Call} (hm : m.mutable) (hc : Interns call) : m.step call = m.answer (m.request call) := by
  cases call
  case typeVoid | typeBool | typeOpaquePointer => exact congrArg number (if_neg (by simp [hm]))
  case typeInteger bits isSigned => exact answer_ite (.type (.integer bits isSigned)) (by simp [hm, and_assoc])
  case typeFloat bits => exact answer_ite (.type (.float bits)) (by simp [hm])
  case typePointer p r v => exact answer_ite (.type (.pointer p r v)) (by simp [hm])
  case typeArray element length => exact answer_ite (.type (.array element length)) (by simp [hm])
  case typeFunction => exact answer_typeFunction hm
  case abiTypeSemantic => exact answer_ite (.abiType _) (by simp [hm])
  case abiTypeCScalar => exact answer_ite (.abiType _) (by simp [hm, -not_and, not_and_or])
  case abiTypePointer | abiTypeArray => exact answer_ite (.abiType _) (by simp [hm, -not_and, not_and_or])
  case abiTypeOpaquePointer => exact answer_ite (.abiType _) (by simp [hm])
  case abiTypeFunction => exact answer_abiTypeFunction hm
  case constZero | constBool | constInteger | constFloat32 | constFloat64 | constNull =>
    exact answer_ite (.constant _) (by simp [hm])
  all_goals exact hc.elim

theorem lt_of_getAbiType {id : CogIrAbiTypeId} (h : (m.getAbiType id).isSome) : id < m.abiTypes.items.length :=
  lt_of_lookup h

theorem intern_tableStep (h : m.Valid r) : TableStep m (m.intern r).1 := by
  cases r
  case type content =>
    obtain he | ⟨_, he, _⟩ | ⟨hn, he⟩ := internType_cases m content <;> rw [intern, he]
    case inl | inr.inl => exact .same rfl rfl rfl
    case inr.inr => exact .type _ (fun _ => hn) fun _ c hc => lt_of_getType (h.2 c hc)
  case abiType type =>
    obtain he | ⟨_, he, _⟩ | ⟨hn, he⟩ := internAbiType_cases m type <;> rw [intern, he]
    case inl | inr.inl => exact .same rfl rfl rfl
    case inr.inr => exact .abiType h.1 (lt_of_getType h.2.1) (fun c hc => lt_of_getAbiType (h.2.2 c hc)) hn
  case constant constant =>
    obtain he | ⟨_, he, _⟩ | ⟨hn, he⟩ := internScalarConstant_cases m constant <;> rw [intern, he]
    case inl | inr.inl => exact .same rfl rfl rfl
    case inr.inr =>
      obtain ⟨payload, type, hp, ht⟩ := h
      refine .constant (fun payload' type' hp' => ?_) fun _ => hn
      cases hp.symm.trans hp'
      exact lt_of_getType ht

theorem appendType_tableStep (kind : CogIrNominalKind) (debugName : String) (span : SourceSpan) :
    TableStep m (m.appendType ⟨.nominal kind debugName .declared, span⟩).1 := by
  unfold appendType
  split
  case isTrue => exact .same rfl rfl rfl
  case isFalse => exact .type span (fun h => h.elim) fun h => h.elim

theorem addAggregateConstant_tableStep (hk : ∀ type elements, scalar (kind type elements) = none) :
    TableStep m (m.addAggregateConstant kind type elements).1 := by
  unfold addAggregateConstant appendConstant
  split
  case isTrue => exact .same rfl rfl rfl
  case isFalse =>
    split
    case isTrue => exact .same rfl rfl rfl
    case isFalse =>
      split
      case isTrue => exact .same rfl rfl rfl
      case isFalse =>
        refine .constant (fun payload type hs => ?_) fun hs => ?_
        case refine_1 => cases (hk ..).symm.trans hs
        case refine_2 => simp [IsScalar, hk] at hs

theorem openAggregate_entry {id : CogIrTypeId} (h : m.openAggregate id = some (kind, debugName, span)) :
    m.types.items[id]? = some ⟨.nominal kind debugName .declared, span⟩ := by
  unfold openAggregate at h
  split at h
  case h_1 he =>
    cases h
    exact getElem?_of_lookup he
  case h_2 he =>
    cases h
    exact getElem?_of_lookup he
  case h_3 => cases h

theorem openEnum_entry {id : CogIrTypeId} (h : m.openEnum id = some (debugName, span)) :
    m.types.items[id]? = some ⟨.nominal .enum debugName .declared, span⟩ := by
  unfold openEnum at h
  split at h
  case h_1 he =>
    cases h
    exact getElem?_of_lookup he
  case h_2 => cases h

theorem of_ite {c : Prop} [Decidable c] {a : α} (h : (if c then some a else none) = some b) : c ∧ a = b := by
  split at h
  case isTrue hc => exact ⟨hc, Option.some.inj h⟩
  case isFalse => cases h

theorem isSome_of_any {x : Option α} {p : α → Bool} (h : x.any p) : x.isSome := by
  cases x
  case none => cases h
  case some => rfl

theorem abiTypeOf_normal (kind : CogIrAbiTypeKind) (runtimeType : CogIrTypeId) :
    (abiTypeOf kind runtimeType).Normal where
  cScalarKind _    := rfl
  elementType _ _  := rfl
  parameterTypes _ := rfl
  returnType _     := rfl

theorem request_valid {call : Call} (h : m.request call = some r) : m.Valid r := by
  cases call
  case typeVoid | typeBool | typeOpaquePointer =>
    cases h
    exact ⟨trivial, nofun⟩
  case typeInteger | typeFloat =>
    obtain ⟨_, rfl⟩ := of_ite h
    exact ⟨trivial, nofun⟩
  case typePointer | typeArray =>
    obtain ⟨hc, rfl⟩ := of_ite h
    exact ⟨trivial, by simpa [typeChildren] using hc⟩
  case typeFunction =>
    obtain ⟨⟨hr, _, hp⟩, rfl⟩ := of_ite h
    exact ⟨trivial, by simpa [typeChildren] using ⟨hr, hp⟩⟩
  case abiTypeSemantic =>
    obtain ⟨hc, rfl⟩ := of_ite h
    exact ⟨abiTypeOf_normal .., hc, nofun⟩
  case abiTypeCScalar =>
    obtain ⟨hc, rfl⟩ := of_ite h
    exact ⟨⟨fun h => absurd rfl h, fun _ _ => rfl, fun _ => rfl, fun _ => rfl⟩, hc.1, nofun⟩
  case abiTypeOpaquePointer =>
    obtain ⟨hc, rfl⟩ := of_ite h
    exact ⟨abiTypeOf_normal .., isSome_of_any hc, nofun⟩
  case abiTypePointer | abiTypeArray =>
    obtain ⟨hc, rfl⟩ := of_ite h
    refine ⟨⟨fun _ => rfl, fun h h' => ?_, fun _ => rfl, fun _ => rfl⟩, isSome_of_any hc.1, ?_⟩
    · simp [abiTypeOf] at h h'
    · simpa [abiChildren, abiTypeOf] using hc.2
  case abiTypeFunction runtimeType _ _ =>
    obtain ⟨⟨⟨hr, ht, _⟩, hp⟩, rfl⟩ := of_ite h
    refine ⟨⟨fun _ => rfl, fun _ _ => rfl, fun h => absurd rfl h, fun h => absurd rfl h⟩, ?_, ?_⟩
    · cases h : m.getType runtimeType
      case none => simp [h] at ht
      case some => simp [abiTypeOf, h]
    · simpa [abiChildren, abiTypeOf] using ⟨hr, hp⟩
  case constZero =>
    obtain ⟨hc, rfl⟩ := of_ite h
    exact ⟨_, _, rfl, hc⟩
  case constBool | constInteger | constFloat32 | constFloat64 | constNull =>
    obtain ⟨hc, rfl⟩ := of_ite h
    exact ⟨_, _, rfl, isSome_of_any hc⟩
  all_goals cases h

-- The functions of a module can change while its tables stay.
structure SameTables (m m' : Module) : Prop where
  types     : m'.types = m.types
  abiTypes  : m'.abiTypes = m.abiTypes
  constants : m'.constants = m.constants

theorem addGlobal_same : m.SameTables (m.addGlobal global).1 := by
  unfold addGlobal
  repeat' split
  all_goals exact ⟨rfl, rfl, rfl⟩

theorem addFunction_same : m.SameTables (m.addFunction debugName span type kind linkage generated abi).1 := by
  dsimp only [addFunction]
  repeat' split
  all_goals exact ⟨rfl, rfl, rfl⟩

theorem beginFunctionDefinition_same : m.SameTables (m.beginFunctionDefinition function).1 := by
  unfold beginFunctionDefinition
  repeat' split
  all_goals exact ⟨rfl, rfl, rfl⟩

theorem setEntryFunction_same : m.SameTables (m.setEntryFunction function).1 := by
  unfold setEntryFunction
  repeat' split
  all_goals exact ⟨rfl, rfl, rfl⟩

theorem setInitFunction_same : m.SameTables (m.setInitFunction function).1 := by
  unfold setInitFunction
  repeat' split
  all_goals exact ⟨rfl, rfl, rfl⟩

theorem addSlot_same : m.SameTables (m.addSlot function kind parameterIndex debugName span type).1 := by
  unfold addSlot
  repeat' split
  all_goals exact ⟨rfl, rfl, rfl⟩

theorem setSlotAbiType_same : m.SameTables (m.setSlotAbiType function slot abiType).1 := by
  unfold setSlotAbiType
  repeat' split
  all_goals exact ⟨rfl, rfl, rfl⟩

theorem setValueAbiType_same : m.SameTables (m.setValueAbiType function value abiType).1 := by
  unfold setValueAbiType
  repeat' split
  all_goals exact ⟨rfl, rfl, rfl⟩

theorem markValueDiscarded_same : m.SameTables (m.markValueDiscarded function value).1 := by
  unfold markValueDiscarded
  repeat' split
  all_goals exact ⟨rfl, rfl, rfl⟩

theorem addBlock_same : m.SameTables (m.addBlock function debugName span).1 := by
  unfold addBlock
  repeat' split
  all_goals exact ⟨rfl, rfl, rfl⟩

theorem addBlockParameter_same : m.SameTables (m.addBlockParameter function block type debugName span).1 := by
  dsimp only [addBlockParameter]
  repeat' split
  all_goals exact ⟨rfl, rfl, rfl⟩

theorem emit_same : m.SameTables (m.emit function block input).1 := by
  dsimp only [emit]
  repeat' split
  all_goals exact ⟨rfl, rfl, rfl⟩

theorem setTerminator_same : m.SameTables (m.setTerminator function block input).1 := by
  unfold setTerminator
  repeat' split
  all_goals exact ⟨rfl, rfl, rfl⟩

theorem SameTables.tableStep (h : m.SameTables m') : TableStep m m' :=
  .same h.types h.abiTypes h.constants

theorem answer_tableStep (call : Call) : TableStep m (m.answer (m.request call)).1 := by
  cases h : m.request call
  case none => exact .same rfl rfl rfl
  case some r => exact intern_tableStep (request_valid h)

theorem interns_tableStep {call : Call} (hm : m.mutable) (hc : Interns call) : TableStep m (m.step call).1 := by
  rw [step_request hm hc]
  exact answer_tableStep call

theorem markIncompleteAggregateType_tableStep : TableStep m (m.markIncompleteAggregateType i).1 := by
  unfold markIncompleteAggregateType
  split
  case isTrue => exact .same rfl rfl rfl
  case isFalse =>
    split
    case h_1 => exact .same rfl rfl rfl
    case h_2 he => exact .define _ (openAggregate_entry he)

theorem defineAggregateType_tableStep :
    TableStep m (m.defineAggregateType i fields isReprC isPacked alignment).1 := by
  unfold defineAggregateType
  split
  case isTrue => exact .same rfl rfl rfl
  case isFalse =>
    split
    case h_1 => exact .same rfl rfl rfl
    case h_2 he =>
      split
      case isTrue => exact .same rfl rfl rfl
      case isFalse => exact .define _ (openAggregate_entry he)

theorem defineEnumType_tableStep : TableStep m (m.defineEnumType i backing members isReprC backingAbi).1 := by
  unfold defineEnumType
  split
  case isTrue => exact .same rfl rfl rfl
  case isFalse =>
    split
    case h_1 => exact .same rfl rfl rfl
    case h_2 he =>
      split
      case isTrue => exact .same rfl rfl rfl
      case isFalse =>
        split
        case isTrue => exact .same rfl rfl rfl
        case isFalse => exact .define _ (openEnum_entry he)

theorem declareNominalType_tableStep : TableStep m (m.declareNominalType kind debugName span).1 := by
  unfold declareNominalType
  split
  case isTrue => exact .same rfl rfl rfl
  case isFalse => exact appendType_tableStep ..

theorem constArray_tableStep : TableStep m (m.constArray type elements).1 := by
  unfold constArray
  split
  case isTrue => exact .same rfl rfl rfl
  case isFalse => exact addAggregateConstant_tableStep fun _ _ => rfl

theorem constStruct_tableStep : TableStep m (m.constStruct type fields).1 := by
  unfold constStruct
  split
  case isTrue => exact .same rfl rfl rfl
  case isFalse => exact addAggregateConstant_tableStep fun _ _ => rfl

theorem step_tableStep (m : Module) (call : Call) : TableStep m (m.step call).1 := by
  by_cases hm : m.mutable
  case neg =>
    rw [step_frozen call (by simpa using hm)]
    exact .same rfl rfl rfl
  case pos =>
    cases call
    case declareNominalType => exact declareNominalType_tableStep
    case markIncompleteAggregateType => exact markIncompleteAggregateType_tableStep
    case defineAggregateType => exact defineAggregateType_tableStep
    case defineEnumType => exact defineEnumType_tableStep
    case constArray => exact constArray_tableStep
    case constStruct => exact constStruct_tableStep
    case addGlobal => exact addGlobal_same.tableStep
    case addFunction => exact addFunction_same.tableStep
    case beginFunctionDefinition => exact beginFunctionDefinition_same.tableStep
    case setEntryFunction => exact setEntryFunction_same.tableStep
    case setInitFunction => exact setInitFunction_same.tableStep
    case addSlot => exact addSlot_same.tableStep
    case setSlotAbiType => exact setSlotAbiType_same.tableStep
    case setValueAbiType => exact setValueAbiType_same.tableStep
    case markValueDiscarded => exact markValueDiscarded_same.tableStep
    case addBlock => exact addBlock_same.tableStep
    case addBlockParameter => exact addBlockParameter_same.tableStep
    case emit => exact emit_same.tableStep
    case setTerminator => exact setTerminator_same.tableStep
    all_goals exact interns_tableStep hm trivial

end Calls

section Builds

theorem initial_interned : initial.Interned where
  types           := .nil
  typesDescend    := .nil
  abiTypes        := .nil
  abiTypesDescend := .nil
  abiTypesValid   := fun _ h => nomatch h
  constants       := .nil
  constantsValid  := fun _ h => nomatch h

theorem Later.interned (l : Later m m') (h : m.Interned) : m'.Interned := by
  induction l with
  | refl => exact h
  | call call _ ih => exact (step_tableStep _ call).interned ih
  | freeze _ ih => exact { ih with }

theorem Later.grown (l : Later m m') : Grown m m' := by
  induction l with
  | refl => exact .refl
  | call call _ ih => exact ih.trans (step_tableStep _ call).grown
  | freeze _ ih => exact { ih with }

section Repeat

theorem getType_eq (m : Module) (i : CogIrTypeId) : m.getType i = lookup m.contents i := by
  simp only [getType, lookup, contents, List.getElem?_map]
  split <;> rfl

theorem lookup_eq_some {items : List α} {i : Nat} (h : lookup items i = some a) (hb : items'[i]? = some b) :
    lookup items' i = some b := by
  unfold lookup at h ⊢
  split at h
  case isTrue => cases h
  case isFalse hi => rw [if_neg hi, hb]

namespace Grown

theorem getType (g : Grown m m') (h : m.getType i = some a) (hs : a.Structural) : m'.getType i = some a := by
  rw [getType_eq] at h ⊢
  exact lookup_eq_some h (g.types.keyed i a (getElem?_of_lookup h) hs)

theorem getType_nominal (g : Grown m m') (h : m.getType i = some (.nominal kind debugName body)) :
    ∃ body', m'.getType i = some (.nominal kind debugName body') := by
  rw [getType_eq] at h
  obtain ⟨body', hb, _⟩ := g.nominal i kind debugName body (getElem?_of_lookup h)
  exact ⟨body', getType_eq .. ▸ lookup_eq_some h hb⟩

theorem getType_isSome (g : Grown m m') (h : (m.getType i).isSome) : (m'.getType i).isSome := by
  obtain ⟨a, ha⟩ := Option.isSome_iff_exists.mp h
  by_cases hs : a.Structural
  case pos => rw [g.getType ha hs]; rfl
  case neg =>
    cases a
    case nominal =>
      obtain ⟨_, hb⟩ := g.getType_nominal ha
      rw [hb]; rfl
    all_goals exact absurd trivial hs

theorem getType_any (g : Grown m m') {p : CogIrType → Bool} (hp : ∀ a, p a → a.Structural)
    (h : (m.getType i).any p) : (m'.getType i).any p := by
  obtain ⟨a, ha⟩ := Option.isSome_iff_exists.mp (isSome_of_any h)
  rw [ha] at h
  rw [g.getType ha (hp a h)]
  exact h

theorem getType_isIntegerOrEnum (g : Grown m m') (h : (m.getType i).any isIntegerOrEnum) :
    (m'.getType i).any isIntegerOrEnum := by
  obtain ⟨a, ha⟩ := Option.isSome_iff_exists.mp (isSome_of_any h)
  rw [ha] at h
  cases a
  case integer => rw [g.getType ha trivial]; exact h
  case nominal kind debugName body =>
    obtain ⟨body', hb⟩ := g.getType_nominal ha
    rw [hb]
    cases kind <;> exact h
  all_goals cases h

theorem getAbiType_isSome (g : Grown m m') (h : (m.getAbiType i).isSome) : (m'.getAbiType i).isSome := by
  obtain ⟨a, ha⟩ := Option.isSome_iff_exists.mp h
  have hb : m'.getAbiType i = some a := lookup_eq_some ha (g.abiTypes.keyed i a (getElem?_of_lookup ha) trivial)
  rw [hb]; rfl

theorem functionType (g : Grown m m') {p : FunctionType → Bool}
    (h : ((m.getType i).bind functionType).any p) : ((m'.getType i).bind Builder.functionType).any p := by
  obtain ⟨type, ht⟩ := Option.isSome_iff_exists.mp (isSome_of_any h)
  obtain ⟨a, ha, hf⟩ := Option.bind_eq_some_iff.mp ht
  have hs : a.Structural := by
    cases a
    case nominal => cases hf
    all_goals exact trivial
  rw [g.getType ha hs]
  rwa [ha] at h

end Grown

theorem request_grown (g : Grown m m') {call : Call} (h : m.request call = some r) : m'.request call = some r := by
  cases call
  case typeVoid | typeBool | typeOpaquePointer | typeInteger | typeFloat => exact h
  case typePointer | typeArray | abiTypeSemantic | constZero =>
    obtain ⟨hc, rfl⟩ := of_ite h
    exact if_pos (g.getType_isSome hc)
  case typeFunction =>
    obtain ⟨⟨hr, hm, hp⟩, rfl⟩ := of_ite h
    exact if_pos ⟨g.getType_isSome hr, hm, fun c hc => g.getType_isSome (hp c hc)⟩
  case abiTypeCScalar =>
    obtain ⟨hc, rfl⟩ := of_ite h
    exact if_pos ⟨g.getType_isSome hc.1, hc.2⟩
  case abiTypePointer | abiTypeArray =>
    obtain ⟨hc, rfl⟩ := of_ite h
    exact if_pos ⟨g.getType_any (fun a ha => by cases a <;> trivial) hc.1, g.getAbiType_isSome hc.2⟩
  case abiTypeFunction =>
    obtain ⟨⟨⟨hr, ht, hm⟩, hp⟩, rfl⟩ := of_ite h
    exact if_pos ⟨⟨g.getAbiType_isSome hr, g.functionType ht, hm⟩, fun c hc => g.getAbiType_isSome (hp c hc)⟩
  case constInteger =>
    obtain ⟨hc, rfl⟩ := of_ite h
    exact if_pos (g.getType_isIntegerOrEnum hc)
  case abiTypeOpaquePointer | constBool | constFloat32 | constFloat64 | constNull =>
    obtain ⟨hc, rfl⟩ := of_ite h
    exact if_pos (g.getType_any (fun a ha => by cases a <;> trivial) hc)
  all_goals cases h

theorem intern_holds (h : (m.intern r).2 = some i) : (m.intern r).1.Holds i r := by
  cases r
  case type content =>
    obtain he | ⟨_, he, hi⟩ | ⟨_, he⟩ := internType_cases m content <;> rw [intern, he] at h ⊢ <;> cases h
    case inr.inl => exact hi
    case inr.inr => simp [done, Holds, contents]
  case abiType type =>
    obtain he | ⟨_, he, hi⟩ | ⟨_, he⟩ := internAbiType_cases m type <;> rw [intern, he] at h ⊢ <;> cases h
    case inr.inl => exact hi
    case inr.inr => simp [done, Holds]
  case constant constant =>
    obtain he | ⟨_, he, hi⟩ | ⟨_, he⟩ := internScalarConstant_cases m constant <;>
      rw [intern, he] at h ⊢ <;> cases h
    case inr.inl => exact hi
    case inr.inr => simp [done, Holds]

theorem Grown.holds (g : Grown m m') (hv : m.Valid r) (h : m.Holds i r) : m'.Holds i r := by
  cases r
  case type => exact g.types.keyed i _ h hv.1
  case abiType => exact g.abiTypes.keyed i _ h trivial
  case constant => exact g.constants.keyed i _ h trivial

theorem Interned.intern_again (hi : m.Interned) (hv : m.Valid r) (h : m.Holds i r) : m.intern r = done m i := by
  cases r
  case type => rw [intern, internType, hi.types.find h hv.1]
  case abiType type =>
    have hd : Distinct (fun _ => True) (m.abiTypes.items.map id) := by simpa using hi.abiTypes
    rw [intern, internAbiType, show m.abiTypes.items.findIdx? (· = type) = some i from
      hd.find (by simpa [Holds] using h) trivial]
  case constant constant =>
    have ⟨payload, type, hp, _⟩ := hv
    have hd : Distinct IsScalar (m.constants.items.map id) := by simpa using hi.constants
    rw [intern, internScalarConstant, show m.constants.items.findIdx? (· = constant) = some i from
      hd.find (by simpa [Holds] using h) (by simp [IsScalar, hp])]

theorem step_again {call : Call} (hi : m.Interned) (hc : Interns call) (hs : (m.step call).2 = some (.id i))
    (l : Later (m.step call).1 m') (hm : m'.mutable) : m'.step call = done m' (.id i) := by
  by_cases hm' : m.mutable
  case neg =>
    rw [step_frozen call (by simpa using hm')] at hs
    cases hs
  case pos =>
    have hi' := l.interned ((step_tableStep m call).interned hi)
    have g := (step_tableStep m call).grown
    rw [step_request hm' hc] at hs l g
    rw [step_request hm hc]
    cases hr : m.request call
    case none => simp [hr, answer, fail] at hs
    case some r =>
      rw [hr] at hs l g
      have hn : (m.intern r).2 = some i := by simpa [answer, number] using hs
      have hg := g.trans l.grown
      have hv := request_valid (request_grown hg hr)
      have hh := l.grown.holds (request_valid (request_grown g hr)) (intern_holds hn)
      rw [request_grown hg hr, answer, hi'.intern_again hv hh]
      rfl

end Repeat

-- Different numbers stand for different things.
structure Canonical (m : Module) : Prop where
  types     : ∀ i j τ, m.TypeDenotes i τ → m.TypeDenotes j τ → i = j
  abiTypes  : ∀ i j τ, m.AbiTypeDenotes i τ → m.AbiTypeDenotes j τ → i = j
  constants : ∀ i j τ, m.ConstantDenotes i τ → m.ConstantDenotes j τ → i = j

-- Every number stands for one thing.
structure Meaningful (m : Module) : Prop where
  types     : ∀ i < m.types.items.length, ∃! τ, m.TypeDenotes i τ
  abiTypes  : ∀ i < m.abiTypes.items.length, ∃! τ, m.AbiTypeDenotes i τ
  constants : ∀ i < m.constants.items.length, ∃! τ, m.ConstantDenotes i τ

-- A number that stands for something stands for it later as well.
structure Lasting (m m' : Module) : Prop where
  grown     : Grown m m'
  types     : ∀ i τ, m.TypeDenotes i τ → m'.TypeDenotes i τ
  abiTypes  : ∀ i τ, m.AbiTypeDenotes i τ → m'.AbiTypeDenotes i τ
  constants : ∀ i τ, m.ConstantDenotes i τ → m'.ConstantDenotes i τ

theorem Interned.canonical (h : m.Interned) : m.Canonical where
  types _ _ _     := h.type_injective
  abiTypes _ _ _  := h.abiType_injective
  constants _ _ _ := h.constant_injective

theorem Interned.meaningful (h : m.Interned) : m.Meaningful where
  types _ hi     := (h.type_total hi).imp fun _ ht => ⟨ht, fun _ ht' => type_unique ht' ht⟩
  abiTypes _ hi  := (h.abiType_total hi).imp fun _ ht => ⟨ht, fun _ ht' => abiType_unique ht' ht⟩
  constants _ hi := (h.constant_total hi).imp fun _ ht => ⟨ht, fun _ ht' => constant_unique ht' ht⟩

theorem Grown.lasting (g : Grown m m') : Lasting m m' where
  grown         := g
  types _ _     := g.typeDenotes
  abiTypes _ _  := g.abiTypeDenotes
  constants _ _ := g.constantDenotes

end Builds

end Module

end Coglet.Ir.Builder
