import Coglet.Ir.LowerType

namespace Coglet.Ir

open TypeObject TypeArena

variable {σ : TypeArena} {frontend : Frontend} {ctx ctx' ctx₁ ctx₂ ctx₃ : CogIrLowerContext} {module module' : CogIrModule}
  {t u : TypeObject} {type : CogIrType} {id id' : CogIrTypeId}

namespace CogIrModule

theorem internType_eq (h : module.internType type = some (id, module')) :
    module'.isFrozen = module.isFrozen ∧ Interning.intern module.types type = (id, module'.types) := by
  rw [internType] at h
  split at h
  case isTrue => cases h
  split at h
  case h_1 i hi =>
    cases h
    exact ⟨rfl, by simp [Interning.intern, hi]⟩
  case h_2 hi =>
    rw [appendType] at h
    split at h <;> cases h
    exact ⟨rfl, by simp [Interning.intern, hi]⟩

theorem getType_internType (h : module.internType type = some (id, module')) : module'.getType id = some type := by
  have he := (internType_eq h).right
  have ht := Interning.intern_getElem? (t := module.types) (a := type)
  rwa [he] at ht

theorem internType_extends (h : module.internType type = some (id, module')) :
    Interning.Extends CogIrType.Structural module.types module'.types := by
  have ht : Interning.Extends CogIrType.Structural _ (Interning.intern module.types type).2 :=
    Interning.intern_extends
  rwa [(internType_eq h).right] at ht

theorem internType_distinct (h : module.internType type = some (id, module'))
    (hd : Interning.Distinct CogIrType.Structural module.types) :
    Interning.Distinct CogIrType.Structural module'.types := by
  have ht := hd.intern (a := type)
  rwa [(internType_eq h).right] at ht

theorem internType_length (h : module.internType type = some (id, module')) :
    module'.types.length ≤ module.types.length + 1 := by
  have ht := Interning.length_intern_le (t := module.types) (a := type)
  rwa [(internType_eq h).right] at ht

theorem internType_isSome (hf : module.isFrozen = false) (hr : module.types.length < COG_IR_ID_INVALID) :
    ∃ id module', module.internType type = some (id, module') := by
  rw [internType]
  split
  case isTrue h => exact absurd (h.symm.trans hf) (by decide)
  split
  case h_1 => exact ⟨_, _, rfl⟩
  case h_2 => exact ⟨_, _, by rw [appendType, if_neg (by simp [hf, hr])]⟩

theorem declareNominalType_eq {kind name} (h : module.declareNominalType kind name = some (id, module')) :
    id = module.types.length ∧ module'.types = module.types ++ [.nominal kind name .declared] ∧
      module'.isFrozen = module.isFrozen := by
  rw [declareNominalType, appendType] at h
  split at h
  case isTrue => cases h
  split at h <;> cases h
  exact ⟨rfl, rfl, rfl⟩

theorem defineAggregateType_declared {name fields isReprC isPacked align} (hf : module.isFrozen = false)
    (hg : module.getType id = some (.nominal .struct name .declared))
    (hk : ∀ field ∈ fields, (module.getType field.type).isSome) :
    module.defineAggregateType id fields isReprC isPacked align =
      some (module.replaceBody id .struct name (.aggregate fields isReprC isPacked align)) := by
  rw [defineAggregateType, hf, hg]
  exact if_pos (List.all_eq_true.mpr hk)

-- The type that a builder adds for a builtin type.
def builtinShape : BuiltinKind → Option CogIrType
  | .void => some .void
  | .bool => some .bool
  | .s8 => some (.integer 8 true)
  | .s16 => some (.integer 16 true)
  | .s32 => some (.integer 32 true)
  | .s64 => some (.integer 64 true)
  | .u8 => some (.integer 8 false)
  | .u16 => some (.integer 16 false)
  | .u32 => some (.integer 32 false)
  | .u64 => some (.integer 64 false)
  | .f32 => some (.float 32)
  | .f64 => some (.float 64)
  | .untypedInt | .untypedFloat | .null => none

theorem typeBuiltin_eq (module : CogIrModule) (kind : BuiltinKind) :
    module.typeBuiltin kind = (builtinShape kind).bind module.internType := by
  cases kind <;> rfl

theorem builtinShape_structural {kind} (h : builtinShape kind = some type) : type.Structural := by
  cases kind <;> cases h <;> trivial

theorem builtinShape_leaf {kind} (h : builtinShape kind = some type) :
    match type with
    | .void | .bool | .integer .. | .float _ => True
    | _ => False := by
  cases kind <;> cases h <;> trivial

theorem builtinShape_inj {k k' : BuiltinKind} (h : builtinShape k = some type) (h' : builtinShape k' = some type) :
    k = k' := by
  cases k <;> cases h <;> cases k' <;> cases h' <;> rfl

theorem typeOpaquePointer_eq {isReadonly isVolatile}
    (h : module.typeOpaquePointer isReadonly isVolatile = some (id, module')) :
    module.internType (.opaquePointer isReadonly isVolatile) = some (id, module') :=
  h

theorem typePointer_eq {pointee isReadonly isVolatile}
    (h : module.typePointer pointee isReadonly isVolatile = some (id, module')) :
    module.internType (.pointer pointee isReadonly isVolatile) = some (id, module') :=
  (Option.ite_none_right_eq_some.mp h).right

theorem typeArray_eq {element length} (h : module.typeArray element length = some (id, module')) :
    module.internType (.array element length) = some (id, module') :=
  (Option.ite_none_right_eq_some.mp h).right

theorem typeFunction_eq {result parameters abi callConv isVariadic}
    (h : module.typeFunction result parameters abi callConv isVariadic = some (id, module')) :
    module.internType (.function result parameters abi callConv isVariadic) = some (id, module') :=
  (Option.ite_none_right_eq_some.mp h).right

theorem markIncompleteAggregateType_eq (h : module.markIncompleteAggregateType id = some module') :
    ∃ type id kind name body, module.getType id = some type ∧ ¬type.Structural ∧
      module' = module.replaceBody id kind name body := by
  rw [markIncompleteAggregateType] at h
  split at h
  case h_1 hg | h_2 hg =>
    cases h
    exact ⟨_, _, _, _, _, hg, not_false, rfl⟩
  case h_3 => cases h

theorem defineAggregateType_eq {fields isReprC isPacked align}
    (h : module.defineAggregateType id fields isReprC isPacked align = some module') :
    ∃ type id kind name body, module.getType id = some type ∧ ¬type.Structural ∧
      module' = module.replaceBody id kind name body := by
  rw [defineAggregateType] at h
  split at h
  case h_1 hg | h_2 hg =>
    split at h <;> cases h
    exact ⟨_, _, _, _, _, hg, not_false, rfl⟩
  case h_3 => cases h

theorem defineEnumType_eq {abiTypeKnown backing members isReprC backingAbi}
    (h : module.defineEnumType abiTypeKnown id backing members isReprC backingAbi = some module') :
    ∃ type id kind name body, module.getType id = some type ∧ ¬type.Structural ∧
      module' = module.replaceBody id kind name body := by
  rw [defineEnumType] at h
  split at h
  case h_1 hg _ =>
    split at h <;> cases h
    exact ⟨_, _, _, _, _, hg, not_false, rfl⟩
  case h_2 => cases h

end CogIrModule

open CogIrModule

-- An identifier stands for a type object. Slices and nominal types are known by their address only.
inductive Represents (ctx : CogIrLowerContext) : TypeObject → CogIrTypeId → Prop
  | builtin {l : Address} {kind : BuiltinKind} {type : CogIrType} {id : CogIrTypeId} :
    builtinShape kind = some type → ctx.module.getType id = some type → Represents ctx (.builtin l kind) id
  | opaquePointer {l : Address} {access : PointerAccess} {isVolatile : Bool} {id : CogIrTypeId} :
    ctx.module.getType id = some (.opaquePointer (access = .readonly) isVolatile) →
    Represents ctx (.opaquePointer l access isVolatile) id
  | pointer {l : Address} {access : PointerAccess} {isVolatile : Bool} {e : TypeObject} {pointee id : CogIrTypeId} :
    Represents ctx e pointee → ctx.module.getType id = some (.pointer pointee (access = .readonly) isVolatile) →
    Represents ctx (.pointer l access isVolatile e) id
  | array {l : Address} {size : Int} {e : TypeObject} {element id : CogIrTypeId} :
    0 ≤ size → Represents ctx e element → ctx.module.getType id = some (.array element size.toNat) →
    Represents ctx (.array l size e) id
  | function {l : Address} {abi : FunctionAbi} {callConv : CCallingConvention} {isVariadic : Bool}
      {ps : List TypeObject} {r : TypeObject} {ids : List CogIrTypeId} {result id : CogIrTypeId} :
    Represents ctx r result → ps.length = ids.length → (∀ p ∈ ps.zip ids, Represents ctx p.1 p.2) →
    ctx.module.getType id =
      some (.function result ids (lowerFunctionAbi abi) (lowerCallingConvention callConv) isVariadic) →
    Represents ctx (.function l abi callConv isVariadic ps r) id
  | nominal {t : TypeObject} {type : CogIrType} {id : CogIrTypeId} :
    t.isSlice ∨ t.isNominal → ctx.findType t.address = some id → ctx.module.getType id = some type →
    ¬type.Structural → Represents ctx t id

namespace CogIrLowerContext

structure Extends (ctx ctx' : CogIrLowerContext) : Prop where
  types    : Interning.Extends CogIrType.Structural ctx.module.types ctx'.module.types
  typeMap  : ∀ {address id}, ctx.findType address = some id → ctx'.findType address = some id
  isFrozen : ctx'.module.isFrozen = ctx.module.isFrozen

theorem Extends.refl : Extends ctx ctx :=
  ⟨.refl, id, rfl⟩

theorem Extends.trans (h₁ : Extends ctx₁ ctx₂) (h₂ : Extends ctx₂ ctx₃) : Extends ctx₁ ctx₃ :=
  ⟨h₁.types.trans h₂.types, h₂.typeMap ∘ h₁.typeMap, h₂.isFrozen.trans h₁.isFrozen⟩

theorem rememberType_cases {address} (h : ctx.rememberType address id = some ctx') :
    (ctx.findType address = some id ∧ ctx' = ctx) ∨
    (ctx.findType address = none ∧ ctx' = { ctx with typeMap := ctx.typeMap ++ [(address, id)] }) := by
  rw [rememberType] at h
  split at h
  case h_1 he => grind
  case h_2 he => grind

theorem findType_append {address address'} (h : ctx.findType address = none) :
    findType { ctx with typeMap := ctx.typeMap ++ [(address, id)] } address' =
      if address' = address then some id else ctx.findType address' := by
  simp only [findType, List.lookup_append, List.lookup_cons, List.lookup_nil] at *
  grind

theorem rememberType_none {address} (h : ctx.findType address = none) :
    ctx.rememberType address id = some { ctx with typeMap := ctx.typeMap ++ [(address, id)] } := by
  rw [rememberType, h]

theorem rememberType_extends {address} (h : ctx.rememberType address id = some ctx') : Extends ctx ctx' := by
  rcases rememberType_cases h with ⟨_, rfl⟩ | ⟨hn, rfl⟩
  case inl => exact .refl
  case inr =>
    refine ⟨.refl, fun {address' id'} h => ?_, rfl⟩
    rw [findType_append hn]
    split
    case isTrue he => simp [← he, h] at hn
    case isFalse => exact h

theorem findType_rememberType {address} (h : ctx.rememberType address id = some ctx') :
    ctx'.findType address = some id := by
  rcases rememberType_cases h with ⟨he, rfl⟩ | ⟨hn, rfl⟩
  case inl => exact he
  case inr => simp [findType_append hn]

end CogIrLowerContext

open CogIrLowerContext

theorem Represents.mono (h : Represents ctx t id) (he : Extends ctx ctx') : Represents ctx' t id := by
  induction h
  case builtin hs ht => exact .builtin hs (he.types.keyed _ _ ht (builtinShape_structural hs))
  case opaquePointer ht => exact .opaquePointer (he.types.keyed _ _ ht trivial)
  case pointer ht hi => exact .pointer hi (he.types.keyed _ _ ht trivial)
  case array hs _ ht hi => exact .array hs hi (he.types.keyed _ _ ht trivial)
  case function hl _ ht hr hp => exact .function hr hl hp (he.types.keyed _ _ ht trivial)
  case nominal hn hf ht hs =>
    have ⟨_, ht, hs⟩ := he.types.unkeyed _ _ ht hs
    exact .nominal hn (he.typeMap hf) ht hs

theorem Represents.getType (h : Represents ctx t id) : ∃ type, ctx.module.getType id = some type := by
  cases h
  all_goals exact ⟨_, ‹_›⟩

-- The invariant of a lowering session over the types of `σ`.
structure Valid (σ : TypeArena) (ctx : CogIrLowerContext) : Prop where
  distinct : Interning.Distinct CogIrType.Structural ctx.module.types
  known    : ∀ t, σ.Resolved t → ∀ id, ctx.findType t.address = some id → Represents ctx t id
  unique   : ∀ t u, σ.Resolved t → σ.Resolved u → (t.isSlice ∨ t.isNominal) → (u.isSlice ∨ u.isNominal) →
    ∀ id, ctx.findType t.address = some id → ctx.findType u.address = some id → t = u

namespace Valid

theorem init : Valid σ lowerContextInit where
  distinct := .nil
  known _ _ _ h := by cases h
  unique _ _ _ _ _ _ _ h := by cases h

theorem internType (h : Valid σ ctx) (hi : ctx.module.internType type = some (id, module')) :
    Valid σ { ctx with module := module' } ∧ Extends ctx { ctx with module := module' } := by
  have he : Extends ctx { ctx with module := module' } :=
    ⟨internType_extends hi, fun h => h, (internType_eq hi).left⟩
  refine ⟨⟨internType_distinct hi h.distinct, ?_, h.unique⟩, he⟩
  exact fun t ht id hf => (h.known t ht id hf).mono he

-- The bodies of nominal types do not matter.
theorem replaceBody (kind name body) (h : Valid σ ctx) (ht : ctx.module.getType id = some type)
    (hs : ¬type.Structural) :
    Valid σ { ctx with module := ctx.module.replaceBody id kind name body } ∧
      Extends ctx { ctx with module := ctx.module.replaceBody id kind name body } := by
  have he : Extends ctx { ctx with module := ctx.module.replaceBody id kind name body } :=
    ⟨.set ht hs not_false, fun h => h, rfl⟩
  refine ⟨⟨h.distinct.set not_false, ?_, h.unique⟩, he⟩
  exact fun t ht id hf => (h.known t ht id hf).mono he

theorem rememberType (hσ : Reachable σ) (h : Valid σ ctx) (ht : σ.Resolved t) (hr : Represents ctx t id)
    (hm : ctx.rememberType t.address id = some ctx') : Valid σ ctx' ∧ Represents ctx' t id := by
  have he := rememberType_extends hm
  refine ⟨?_, hr.mono he⟩
  rcases rememberType_cases hm with ⟨_, rfl⟩ | ⟨hn, rfl⟩
  case inl => exact h
  case inr =>
    have heq u (hu : σ.Resolved u) (ha : u.address = t.address) : u = t :=
      hσ.valid.coherent.eq_of_address_eq hu.mem ht.mem ha
    refine ⟨h.distinct, ?_, ?_⟩
    case refine_1 =>
      intro u hu id' hf
      rw [findType_append hn] at hf
      split at hf
      case isTrue ha =>
        cases hf
        exact heq u hu ha ▸ hr.mono he
      case isFalse => exact (h.known u hu id' hf).mono he
    case refine_2 =>
      -- A new slice or nominal type is in the map before it is represented by an identifier.
      have hs : ¬(t.isSlice ∨ t.isNominal) := by
        intro hs
        cases hr
        case nominal => simp_all
        all_goals simp [isSlice, isNominal] at hs
      intro u w hu hw hsu hsw id' hfu hfw
      have hau : u.address ≠ t.address := fun ha => hs (heq u hu ha ▸ hsu)
      have haw : w.address ≠ t.address := fun ha => hs (heq w hw ha ▸ hsw)
      rw [findType_append hn, if_neg hau] at hfu
      rw [findType_append hn, if_neg haw] at hfw
      exact h.unique u w hu hw hsu hsw id' hfu hfw

-- A new nominal type gets an identifier that no other type has.
theorem declareNominalType {kind name} (hσ : Reachable σ) (h : Valid σ ctx) (ht : σ.Resolved t)
    (hs : t.isSlice ∨ t.isNominal)
    (hd : ctx.module.declareNominalType kind name = some (id, module'))
    (hm : ({ ctx with module := module' } : CogIrLowerContext).rememberType t.address id = some ctx') :
    Valid σ ctx' ∧ Extends ctx ctx' ∧ Represents ctx' t id := by
  obtain ⟨rfl, htypes, hfrozen⟩ := declareNominalType_eq hd
  have he : Extends ctx { ctx with module := module' } := ⟨htypes ▸ .append _, fun h => h, hfrozen⟩
  have hnew u (hu : σ.Resolved u) : ctx.findType u.address ≠ some ctx.module.types.length := by
    intro hf
    have ⟨_, hg⟩ := (h.known u hu _ hf).getType
    simp [getType] at hg
  have hget : module'.getType ctx.module.types.length = some (.nominal kind name .declared) := by
    simp [getType, htypes]
  rcases rememberType_cases hm with ⟨hf, _⟩ | ⟨hn, rfl⟩
  case inl => exact absurd hf (hnew t ht)
  case inr =>
    have he' := he.trans (rememberType_extends hm)
    have hr : Represents _ t ctx.module.types.length :=
      .nominal hs (findType_rememberType hm) hget id
    have heq u (hu : σ.Resolved u) (ha : u.address = t.address) : u = t :=
      hσ.valid.coherent.eq_of_address_eq hu.mem ht.mem ha
    refine ⟨⟨?_, ?_, ?_⟩, he', hr⟩
    case refine_1 => exact htypes ▸ h.distinct.append fun hs => hs.elim
    case refine_2 =>
      intro u hu id' hf
      rw [findType_append hn] at hf
      split at hf
      case isTrue ha =>
        cases hf
        exact heq u hu ha ▸ hr
      case isFalse => exact (h.known u hu id' hf).mono he'
    case refine_3 =>
      intro u w hu hw hsu hsw id' hfu hfw
      rw [findType_append hn] at hfu hfw
      split at hfu <;> split at hfw
      case isTrue.isTrue hau haw => rw [heq u hu hau, heq w hw haw]
      case isTrue.isFalse => exact absurd (hfu ▸ hfw) (hnew w hw)
      case isFalse.isTrue => exact absurd (hfw ▸ hfu) (hnew u hu)
      case isFalse.isFalse => exact h.unique u w hu hw hsu hsw id' hfu hfw

end Valid

-- What the lowering of a type achieves.
def Lowers (σ : TypeArena) (t : TypeObject)
    (lower : CogIrLowerContext → Option (CogIrTypeId × CogIrLowerContext)) : Prop :=
  ∀ ⦃ctx ctx' id⦄, Valid σ ctx → lower ctx = some (id, ctx') →
    Valid σ ctx' ∧ Extends ctx ctx' ∧ Represents ctx' t id

namespace Lowers

variable {construct : CogIrLowerContext → Option (CogIrTypeId × CogIrLowerContext)}

theorem remembering (hσ : Reachable σ) (ht : σ.Resolved t) (h : Lowers σ t construct) :
    Lowers σ t (remembering t.address construct) := by
  intro ctx ctx' id hv hl
  rw [CogIrLowerContext.remembering] at hl
  split at hl
  case h_1 hf =>
    cases hl
    exact ⟨hv, .refl, hv.known t ht _ hf⟩
  case h_2 =>
    obtain ⟨⟨id, ctx₁⟩, hc, hl⟩ := Option.bind_eq_some_iff.mp hl
    obtain ⟨ctx₂, hm, hl⟩ := Option.bind_eq_some_iff.mp hl
    cases hl
    obtain ⟨hv₁, he₁, hr₁⟩ := h hv hc
    obtain ⟨hv₂, hr₂⟩ := hv₁.rememberType hσ ht hr₁ hm
    exact ⟨hv₂, he₁.trans (rememberType_extends hm), hr₂⟩

-- A builder call at the end of the construction of a structural type.
theorem build {builder : CogIrModule → Option (CogIrTypeId × CogIrModule)}
    (hb : ∀ {module module' id}, builder module = some (id, module') → module.internType type = some (id, module'))
    (hv : Valid σ ctx) (h : ctx.build builder = some (id, ctx')) :
    Valid σ ctx' ∧ Extends ctx ctx' ∧ ctx'.module.getType id = some type := by
  obtain ⟨⟨id, module'⟩, hi, he⟩ := Option.map_eq_some_iff.mp h
  cases he
  have ⟨hv', he⟩ := hv.internType (hb hi)
  exact ⟨hv', he, getType_internType (hb hi)⟩

theorem builtin {l kind} (hσ : Reachable σ) (ht : σ.Resolved (.builtin l kind)) :
    Lowers σ (.builtin l kind) (lowerBuiltin (l, kind)) := by
  refine remembering hσ ht ?_
  intro ctx ctx' id hv hl
  cases hs : builtinShape kind
  case none => simp [CogIrLowerContext.build, typeBuiltin_eq, hs] at hl
  case some type =>
    have hb {m m' : CogIrModule} {i : CogIrTypeId} (h : m.typeBuiltin kind = some (i, m')) :
        m.internType type = some (i, m') := by simpa [typeBuiltin_eq, hs] using h
    have ⟨hv', he, hg⟩ := build hb hv hl
    exact ⟨hv', he, .builtin hs hg⟩

theorem slice {l access e element} (hσ : Reachable σ) (ht : σ.Resolved (.slice l access e)) (hv : Valid σ ctx)
    (h : lowerSlice frontend (.slice l access e) access element ctx = some (id, ctx')) :
    Valid σ ctx' ∧ Extends ctx ctx' ∧ Represents ctx' (.slice l access e) id := by
  obtain ⟨⟨data, ctx₁⟩, h₁, h⟩ := Option.bind_eq_some_iff.mp h
  obtain ⟨⟨length, ctx₂⟩, h₂, h⟩ := Option.bind_eq_some_iff.mp h
  obtain ⟨⟨result, ctx₃⟩, h₃, h⟩ := Option.bind_eq_some_iff.mp h
  obtain ⟨ctx₄, h₄, h⟩ := Option.bind_eq_some_iff.mp h
  obtain ⟨module, h₅, h⟩ := Option.bind_eq_some_iff.mp h
  cases h
  have ⟨hv₁, he₁, _⟩ := build typePointer_eq hv h₁
  have ⟨hv₂, he₂, _⟩ := builtin hσ (TypeArena.fixedIntegerTypeForBits_resolved hσ frontend.isUsize) hv₁ h₂
  obtain ⟨⟨id, module'⟩, hd, he⟩ := Option.map_eq_some_iff.mp h₃
  cases he
  have ⟨hv₄, he₄, hr₄⟩ := hv₂.declareNominalType hσ ht (.inl rfl) hd h₄
  obtain ⟨_, _, kind, name, body, hg, hs, rfl⟩ := defineAggregateType_eq h₅
  have ⟨hv₅, he₅⟩ := hv₄.replaceBody kind name body hg hs
  exact ⟨hv₅, he₁.trans (he₂.trans (he₄.trans he₅)), hr₄.mono he₅⟩

theorem lowerTypes {ts : List TypeObject} {ids : List CogIrTypeId}
    (hi : ∀ t ∈ ts, Lowers σ t (cogIrLowerType frontend t)) (hv : Valid σ ctx)
    (h : cogIrLowerTypes frontend ts ctx = some (ids, ctx')) :
    Valid σ ctx' ∧ Extends ctx ctx' ∧ ts.length = ids.length ∧ ∀ p ∈ ts.zip ids, Represents ctx' p.1 p.2 := by
  induction ts generalizing ctx ids
  case nil =>
    cases h
    exact ⟨hv, .refl, rfl, fun _ h => absurd h List.not_mem_nil⟩
  case cons t ts hi' =>
    have ⟨ht, hts⟩ := List.forall_mem_cons.mp hi
    obtain ⟨⟨id, ctx₁⟩, h₁, h⟩ := Option.bind_eq_some_iff.mp h
    obtain ⟨⟨ids, ctx₂⟩, h₂, h⟩ := Option.bind_eq_some_iff.mp h
    cases h
    have ⟨hv₁, he₁, hr₁⟩ := ht hv h₁
    have ⟨hv₂, he₂, hl, hr₂⟩ := hi' hts hv₁ h₂
    exact ⟨hv₂, he₁.trans he₂, congrArg _ hl, List.forall_mem_cons.mpr ⟨hr₁.mono he₂, hr₂⟩⟩

theorem lowerType (hσ : Reachable σ) (ht : σ.Resolved t) : Lowers σ t (cogIrLowerType frontend t) := by
  induction t using TypeObject.induct
  case step t hi =>
    replace hi c (hc : c ∈ t.children) : Lowers σ c (cogIrLowerType frontend c) := hi c hc (ht.child hc)
    cases t <;> rw [cogIrLowerType]
    case builtin => exact builtin hσ ht
    case opaquePointer =>
      refine remembering hσ ht ?_
      intro ctx ctx' id hv hl
      obtain ⟨hv', he, hg⟩ := build typeOpaquePointer_eq hv hl
      exact ⟨hv', he, .opaquePointer hg⟩
    case pointer e =>
      refine remembering hσ ht ?_
      intro ctx ctx' id hv hl
      obtain ⟨⟨element, ctx₁⟩, h₁, hl⟩ := Option.bind_eq_some_iff.mp hl
      obtain ⟨hv₁, he₁, hr₁⟩ := hi e List.mem_cons_self hv h₁
      obtain ⟨hv₂, he₂, hg⟩ := build typePointer_eq hv₁ hl
      exact ⟨hv₂, he₁.trans he₂, .pointer (hr₁.mono he₂) hg⟩
    case array e =>
      refine remembering hσ ht ?_
      intro ctx ctx' id hv hl
      split at hl
      case isTrue => cases hl
      case isFalse hs =>
        obtain ⟨⟨element, ctx₁⟩, h₁, hl⟩ := Option.bind_eq_some_iff.mp hl
        obtain ⟨hv₁, he₁, hr₁⟩ := hi e List.mem_cons_self hv h₁
        obtain ⟨hv₂, he₂, hg⟩ := build typeArray_eq hv₁ hl
        exact ⟨hv₂, he₁.trans he₂, .array (Int.not_lt.mp hs) (hr₁.mono he₂) hg⟩
    case slice e =>
      refine remembering hσ ht ?_
      intro ctx ctx' id hv hl
      obtain ⟨⟨element, ctx₁⟩, h₁, hl⟩ := Option.bind_eq_some_iff.mp hl
      obtain ⟨hv₁, he₁, hr₁⟩ := hi e List.mem_cons_self hv h₁
      obtain ⟨hv₂, he₂, hr₂⟩ := slice hσ ht hv₁ hl
      exact ⟨hv₂, he₁.trans he₂, hr₂⟩
    case function ps r =>
      refine remembering hσ ht ?_
      intro ctx ctx' id hv hl
      obtain ⟨⟨result, ctx₁⟩, h₁, hl⟩ := Option.bind_eq_some_iff.mp hl
      obtain ⟨⟨ids, ctx₂⟩, h₂, hl⟩ := Option.bind_eq_some_iff.mp hl
      obtain ⟨hv₁, he₁, hr₁⟩ := hi r List.mem_cons_self hv h₁
      obtain ⟨hv₂, he₂, hlen, hr₂⟩ := lowerTypes (fun p hp => hi p (List.mem_cons_of_mem _ hp)) hv₁ h₂
      obtain ⟨hv₃, he₃, hg⟩ := build typeFunction_eq hv₂ hl
      exact ⟨hv₃, he₁.trans (he₂.trans he₃),
        .function (hr₁.mono (he₂.trans he₃)) hlen (fun p hp => (hr₂ p hp).mono he₃) hg⟩
    case struct | enum | named =>
      refine remembering hσ ht ?_
      intro ctx ctx' id hv hl
      cases hl

end Lowers

end Coglet.Ir
