import Coglet.Ir.TypeTotality

namespace Coglet.Ir

open TypeObject TypeArena CogIrModule CogIrLowerContext

variable {σ : TypeArena} {frontend : Frontend} {ctx ctx' ctx₁ ctx₂ ctx₃ : CogIrLowerContext} {module module' : CogIrModule}
  {t u : TypeObject} {type : CogIrType} {id id' : CogIrTypeId}

section Inversion

variable {l : Address} {access : PointerAccess} {isVolatile : Bool} {e : TypeObject}

theorem represents_builtin {kind} :
    Represents ctx (.builtin l kind) id → ∃ type, builtinShape kind = some type ∧ ctx.module.getType id = some type
  | .builtin hs hg => ⟨_, hs, hg⟩
  | .nominal hn _ _ _ => by cases hn <;> contradiction

theorem represents_opaquePointer :
    Represents ctx (.opaquePointer l access isVolatile) id →
      ctx.module.getType id = some (.opaquePointer (access = .readonly) isVolatile)
  | .opaquePointer hg => hg
  | .nominal hn _ _ _ => by cases hn <;> contradiction

theorem represents_pointer :
    Represents ctx (.pointer l access isVolatile e) id →
      ∃ pointee, Represents ctx e pointee ∧
        ctx.module.getType id = some (.pointer pointee (access = .readonly) isVolatile)
  | .pointer he hg => ⟨_, he, hg⟩
  | .nominal hn _ _ _ => by cases hn <;> contradiction

theorem represents_array {size} :
    Represents ctx (.array l size e) id →
      0 ≤ size ∧ ∃ element, Represents ctx e element ∧ ctx.module.getType id = some (.array element size.toNat)
  | .array hs he hg => ⟨hs, _, he, hg⟩
  | .nominal hn _ _ _ => by cases hn <;> contradiction

theorem represents_function {abi callConv ps r} :
    Represents ctx (.function l abi callConv isVariadic ps r) id →
      ∃ result ids, Represents ctx r result ∧ ps.length = ids.length ∧
        (∀ p ∈ ps.zip ids, Represents ctx p.1 p.2) ∧ ctx.module.getType id =
          some (.function result ids (lowerFunctionAbi abi) (lowerCallingConvention callConv) isVariadic)
  | .function hr hl hp hg => ⟨_, _, hr, hl, hp, hg⟩
  | .nominal hn _ _ _ => by cases hn <;> contradiction

theorem represents_nominal (hn : t.isSlice ∨ t.isNominal) (h : Represents ctx t id) :
    ctx.findType t.address = some id ∧ ∃ type, ctx.module.getType id = some type ∧ ¬type.Structural := by
  match h with
  | .nominal _ hf hg hs => exact ⟨hf, _, hg, hs⟩
  | .builtin .. | .opaquePointer .. | .pointer .. | .array .. | .function .. => cases hn <;> contradiction

end Inversion

theorem ids_unique {ps qs : List TypeObject} {ids ids' : List CogIrTypeId} {Ts : List Coglet.Ty}
    (hi : ∀ p ∈ ps.zip ids, ∀ q ∈ qs.zip ids', p.1.toTy = q.1.toTy → p.2 = q.2)
    (hl : ps.length = ids.length) (hl' : qs.length = ids'.length)
    (hp : toTys ps = some Ts) (hq : toTys qs = some Ts) : ids = ids' := by
  induction ps generalizing qs ids ids' Ts
  case nil =>
    cases hp
    cases qs
    case nil => simp_all [eq_comm]
    case cons => obtain ⟨_, _, _, _, h⟩ := toTys_cons.mp hq; cases h
  case cons p ps hi' =>
    obtain ⟨T, Ts, hT, hTs, rfl⟩ := toTys_cons.mp hp
    cases qs
    case nil => cases hq
    case cons q qs =>
      obtain ⟨U, Us, hU, hUs, he⟩ := toTys_cons.mp hq
      cases he
      cases ids <;> cases ids' <;> simp only [List.length_nil, List.length_cons, Nat.add_right_cancel_iff] at hl hl'
      case cons.cons i is j js =>
        have hij : i = j := hi (p, i) List.mem_cons_self (q, j) List.mem_cons_self (hT.trans hU.symm)
        have hs := hi' (fun a ha b hb => hi a (List.mem_cons_of_mem _ ha) b (List.mem_cons_of_mem _ hb)) hl hl' hTs hUs
        rw [hij, hs]
      all_goals contradiction

-- Two representations of one type are equal.
theorem Represents.unique (hσ : Reachable σ) (hv : Valid σ ctx) (ht : σ.Resolved t) (hu : σ.Resolved u)
    (h : Represents ctx t id) (h' : Represents ctx u id') (he : t.toTy = u.toTy) : id = id' := by
  have ⟨T, hT⟩ := ht.toTy_isSome
  induction h generalizing u id' T
  case builtin hs hg =>
    obtain ⟨_, rfl⟩ := builtin_of_toTy he.symm
    have ⟨_, hs', hg'⟩ := represents_builtin h'
    cases hs.symm.trans hs'
    exact hv.distinct _ _ _ hg hg' (builtinShape_structural hs)
  case opaquePointer hg =>
    obtain ⟨_, rfl⟩ := shape_of_toTy he.symm
    exact hv.distinct _ _ _ hg (represents_opaquePointer h') trivial
  case pointer e pointee _ hr hg hi =>
    obtain ⟨E, hE, rfl⟩ := Option.map_eq_some_iff.mp hT
    obtain ⟨_, e', rfl, hE'⟩ := shape_of_toTy (he ▸ hT)
    have ⟨pointee', hr', hg'⟩ := represents_pointer h'
    have hpp : pointee = pointee' :=
      hi (ht.child List.mem_cons_self) (hu.child List.mem_cons_self) hr' (hE.trans hE'.symm) E hE
    exact hv.distinct _ _ _ hg (hpp ▸ hg') trivial
  case array e element _ hs hr hg hi =>
    obtain ⟨E, hE, rfl⟩ := Option.map_eq_some_iff.mp hT
    obtain ⟨_, e', rfl, hE'⟩ := shape_of_toTy (he ▸ hT)
    have ⟨_, element', hr', hg'⟩ := represents_array h'
    have hee : element = element' :=
      hi (ht.child List.mem_cons_self) (hu.child List.mem_cons_self) hr' (hE.trans hE'.symm) E hE
    exact hv.distinct _ _ _ hg (hee ▸ hg') trivial
  case function ps r ids result _ hr hl hp hg hi his =>
    obtain ⟨Ts, R, hTs, hR, rfl⟩ := toTy_function.mp hT
    obtain ⟨_, qs, r', rfl, hUs, hR'⟩ := shape_of_toTy (he ▸ hT)
    have ⟨result', ids', hr', hl', hq, hg'⟩ := represents_function h'
    have hrr : result = result' :=
      hi (ht.child List.mem_cons_self) (hu.child List.mem_cons_self) hr' (hR.trans hR'.symm) R hR
    have hii : ids = ids' := by
      refine ids_unique (fun p hp q hq' he => ?_) hl hl' hTs hUs
      have hpr := ht.child (List.mem_cons_of_mem _ (List.of_mem_zip hp).left)
      have hqr := hu.child (List.mem_cons_of_mem _ (List.of_mem_zip hq').left)
      have ⟨P, hP⟩ := hpr.toTy_isSome
      exact his p hp hpr hqr (hq q hq') he P hP
    exact hv.distinct _ _ _ hg (hrr ▸ hii ▸ hg') trivial
  case nominal t _ _ hn hf _ _ =>
    have htu : t = u := by
      cases hn
      case inl hs => exact slice_eq_of_toTy_eq hσ ht hu hs he
      case inr hn => exact nominal_eq_of_toTy_eq hn he
    have ⟨hf', _⟩ := represents_nominal (htu ▸ hn) h'
    exact Option.some.inj (hf.symm.trans (htu ▸ hf'))

theorem toTys_eq_of_ids {ps qs : List TypeObject} {ids : List CogIrTypeId}
    (hi : ∀ p ∈ ps.zip ids, ∀ q ∈ qs.zip ids, p.2 = q.2 → p.1.toTy = q.1.toTy)
    (hl : ps.length = ids.length) (hl' : qs.length = ids.length) : toTys ps = toTys qs := by
  induction ids generalizing ps qs <;> cases ps <;> cases qs <;>
    simp only [List.length_nil, List.length_cons, Nat.add_right_cancel_iff] at hl hl'
  case nil.nil.nil => rfl
  case cons.cons.cons i is hi' p ps q qs =>
    have hpq : p.toTy = q.toTy := hi (p, i) List.mem_cons_self (q, i) List.mem_cons_self rfl
    have hs := hi' (fun a ha b hb => hi a (List.mem_cons_of_mem _ ha) b (List.mem_cons_of_mem _ hb)) hl hl'
    rw [toTys, toTys, hpq, hs]
  all_goals contradiction

theorem lowerFunctionAbi_inj {a a' : FunctionAbi} (h : lowerFunctionAbi a = lowerFunctionAbi a') : a = a' := by
  cases a <;> cases a' <;> first | rfl | cases h

theorem lowerCallingConvention_inj {c c' : CCallingConvention}
    (h : lowerCallingConvention c = lowerCallingConvention c') : c = c' := by
  cases c <;> cases c' <;> first | rfl | cases h

theorem readonly_inj {a a' : PointerAccess} (h : decide (a = .readonly) = decide (a' = .readonly)) : a = a' := by
  cases a <;> cases a' <;> first | rfl | cases h

-- Types with the same representation are equal.
theorem Represents.toTy_eq (hv : Valid σ ctx) (ht : σ.Resolved t) (hu : σ.Resolved u)
    (h : Represents ctx t id) (h' : Represents ctx u id) : t.toTy = u.toTy := by
  induction h generalizing u
  case nominal hn hf hg hs =>
    cases h'
    case nominal hn' _ hf' => rw [hv.unique _ _ ht hu hn hn' _ hf hf']
    case builtin hb hg' => exact absurd (Option.some.inj (hg'.symm.trans hg) ▸ builtinShape_structural hb) hs
    case opaquePointer hg' | pointer _ hg' | array _ _ hg' | function _ _ _ hg' =>
      exact absurd (Option.some.inj (hg'.symm.trans hg) ▸ trivial) hs
  case builtin hb hg =>
    cases h'
    case nominal hs' _ hg' _ => exact absurd (Option.some.inj (hg.symm.trans hg') ▸ builtinShape_structural hb) hs'
    case builtin hb' hg' =>
      cases hg.symm.trans hg'
      rw [toTy, toTy, builtinShape_inj hb hb']
    case opaquePointer hg' | pointer _ hg' | array _ _ hg' | function _ _ _ hg' =>
      cases hg.symm.trans hg'
      exact (builtinShape_leaf hb).elim
  case opaquePointer hg =>
    cases h'
    case nominal hs' _ hg' _ => exact absurd (Option.some.inj (hg.symm.trans hg') ▸ trivial) hs'
    case builtin hb hg' =>
      cases hg.symm.trans hg'
      exact (builtinShape_leaf hb).elim
    case opaquePointer hg' =>
      obtain ⟨ha, hvol⟩ := CogIrType.opaquePointer.inj (Option.some.inj (hg.symm.trans hg'))
      rw [toTy, toTy, readonly_inj ha, hvol]
    case pointer _ hg' | array _ _ hg' | function _ _ _ hg' => cases hg.symm.trans hg'
  case pointer hg hi =>
    cases h'
    case nominal hs' _ hg' _ => exact absurd (Option.some.inj (hg.symm.trans hg') ▸ trivial) hs'
    case builtin hb hg' =>
      cases hg.symm.trans hg'
      exact (builtinShape_leaf hb).elim
    case pointer hr' hg' =>
      obtain ⟨hp, ha, hvol⟩ := CogIrType.pointer.inj (Option.some.inj (hg.symm.trans hg'))
      have he := hi (ht.child List.mem_cons_self) (hu.child List.mem_cons_self) (hp ▸ hr')
      rw [toTy, toTy, readonly_inj ha, hvol, he]
    case opaquePointer hg' | array _ _ hg' | function _ _ _ hg' => cases hg.symm.trans hg'
  case array hs _ hg hi =>
    cases h'
    case nominal hs' _ hg' _ => exact absurd (Option.some.inj (hg.symm.trans hg') ▸ trivial) hs'
    case builtin hb hg' =>
      cases hg.symm.trans hg'
      exact (builtinShape_leaf hb).elim
    case array hs' hr' hg' =>
      obtain ⟨hp, hn⟩ := CogIrType.array.inj (Option.some.inj (hg.symm.trans hg'))
      have he := hi (ht.child List.mem_cons_self) (hu.child List.mem_cons_self) (hp ▸ hr')
      have hsize := (Int.toNat_of_nonneg hs).symm.trans ((congrArg Int.ofNat hn).trans (Int.toNat_of_nonneg hs'))
      rw [toTy, toTy, hsize, he]
    case opaquePointer hg' | pointer _ hg' | function _ _ _ hg' => cases hg.symm.trans hg'
  case function hl _ hg hi his =>
    cases h'
    case nominal hs' _ hg' _ => exact absurd (Option.some.inj (hg.symm.trans hg') ▸ trivial) hs'
    case builtin hb hg' =>
      cases hg.symm.trans hg'
      exact (builtinShape_leaf hb).elim
    case function hr' hl' hp' hg' =>
      obtain ⟨hr, hids, ha, hc, hvar⟩ := CogIrType.function.inj (Option.some.inj (hg.symm.trans hg'))
      subst hids
      have he := hi (ht.child List.mem_cons_self) (hu.child List.mem_cons_self) (hr ▸ hr')
      have hes := toTys_eq_of_ids (fun p hp q hq hpq => his p hp
        (ht.child (List.mem_cons_of_mem _ (List.of_mem_zip hp).left))
        (hu.child (List.mem_cons_of_mem _ (List.of_mem_zip hq).left)) (hpq ▸ hp' q hq)) hl hl'
      rw [toTy, toTy, lowerFunctionAbi_inj ha, lowerCallingConvention_inj hc, hvar, he, hes]
    case opaquePointer hg' | pointer _ hg' | array _ _ hg' => cases hg.symm.trans hg'

-- A step of the lowering that concerns types.
inductive SessionStep (σ : TypeArena) (frontend : Frontend) (ctx : CogIrLowerContext) : CogIrLowerContext → Prop
  | lowerType {t : TypeObject} {id : CogIrTypeId} {ctx' : CogIrLowerContext} :
    σ.Resolved t → cogIrLowerType frontend t ctx = some (id, ctx') → SessionStep σ frontend ctx ctx'
  -- The other parts of the lowering call the builders of structural types directly.
  | build {type : CogIrType} {id : CogIrTypeId} {module' : CogIrModule} :
    type.Structural → ctx.module.internType type = some (id, module') →
    SessionStep σ frontend ctx { ctx with module := module' }
  | markIncomplete {id : CogIrTypeId} {module' : CogIrModule} :
    ctx.module.markIncompleteAggregateType id = some module' → SessionStep σ frontend ctx { ctx with module := module' }
  | defineAggregate {id : CogIrTypeId} {fields isReprC isPacked align} {module' : CogIrModule} :
    ctx.module.defineAggregateType id fields isReprC isPacked align = some module' →
    SessionStep σ frontend ctx { ctx with module := module' }
  | defineEnum {abiTypeKnown} {id backing : CogIrTypeId} {members isReprC backingAbi} {module' : CogIrModule} :
    ctx.module.defineEnumType abiTypeKnown id backing members isReprC backingAbi = some module' →
    SessionStep σ frontend ctx { ctx with module := module' }

def SessionRun (σ : TypeArena) (frontend : Frontend) : CogIrLowerContext → CogIrLowerContext → Prop :=
  Relation.ReflTransGen (SessionStep σ frontend)

-- The lowering of a program starts with the declaration of its structs and enums.
def Session (σ : TypeArena) (frontend : Frontend) (ctx : CogIrLowerContext) : Prop :=
  ∃ start, predeclareNominalTypes σ.declarations lowerContextInit = some start ∧ SessionRun σ frontend start ctx

theorem SessionStep.spec (hσ : Reachable σ) (hv : Valid σ ctx) (h : SessionStep σ frontend ctx ctx') :
    Valid σ ctx' ∧ Extends ctx ctx' := by
  have define {module'} (h : ∃ type id kind name body, ctx.module.getType id = some type ∧ ¬type.Structural ∧
      module' = ctx.module.replaceBody id kind name body) :
      Valid σ { ctx with module := module' } ∧ Extends ctx { ctx with module := module' } := by
    obtain ⟨_, _, kind, name, body, hg, hs, rfl⟩ := h
    exact hv.replaceBody kind name body hg hs
  cases h
  case lowerType ht hl =>
    have ⟨hv', he, _⟩ := Lowers.lowerType hσ ht hv hl
    exact ⟨hv', he⟩
  case build hi => exact hv.internType hi
  case markIncomplete h => exact define (markIncompleteAggregateType_eq h)
  case defineAggregate h => exact define (defineAggregateType_eq h)
  case defineEnum h => exact define (defineEnumType_eq h)

theorem SessionRun.spec (hσ : Reachable σ) (hv : Valid σ ctx) (h : SessionRun σ frontend ctx ctx') :
    Valid σ ctx' ∧ Extends ctx ctx' := by
  induction h
  case refl => exact ⟨hv, .refl⟩
  case tail _ hs hi =>
    have ⟨hv', he'⟩ := hs.spec hσ hi.left
    exact ⟨hv', hi.right.trans he'⟩

theorem predeclareNominalTypes_spec (hσ : Reachable σ) {declarations : List NominalDeclaration}
    (hm : ∀ d ∈ declarations, d ∈ σ.declarations) (hv : Valid σ ctx)
    (h : predeclareNominalTypes declarations ctx = some ctx') :
    Valid σ ctx' ∧ Extends ctx ctx' ∧ ∀ d ∈ declarations, ∃ id, ctx'.findType d.type.address = some id := by
  induction declarations generalizing ctx
  case nil =>
    cases h
    exact ⟨hv, .refl, fun _ h => absurd h List.not_mem_nil⟩
  case cons d ds hi =>
    have ⟨hd, hds⟩ := List.forall_mem_cons.mp hm
    obtain ⟨⟨id, ctx₁⟩, h₁, h⟩ := Option.bind_eq_some_iff.mp h
    obtain ⟨⟨id, module'⟩, hb, he⟩ := Option.map_eq_some_iff.mp h₁
    cases he
    obtain ⟨ctx₂, h₂, h⟩ := Option.bind_eq_some_iff.mp h
    have ⟨hmem, hnominal⟩ := hσ.valid.declaration d hd
    have ⟨hv₂, he₂, _⟩ := hv.declareNominalType hσ (.nominal hmem hnominal) (.inr hnominal) hb h₂
    have ⟨hv', he', hk⟩ := hi hds hv₂ h
    exact ⟨hv', he₂.trans he', List.forall_mem_cons.mpr ⟨⟨id, he'.typeMap (findType_rememberType h₂)⟩, hk⟩⟩

theorem Session.spec (hσ : Reachable σ) (h : Session σ frontend ctx) :
    Valid σ ctx ∧ Total.Declared σ ctx ∧ ctx.module.isFrozen = false := by
  have ⟨start, hs, hr⟩ := h
  have ⟨hv₁, he₁, hd⟩ := predeclareNominalTypes_spec hσ (fun _ h => h) .init hs
  have ⟨hv₂, he₂⟩ := SessionRun.spec hσ hv₁ hr
  exact ⟨hv₂, fun d h => (hd d h).imp fun _ => he₂.typeMap, he₂.isFrozen.trans he₁.isFrozen⟩

-- Two resolved types are equal in the checker exactly if they have one identifier in the lowered
-- program, and every type that a value can have at run time gets an identifier.
theorem typeEqual_iff_same_type_id (hσ : Reachable σ) :
    (Equivalence fun t u : { t // σ.Resolved t } => (t.val.typeEqual u.val : Prop)) ∧
    ∀ ctx, Session σ frontend ctx → ∀ t, σ.Resolved t →
      (t.Runtime → ctx.module.types.length + weight t ≤ COG_IR_ID_INVALID →
        ∃ id ctx₁, cogIrLowerType frontend t ctx = some (id, ctx₁)) ∧
      ∀ id ctx₁, cogIrLowerType frontend t ctx = some (id, ctx₁) →
        ∀ ctx₂, SessionRun σ frontend ctx₁ ctx₂ → ∀ u, σ.Resolved u →
          ∀ id' ctx₃, cogIrLowerType frontend u ctx₂ = some (id', ctx₃) → (t.typeEqual u ↔ id = id') := by
  refine ⟨typeEqual_equivalence hσ, fun ctx hs t ht => ⟨fun hr hroom => ?_, ?_⟩⟩
  case refine_1 =>
    have ⟨hv, hd, hf⟩ := Session.spec hσ hs
    obtain ⟨id, ctx', h, _⟩ := Total.lowerType hσ ht hr hv hd hf hroom
    exact ⟨id, ctx', h⟩
  case refine_2 =>
    intro id ctx₁ h₁ ctx₂ hrun u hu id' ctx₃ h₃
    have ⟨hv, _, _⟩ := Session.spec hσ hs
    have ⟨hv₁, _, hr₁⟩ := Lowers.lowerType hσ ht hv h₁
    have ⟨hv₂, he₂⟩ := SessionRun.spec hσ hv₁ hrun
    have ⟨hv₃, he₃, hr₃⟩ := Lowers.lowerType hσ hu hv₂ h₃
    have hr := hr₁.mono (he₂.trans he₃)
    rw [typeEqual_iff_toTy hσ ht hu]
    exact ⟨hr.unique hσ hv₃ ht hu hr₃, fun h => hr.toTy_eq hv₃ ht hu (h ▸ hr₃)⟩

section Example

def pointTypes : TypeArena :=
  (TypeArena.initial.declareStructShell false "Point").2

def pointSliceTypes : TypeArena :=
  (pointTypes.internSliceType (.struct 13) .readonly).2

def pointerToSlice (l : Address) : TypeObject :=
  .pointer l .mutable false (.slice 14 .readonly (.struct 13))

-- Two pointer objects with the same contents.
def pointerTypes : TypeArena :=
  (pointSliceTypes.allocate (pointerToSlice 15)).allocate (pointerToSlice 16)

theorem pointTypes_resolved : pointTypes.Resolved (.struct 13) :=
  .nominal (List.mem_append_right _ List.mem_cons_self) rfl

theorem pointTypes_reachable : Reachable pointTypes :=
  Relation.ReflTransGen.refl.tail (.declareStructShell false "Point")

theorem pointSlice_resolved : pointSliceTypes.Resolved (.slice 14 .readonly (.struct 13)) :=
  internSliceType_resolved pointTypes_reachable pointTypes_resolved

theorem pointerTypes_run : Run pointSliceTypes pointerTypes := by
  have h : Step pointSliceTypes (pointSliceTypes.allocate (pointerToSlice 15)) :=
    .allocate rfl rfl (List.forall_mem_singleton.mpr pointSlice_resolved.mem)
  refine .tail (.tail .refl h) (.allocate rfl rfl ?_)
  exact List.forall_mem_singleton.mpr (h.grows.objects _ pointSlice_resolved.mem)

theorem pointerTypes_reachable : Reachable pointerTypes :=
  Reachable.run (pointTypes_reachable.tail (.internSliceType .readonly pointTypes_resolved)) pointerTypes_run

theorem pointerToSlice_resolved {l : Address} (h : pointerToSlice l ∈ pointerTypes.objects) :
    pointerTypes.Resolved (pointerToSlice l) :=
  ⟨h, rfl, Bool.noConfusion, List.forall_mem_singleton.mpr (pointSlice_resolved.mono pointerTypes_run.grows)⟩

def pointFrontend : Frontend where
  pointerBits := 64
  typeUsize   := (7, .u64)
  formatName  := fun _ => "readonly Point[]"
  isUsize     := rfl

def pointSession : CogIrLowerContext where
  module  := { types := [.nominal .struct "Point" .declared], isFrozen := false }
  typeMap := [(13, 0)]

theorem pointSession_session : Session pointerTypes pointFrontend pointSession :=
  ⟨pointSession, rfl, .refl⟩

theorem pointers_same_type_id :
    (∃ id ctx, cogIrLowerType pointFrontend (pointerToSlice 15) pointSession = some (id, ctx)) ∧
    ((pointerToSlice 15).typeEqual (pointerToSlice 16) ↔ 4 = 4) := by
  have h₁₅ := pointerToSlice_resolved (List.mem_append_left _ (List.mem_append_right _ List.mem_cons_self))
  have h₁₆ := pointerToSlice_resolved (List.mem_append_right _ List.mem_cons_self)
  have hr : (pointerToSlice 15).Runtime := by
    refine ⟨rfl, List.forall_mem_singleton.mpr ⟨rfl, List.forall_mem_singleton.mpr ⟨rfl, ?_⟩⟩⟩
    exact fun _ h => absurd h List.not_mem_nil
  have h := (typeEqual_iff_same_type_id pointerTypes_reachable).right pointSession pointSession_session _ h₁₅
  exact ⟨h.left hr (by decide), h.right 4 _ rfl _ .refl _ h₁₆ 4 _ rfl⟩

end Example

end Coglet.Ir
