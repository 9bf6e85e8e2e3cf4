import Coglet.Ir.TypeRepresentation

namespace Coglet.Ir

open TypeObject TypeArena CogIrModule CogIrLowerContext

variable {σ : TypeArena} {frontend : Frontend} {ctx ctx' ctx₁ ctx₂ ctx₃ : CogIrLowerContext} {module module' : CogIrModule}
  {t u : TypeObject} {type : CogIrType} {id id' : CogIrTypeId}

mutual

-- The number of table entries that the lowering of a type adds at most.
def weight : TypeObject → Nat
  | .builtin .. | .opaquePointer .. => 1
  | .pointer _ _ _ e | .array _ _ e => weight e + 1
  | .slice _ _ e => weight e + 3
  | .function _ _ _ _ ps r => weight r + weights ps + 1
  | .struct _ | .enum _ | .named .. => 0

def weights : List TypeObject → Nat
  | [] => 0
  | t :: ts => weight t + weights ts

end

-- The lowering adds at most `n` types, and it keeps the identifiers of all types that are heavier
-- than `w`.
structure Bounded (σ : TypeArena) (w n : Nat) (ctx ctx' : CogIrLowerContext) : Prop where
  isFrozen : ctx'.module.isFrozen = ctx.module.isFrozen
  length   : ctx'.module.types.length ≤ ctx.module.types.length + n
  frame    : ∀ u, σ.Resolved u → w < weight u → ctx'.findType u.address = ctx.findType u.address

namespace Bounded

variable {w w' n m : Nat}

theorem trans (h₁ : Bounded σ w n ctx₁ ctx₂) (h₂ : Bounded σ w m ctx₂ ctx₃) : Bounded σ w (n + m) ctx₁ ctx₃ where
  isFrozen     := h₂.isFrozen.trans h₁.isFrozen
  length       := by have := h₁.length; have := h₂.length; omega
  frame u hu h := (h₂.frame u hu h).trans (h₁.frame u hu h)

theorem mono (h : Bounded σ w n ctx₁ ctx₂) (hw : w ≤ w') : Bounded σ w' n ctx₁ ctx₂ where
  isFrozen     := h.isFrozen
  length       := h.length
  frame u hu h' := h.frame u hu (Nat.lt_of_le_of_lt hw h')

end Bounded

-- The lowering of a type succeeds in every session that has room for the type.
def Total {α : Type} (σ : TypeArena) (w n : Nat) (lower : CogIrLowerContext → Option (α × CogIrLowerContext))
    (ctx : CogIrLowerContext) : Prop :=
  ctx.module.isFrozen = false → ctx.module.types.length + n ≤ COG_IR_ID_INVALID →
    ∃ result ctx', lower ctx = some (result, ctx') ∧ Bounded σ w n ctx ctx'

namespace Total

variable {w w' n m : Nat} {α : Type} {construct : CogIrLowerContext → Option (CogIrTypeId × CogIrLowerContext)}

theorem mono {lower : CogIrLowerContext → Option (α × CogIrLowerContext)} (h : Total σ w n lower ctx) (hw : w ≤ w') :
    Total σ w' n lower ctx := by
  intro hf hroom
  have ⟨result, ctx', hl, hb⟩ := h hf hroom
  exact ⟨result, ctx', hl, hb.mono hw⟩

theorem bind {β : Type} {lower : CogIrLowerContext → Option (α × CogIrLowerContext)}
    (next : α → CogIrLowerContext → Option (β × CogIrLowerContext)) (h : Total σ w n lower ctx)
    (h' : ∀ {result ctx'}, lower ctx = some (result, ctx') → Total σ w m (next result) ctx') :
    Total σ w (n + m) (fun ctx => do let (result, ctx) ← lower ctx; next result ctx) ctx := by
  intro hf hroom
  have ⟨result, ctx₁, h₁, hb₁⟩ := h hf (by omega)
  have hl₁ := hb₁.length
  have ⟨result', ctx₂, h₂, hb₂⟩ := h' h₁ (hb₁.isFrozen.trans hf) (by omega)
  exact ⟨result', ctx₂, Option.bind_eq_some_iff.mpr ⟨_, h₁, h₂⟩, hb₁.trans hb₂⟩

-- A construction leaves the entry of its own type to the caller, or it makes the entry itself.
theorem remembering (hσ : Reachable σ) (ht : σ.Resolved t)
    (h : ctx.findType t.address = none → ctx.module.isFrozen = false →
      ctx.module.types.length + n ≤ COG_IR_ID_INVALID → ∃ id ctx', construct ctx = some (id, ctx') ∧
        Bounded σ (weight t) n ctx ctx' ∧ (ctx'.findType t.address = none ∨ ctx'.findType t.address = some id)) :
    Total σ (weight t) n (remembering t.address construct) ctx := by
  intro hf hroom
  rw [CogIrLowerContext.remembering]
  split
  case h_1 id _ => exact ⟨id, ctx, rfl, rfl, Nat.le_add_right _ _, fun _ _ _ => rfl⟩
  case h_2 hn =>
    obtain ⟨id, ctx₁, hc, hb, he⟩ := h hn hf hroom
    rcases he with hn₁ | hs₁
    case inl =>
      refine ⟨id, _, Option.bind_eq_some_iff.mpr ⟨_, hc,
        Option.bind_eq_some_iff.mpr ⟨_, rememberType_none hn₁, rfl⟩⟩, hb.isFrozen, hb.length, fun u hu hw => ?_⟩
      have hne : u.address ≠ t.address := fun ha =>
        absurd (hσ.valid.coherent.eq_of_address_eq hu.mem ht.mem ha ▸ hw) (Nat.lt_irrefl _)
      rw [findType_append hn₁, if_neg hne, hb.frame u hu hw]
    case inr =>
      refine ⟨id, ctx₁, Option.bind_eq_some_iff.mpr ⟨_, hc, Option.bind_eq_some_iff.mpr ⟨ctx₁, ?_, rfl⟩⟩, hb⟩
      simp [rememberType, hs₁]

theorem structural (hσ : Reachable σ) (ht : σ.Resolved t) (hw : w < weight t) (h : Total σ w n construct ctx) :
    Total σ (weight t) n (CogIrLowerContext.remembering t.address construct) ctx := by
  refine remembering hσ ht fun hn hf hroom => ?_
  have ⟨id, ctx', hc, hb⟩ := h hf hroom
  exact ⟨id, ctx', hc, hb.mono (Nat.le_of_lt hw), .inl ((hb.frame t ht hw).trans hn)⟩

theorem build {builder : CogIrModule → Option (CogIrTypeId × CogIrModule)}
    (hb : builder ctx.module = ctx.module.internType type) : Total σ w 1 (·.build builder) ctx := by
  intro hf hroom
  have ⟨id, module', hi⟩ : ∃ id module', ctx.module.internType type = some (id, module') :=
    internType_isSome hf (by omega)
  refine ⟨id, _, Option.map_eq_some_iff.mpr ⟨_, hb.trans hi, rfl⟩, ?_⟩
  exact ⟨(internType_eq hi).left, internType_length hi, fun _ _ _ => rfl⟩

theorem builtin {l kind} (hσ : Reachable σ) (ht : σ.Resolved (.builtin l kind))
    (hr : (TypeObject.builtin l kind).isRuntime) : Total σ 1 1 (lowerBuiltin (l, kind)) ctx := by
  have ⟨type, hs⟩ : ∃ type, builtinShape kind = some type := by
    cases kind <;> first | exact ⟨_, rfl⟩ | cases hr
  exact structural hσ ht Nat.zero_lt_one (build (by rw [typeBuiltin_eq, hs, Option.bind_some]))

theorem usize_isRuntime : (TypeObject.builtin frontend.typeUsize.1 frontend.typeUsize.2).isRuntime := by
  have h := frontend.isUsize
  generalize frontend.typeUsize = type at *
  rw [TypeArena.fixedIntegerTypeForBits.eq_def] at h
  split at h <;> cases h <;> rfl

theorem declareNominalType {kind name} (hf : module.isFrozen = false) (hr : module.types.length < COG_IR_ID_INVALID) :
    module.declareNominalType kind name =
      some (module.types.length, { module with types := module.types ++ [.nominal kind name .declared] }) := by
  rw [CogIrModule.declareNominalType, if_neg (by simp [hf]), appendType, if_neg (by simp [hf, hr])]

theorem sliceStruct {l access e data length type} (hσ : Reachable σ) (name : String)
    (ht : σ.Resolved (.slice l access e)) (hf : ctx.module.isFrozen = false)
    (hroom : ctx.module.types.length < COG_IR_ID_INVALID) (hn : ctx.findType l = none)
    (hd : ctx.module.getType data = some type) (hl : Represents ctx u length) :
    ∃ ctx', (do
      let (result, ctx) ← ctx.build (·.declareNominalType .struct name)
      let ctx ← ctx.rememberType l result
      let module ← ctx.module.defineAggregateType result (sliceFields data length) false false 0
      some (result, { ctx with module })) = some (ctx.module.types.length, ctx') ∧
    Bounded σ (weight (.slice l access e)) 1 ctx ctx' ∧ ctx'.findType l = some ctx.module.types.length := by
  have ⟨_, hl⟩ := hl.getType
  have known {id type type'} (hg : ctx.module.getType id = some type) : ((ctx.module.types ++ [type'])[id]?).isSome := by
    rw [List.getElem?_append_left (List.getElem?_eq_some_iff.mp hg).1, show ctx.module.types[id]? = _ from hg]
    rfl
  have h₁ : ctx.build (·.declareNominalType .struct name) =
      some (ctx.module.types.length, { ctx with module := { ctx.module with
        types := ctx.module.types ++ [.nominal .struct name .declared] } }) :=
    Option.map_eq_some_iff.mpr ⟨_, declareNominalType hf hroom, rfl⟩
  refine ⟨_, Option.bind_eq_some_iff.mpr ⟨_, h₁, Option.bind_eq_some_iff.mpr ⟨_, rememberType_none hn,
    Option.bind_eq_some_iff.mpr ⟨_, defineAggregateType_declared hf List.getElem?_concat_length ?_, rfl⟩⟩⟩, ⟨rfl, ?_, ?_⟩, ?_⟩
  case refine_1 =>
    intro field hfield
    simp only [sliceFields, List.mem_cons, List.not_mem_nil, or_false] at hfield
    rcases hfield with rfl | rfl
    case inl => exact known hd
    case inr => exact known hl
  case refine_2 => simp [replaceBody]
  case refine_3 =>
    intro u hu hw
    have hne : u.address ≠ l := fun ha =>
      absurd (hσ.valid.coherent.eq_of_address_eq hu.mem ht.mem ha ▸ hw) (Nat.lt_irrefl _)
    exact (findType_append hn).trans (if_neg hne)
  case refine_4 => exact (findType_append hn).trans (if_pos rfl)

theorem slice (frontend : Frontend) {l access e element} (hσ : Reachable σ) (hv : Valid σ ctx)
    (ht : σ.Resolved (.slice l access e)) (he : Represents ctx e element) (hn : ctx.findType l = none) (hf : ctx.module.isFrozen = false)
    (hroom : ctx.module.types.length + 3 ≤ COG_IR_ID_INVALID) :
    ∃ id ctx', lowerSlice frontend (.slice l access e) access element ctx = some (id, ctx') ∧
      Bounded σ (weight e + 3) 3 ctx ctx' ∧ ctx'.findType l = some id := by
  have husize := TypeArena.fixedIntegerTypeForBits_resolved hσ frontend.isUsize
  have ⟨_, hg⟩ := he.getType
  have ⟨data, ctx₁, h₁, hb₁⟩ : ∃ id ctx', ctx.build (·.typePointer element (access = .readonly) false) = some (id, ctx') ∧
      Bounded σ 1 1 ctx ctx' := build (if_pos (by simp [hg])) hf (by omega)
  have hl₁ := hb₁.length
  have hf₁ := hb₁.isFrozen.trans hf
  have ⟨hv₁, he₁, hg₁⟩ := Lowers.build typePointer_eq hv h₁
  have ⟨length, ctx₂, h₂, hb₂⟩ := builtin hσ husize usize_isRuntime hf₁ (by omega)
  have hl₂ := hb₂.length
  have hf₂ := hb₂.isFrozen.trans hf₁
  have ⟨hv₂, he₂, hr₂⟩ := Lowers.builtin hσ husize hv₁ h₂
  -- No other type has taken the entry of the slice in the type map.
  have hn₂ : ctx₂.findType l = none :=
    (hb₂.frame _ ht (by simp [weight])).trans ((hb₁.frame _ ht (by simp [weight])).trans hn)
  have ⟨ctx', h', hb', hs'⟩ := sliceStruct hσ (frontend.formatName (.slice l access e)) ht hf₂ (by omega) hn₂
    (he₂.types.keyed _ _ hg₁ trivial) hr₂
  have hb₁₂ : Bounded σ (weight e + 3) 2 ctx ctx₂ := (hb₁.trans hb₂).mono (by omega)
  refine ⟨ctx₂.module.types.length, ctx', ?_, hb₁₂.trans hb', hs'⟩
  exact Option.bind_eq_some_iff.mpr ⟨_, h₁, Option.bind_eq_some_iff.mpr ⟨_, h₂, h'⟩⟩

-- All struct and enum types are in the type map.
def Declared (σ : TypeArena) (ctx : CogIrLowerContext) : Prop :=
  ∀ d ∈ σ.declarations, ∃ id, ctx.findType d.type.address = some id

theorem lowerTypes {ts : List TypeObject} (hl : ∀ t ∈ ts, Lowers σ t (cogIrLowerType frontend t))
    (hi : ∀ t ∈ ts, ∀ ctx, Valid σ ctx → Declared σ ctx → Total σ (weight t) (weight t) (cogIrLowerType frontend t) ctx)
    (hv : Valid σ ctx) (hd : Declared σ ctx) : Total σ (weights ts) (weights ts) (cogIrLowerTypes frontend ts) ctx := by
  intro hf hroom
  induction ts generalizing ctx
  case nil => exact ⟨[], ctx, rfl, rfl, Nat.le_refl _, fun _ _ _ => rfl⟩
  case cons t ts hi' =>
    have ⟨hlt, hlts⟩ := List.forall_mem_cons.mp hl
    have ⟨hit, hits⟩ := List.forall_mem_cons.mp hi
    rw [weights] at *
    have ⟨id, ctx₁, h₁, hb₁⟩ := hit ctx hv hd hf (by omega)
    have ⟨hv₁, he₁, _⟩ := hlt hv h₁
    have hl₁ := hb₁.length
    have hd₁ : Declared σ ctx₁ := fun d h => (hd d h).imp fun _ => he₁.typeMap
    have ⟨ids, ctx₂, h₂, hb₂⟩ := hi' hlts hits hv₁ hd₁ (hb₁.isFrozen.trans hf) (by omega)
    refine ⟨id :: ids, ctx₂, ?_, (hb₁.mono (by omega)).trans (hb₂.mono (by omega))⟩
    exact Option.bind_eq_some_iff.mpr ⟨_, h₁, Option.bind_eq_some_iff.mpr ⟨_, h₂, rfl⟩⟩

theorem lowerType (hσ : Reachable σ) (ht : σ.Resolved t) (hr : t.Runtime) (hv : Valid σ ctx) (hd : Declared σ ctx) :
    Total σ (weight t) (weight t) (cogIrLowerType frontend t) ctx := by
  induction t using TypeObject.induct generalizing ctx
  case step t hi =>
    obtain ⟨head, hchildren⟩ : t.isRuntime ∧ ∀ c ∈ t.children, c.Runtime := by
      cases hr
      case intro hh hc => exact ⟨hh, hc⟩
    replace hi c (hc : c ∈ t.children) {ctx} (hv : Valid σ ctx) (hd : Declared σ ctx) :
        Total σ (weight c) (weight c) (cogIrLowerType frontend c) ctx :=
      hi c hc (ht.child hc) (hchildren c hc) hv hd
    have hl c (hc : c ∈ t.children) : Lowers σ c (cogIrLowerType frontend c) := .lowerType hσ (ht.child hc)
    cases t <;> rw [cogIrLowerType]
    case builtin => exact builtin hσ ht head
    case opaquePointer => exact structural hσ ht Nat.zero_lt_one (build rfl)
    case pointer access isVolatile e =>
      have h := bind (m := 1) (fun element ctx => ctx.build (·.typePointer element (access = .readonly) isVolatile))
        (hi e List.mem_cons_self hv hd) fun h₁ => by
          obtain ⟨_, _, hr₁⟩ := hl e List.mem_cons_self hv h₁
          obtain ⟨_, hg⟩ := hr₁.getType
          exact build (if_pos (by simp [hg]))
      exact structural hσ ht (Nat.lt_succ_self (weight e)) h
    case array size e =>
      have hs : ¬size < 0 := Int.not_lt.mpr (of_decide_eq_true head)
      have h := bind (m := 1) (fun element ctx => ctx.build (·.typeArray element size.toNat))
        (hi e List.mem_cons_self hv hd) fun h₁ => by
          obtain ⟨_, _, hr₁⟩ := hl e List.mem_cons_self hv h₁
          obtain ⟨_, hg⟩ := hr₁.getType
          exact build (if_pos (by simp [hg]))
      refine structural hσ ht (Nat.lt_succ_self (weight e)) fun hf hroom => ?_
      obtain ⟨id, ctx', h, hb⟩ := h hf hroom
      exact ⟨id, ctx', (if_neg hs).trans h, hb⟩
    case slice l access e =>
      refine remembering hσ ht fun hn hf hroom => ?_
      rw [weight] at *
      obtain ⟨element, ctx₁, h₁, hb₁⟩ := hi e List.mem_cons_self hv hd hf (by omega)
      obtain ⟨hv₁, _, hr₁⟩ := hl e List.mem_cons_self hv h₁
      have hl₁ := hb₁.length
      have hn₁ := (hb₁.frame _ ht (by simp [weight])).trans hn
      obtain ⟨id, ctx₂, h₂, hb₂, hs₂⟩ := slice frontend hσ hv₁ ht hr₁ hn₁ (hb₁.isFrozen.trans hf) (by omega)
      refine ⟨id, ctx₂, Option.bind_eq_some_iff.mpr ⟨_, h₁, h₂⟩, (hb₁.mono (by omega)).trans hb₂, .inr hs₂⟩
    case function abi callConv isVariadic ps r =>
      have hp {ctx} (hv : Valid σ ctx) (hd : Declared σ ctx) :
          Total σ (weights ps) (weights ps) (cogIrLowerTypes frontend ps) ctx :=
        lowerTypes (fun p hp => hl p (List.mem_cons_of_mem _ hp))
          (fun p hp ctx hv hd => hi p (List.mem_cons_of_mem _ hp) hv hd) hv hd
      refine structural hσ ht (Nat.lt_succ_self (weight r + weights ps)) fun hf hroom => ?_
      rw [weight] at hroom
      obtain ⟨result, ctx₁, h₁, hb₁⟩ := hi r List.mem_cons_self hv hd hf (by omega)
      obtain ⟨hv₁, he₁, hr₁⟩ := hl r List.mem_cons_self hv h₁
      have hd₁ : Declared σ ctx₁ := fun d h => (hd d h).imp fun _ => he₁.typeMap
      have hl₁ := hb₁.length
      have hf₁ := hb₁.isFrozen.trans hf
      obtain ⟨ids, ctx₂, h₂, hb₂⟩ := hp hv₁ hd₁ hf₁ (by omega)
      obtain ⟨_, he₂, hlen, hr₂⟩ := Lowers.lowerTypes (fun p hp => hl p (List.mem_cons_of_mem _ hp)) hv₁ h₂
      have hl₂ := hb₂.length
      have known : ∀ id ∈ ids, (ctx₂.module.getType id).isSome := by
        intro id hid
        rw [← List.map_snd_zip (Nat.le_of_eq hlen.symm)] at hid
        obtain ⟨p, hp, he⟩ := List.mem_map.mp hid
        obtain ⟨_, hg⟩ := (hr₂ p hp).getType
        simp [← he, hg]
      obtain ⟨_, hg⟩ := (hr₁.mono he₂).getType
      have h₃ : Total σ 0 1 (·.build (·.typeFunction result ids (lowerFunctionAbi abi) (lowerCallingConvention callConv)
          isVariadic)) ctx₂ := build (if_pos ⟨by simp [hg], List.all_eq_true.mpr known⟩)
      obtain ⟨id, ctx₃, h₃, hb₃⟩ := h₃ (hb₂.isFrozen.trans hf₁) (by omega)
      refine ⟨id, ctx₃, Option.bind_eq_some_iff.mpr ⟨_, h₁, Option.bind_eq_some_iff.mpr ⟨_, h₂, h₃⟩⟩, ?_⟩
      exact ((hb₁.mono (Nat.le_add_right _ _)).trans (hb₂.mono (Nat.le_add_left _ _))).trans (hb₃.mono (Nat.zero_le _))
    case struct l | enum l =>
      refine remembering hσ ht fun hn => ?_
      obtain ⟨d, hmd, he⟩ := hσ.valid.nominal _ ht.mem rfl
      obtain ⟨id, hf⟩ := hd d hmd
      cases hn.symm.trans (he ▸ hf)
    case named => cases head

end Total

end Coglet.Ir
