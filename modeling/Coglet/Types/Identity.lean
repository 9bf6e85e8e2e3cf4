import Coglet.Types.Arena
import Mathlib.Logic.Relation

namespace Coglet

open TypeObject

-- Objects are identified by their addresses.
structure Coherent (objects : List TypeObject) : Prop where
  address  : ∀ t ∈ objects, objects[t.address]? = some t
  children : ∀ t ∈ objects, ∀ c ∈ t.children, c ∈ objects

namespace Coherent

variable {objects : List TypeObject} {t u : TypeObject}

theorem eq_of_address_eq (h : Coherent objects) (ht : t ∈ objects) (hu : u ∈ objects)
    (he : t.address = u.address) : t = u :=
  Option.some.inj <| (h.address t ht).symm.trans <| he ▸ h.address u hu

theorem eq_of_addresses_eq {ts us : List TypeObject} (h : Coherent objects) (ht : ∀ t ∈ ts, t ∈ objects)
    (hu : ∀ u ∈ us, u ∈ objects) (he : ts.map (·.address) = us.map (·.address)) : ts = us := by
  induction ts generalizing us <;> cases us <;> simp at he
  case nil.nil => rfl
  case cons.cons t ts hi u us =>
    have ⟨ht, hts⟩ := List.forall_mem_cons.mp ht
    have ⟨hu, hus⟩ := List.forall_mem_cons.mp hu
    rw [h.eq_of_address_eq ht hu he.left, hi hts hus he.right]

theorem append (h : Coherent objects) (ha : t.address = objects.length)
    (hc : ∀ c ∈ t.children, c ∈ objects) : Coherent (objects ++ [t]) where
  address u hu := by
    rcases List.mem_append.mp hu with hu | hu
    case inl =>
      have hl := (List.getElem?_eq_some_iff.mp (h.address u hu)).1
      rw [List.getElem?_append_left hl, h.address u hu]
    case inr =>
      cases List.mem_singleton.mp hu
      simp [ha]
  children u hu c hu' := by
    rcases List.mem_append.mp hu with hu | hu
    case inl => exact List.mem_append_left _ (h.children u hu c hu')
    case inr =>
      cases List.mem_singleton.mp hu
      exact List.mem_append_left _ (hc c hu')

theorem toTys_eq_of_typesEqual {ts us : List TypeObject}
    (hi : ∀ t ∈ ts, ∀ u ∈ us, t.typeEqual u → t.toTy = u.toTy) (he : typesEqual ts us) : toTys ts = toTys us := by
  induction ts generalizing us <;> cases us <;> simp [typesEqual] at he
  case nil.nil => rfl
  case cons.cons t ts hs u us =>
    have ht := hi t (by simp) u (by simp) he.left
    have hts := hs (fun t ht u hu => hi t (by simp [ht]) u (by simp [hu])) he.right
    rw [toTys, toTys, ht, hts]

theorem toTy_eq_of_typeEqual (h : Coherent objects) (ht : t ∈ objects) (hu : u ∈ objects)
    (he : t.typeEqual u) : t.toTy = u.toTy := by
  induction t using induct generalizing u
  case step t hi =>
    by_cases ha : t.address = u.address
    case pos => rw [h.eq_of_address_eq ht hu ha]
    case neg =>
      replace hi c (hc : c ∈ t.children) d (hd : d ∈ u.children) (he : c.typeEqual d) : c.toTy = d.toTy :=
        hi c hc (h.children t ht c hc) (h.children u hu d hd) he
      cases t <;> cases u <;> simp [typeEqual, -not_or] at he
      case builtin.builtin =>
        rw [toTy, toTy, he.resolve_left ha]
      case opaquePointer.opaquePointer =>
        obtain ⟨he₁, he₂⟩ := he.resolve_left ha
        rw [toTy, toTy, he₁, he₂]
      case pointer.pointer e _ _ _ e' =>
        obtain ⟨⟨he₁, he₂⟩, he⟩ := he.resolve_left ha
        rw [toTy, toTy, he₁, he₂, hi e (List.mem_singleton.mpr rfl) e' (List.mem_singleton.mpr rfl) he]
      case array.array e _ _ e' =>
        obtain ⟨he₁, he⟩ := he.resolve_left ha
        rw [toTy, toTy, he₁, hi e (List.mem_singleton.mpr rfl) e' (List.mem_singleton.mpr rfl) he]
      case slice.slice e _ _ e' =>
        obtain ⟨he₁, he⟩ := he.resolve_left ha
        rw [toTy, toTy, he₁, hi e (List.mem_singleton.mpr rfl) e' (List.mem_singleton.mpr rfl) he]
      case function.function ps r _ _ _ _ qs r' =>
        obtain ⟨⟨⟨⟨he₁, he₂⟩, he₃⟩, hp⟩, hr⟩ := he.resolve_left ha
        have hp : toTys ps = toTys qs :=
          toTys_eq_of_typesEqual (fun p hp q hq => hi p (by simp [TypeObject.children, hp]) q (by simp [TypeObject.children, hq])) hp
        rw [toTy, toTy, he₁, he₂, he₃, hp, hi r (by simp [TypeObject.children]) r' (by simp [TypeObject.children]) hr]
      case named.named => rw [toTy, toTy]
      all_goals exact absurd he ha

-- Two objects that stand for types are equal exactly if they stand for the same type.
theorem typeEqual_iff (h : Coherent objects) (ht : t ∈ objects) (hu : u ∈ objects) {T : Ty} (hT : t.toTy = some T) :
    t.typeEqual u ↔ t.toTy = u.toTy where
  mp      := h.toTy_eq_of_typeEqual ht hu
  mpr he  := typeEqual_of_toTy hT (he ▸ hT)

end Coherent

namespace TypeArena

variable {σ τ : TypeArena} {t u element : TypeObject}

-- A resolved type contains no type names, and all of its slice types are interned.
inductive Resolved (σ : TypeArena) : TypeObject → Prop
  | intro {t : TypeObject} (mem : t ∈ σ.objects) (named : t.isNamed = false)
    (slice : t.isSlice → t ∈ σ.sliceTypes) (children : ∀ c ∈ t.children, Resolved σ c) : Resolved σ t

structure Grows (σ τ : TypeArena) : Prop where
  objects    : ∀ t ∈ σ.objects, t ∈ τ.objects
  sliceTypes : ∀ t ∈ σ.sliceTypes, t ∈ τ.sliceTypes

theorem grows_allocate (σ : TypeArena) (t : TypeObject) : Grows σ (σ.allocate t) where
  objects _    := List.mem_append_left _
  sliceTypes _ := id

theorem grows_internSliceType (σ : TypeArena) (element access) : Grows σ (σ.internSliceType element access).2 := by
  rw [TypeArena.internSliceType]
  split
  case h_1 => exact ⟨fun _ => id, fun _ => id⟩
  case h_2 => exact ⟨(σ.grows_allocate _).objects, fun _ => List.mem_cons_of_mem _⟩

theorem grows_instantiateGenericStruct (σ : TypeArena) (templateId typeArguments name) :
    Grows σ (σ.instantiateGenericStruct templateId typeArguments name).2 := by
  rw [TypeArena.instantiateGenericStruct]
  split
  case h_1 => exact ⟨fun _ => id, fun _ => id⟩
  case h_2 => exact ⟨(σ.grows_allocate _).objects, fun _ => id⟩

namespace Resolved

theorem mem (h : Resolved σ t) : t ∈ σ.objects := by
  cases h
  case intro h _ _ _ => exact h

theorem mem_sliceTypes (h : Resolved σ t) (hs : t.isSlice) : t ∈ σ.sliceTypes := by
  cases h
  case intro h _ => exact h hs

theorem child {c : TypeObject} (h : Resolved σ t) (hc : c ∈ t.children) : Resolved σ c := by
  cases h
  case intro h => exact h c hc

theorem mono (h : Resolved σ t) (hg : Grows σ τ) : Resolved τ t := by
  induction h
  case intro hm hn hs _ hi => exact ⟨hg.objects _ hm, hn, fun h => hg.sliceTypes _ (hs h), hi⟩

theorem nominal (hm : t ∈ σ.objects) (hn : t.isNominal) : Resolved σ t := by
  cases t
  case struct | enum => exact ⟨hm, rfl, Bool.noConfusion, fun _ h => absurd h List.not_mem_nil⟩
  all_goals cases hn

theorem toTys_isSome {ts : List TypeObject} (h : ∀ t ∈ ts, ∃ T, t.toTy = some T) : ∃ Ts, toTys ts = some Ts := by
  induction ts
  case nil => exact ⟨_, rfl⟩
  case cons t ts hi =>
    have ⟨T, ht⟩ := h t List.mem_cons_self
    have ⟨Ts, hts⟩ := hi fun u hu => h u (List.mem_cons_of_mem _ hu)
    exact ⟨_, toTys_cons.mpr ⟨T, Ts, ht, hts, rfl⟩⟩

theorem toTy_isSome (h : Resolved σ t) : ∃ T, t.toTy = some T := by
  induction h
  case intro t hm hn hs hc hi =>
    clear hm hs hc
    cases t
    case builtin | opaquePointer | struct | enum => exact ⟨_, rfl⟩
    case pointer e | array e | slice e =>
      have ⟨E, he⟩ := hi e (List.mem_singleton.mpr rfl)
      exact ⟨_, Option.map_eq_some_iff.mpr ⟨E, he, rfl⟩⟩
    case function ps r =>
      have ⟨R, hr⟩ := hi r List.mem_cons_self
      have ⟨Ps, hp⟩ := toTys_isSome fun p hp => hi p (List.mem_cons_of_mem _ hp)
      exact ⟨_, toTy_function.mpr ⟨Ps, R, hp, hr, rfl⟩⟩
    case named => cases hn

end Resolved

-- An operation of the parser or the checker that creates types.
inductive Step (σ : TypeArena) : TypeArena → Prop
  | allocate {t : TypeObject} :
    t.address = σ.next → t.isNominal = false → (∀ c ∈ t.children, c ∈ σ.objects) → Step σ (σ.allocate t)
  | internSliceType {element : TypeObject} (access : PointerAccess) :
    Resolved σ element → Step σ (σ.internSliceType element access).2
  | declareStructShell (isUnion : Bool) (name : String) : Step σ (σ.declareStructShell isUnion name).2
  | declareEnumShell (name : String) : Step σ (σ.declareEnumShell name).2
  | instantiateGenericStruct (templateId : Nat) (name : String) {typeArguments : List TypeObject} :
    (∀ a ∈ typeArguments, Resolved σ a) → Step σ (σ.instantiateGenericStruct templateId typeArguments name).2

def Run : TypeArena → TypeArena → Prop :=
  Relation.ReflTransGen Step

def Reachable (σ : TypeArena) : Prop :=
  Run initial σ

structure Valid (σ : TypeArena) : Prop where
  coherent         : Coherent σ.objects
  sliceType        : ∀ t ∈ σ.sliceTypes, Resolved σ t
  sliceTypeUnique  : ∀ t ∈ σ.sliceTypes, ∀ u ∈ σ.sliceTypes, t.typeEqual u → t = u
  nominal          : ∀ t ∈ σ.objects, t.isNominal → ∃ d ∈ σ.declarations, d.type = t
  declaration      : ∀ d ∈ σ.declarations, d.type ∈ σ.objects ∧ d.type.isNominal
  declarationNodup : (σ.declarations.map (·.type.address)).Nodup
  specialization   : ∀ s ∈ σ.specializations, s.type ∈ σ.objects ∧ s.type.isNominal

theorem isSlice_of_isSliceOf {access} (h : isSliceOf access element t) :
    ∃ l e, t = .slice l access e ∧ e.typeEqual element := by
  cases t <;> simp [isSliceOf] at h
  case slice => exact ⟨_, _, by rw [h.left], h.right⟩

theorem Valid.initial : Valid .initial where
  coherent := {
    address := by
      intro t ht
      obtain ⟨i, hi, rfl⟩ := List.mem_mapIdx.mp ht
      simp [TypeArena.initial, TypeObject.address, hi]
    children := by
      intro t ht c hc
      obtain ⟨i, hi, rfl⟩ := List.mem_mapIdx.mp ht
      cases hc
  }
  sliceType _ h       := by cases h
  sliceTypeUnique _ h := by cases h
  nominal t ht hn     := by
    obtain ⟨i, hi, rfl⟩ := List.mem_mapIdx.mp ht
    cases hn
  declaration _ h     := by cases h
  declarationNodup    := .nil
  specialization _ h  := by cases h

namespace Valid

theorem address_lt (h : Valid σ) (ht : t ∈ σ.objects) : t.address < σ.next :=
  (List.getElem?_eq_some_iff.mp (h.coherent.address t ht)).1

theorem allocate (h : Valid σ) (ha : t.address = σ.next) (hn : t.isNominal = false)
    (hc : ∀ c ∈ t.children, c ∈ σ.objects) : Valid (σ.allocate t) where
  coherent            := h.coherent.append ha hc
  sliceType u hu      := (h.sliceType u hu).mono (σ.grows_allocate t)
  sliceTypeUnique     := h.sliceTypeUnique
  nominal u hu hn'    := by
    rcases List.mem_append.mp hu with hu | hu
    case inl => exact h.nominal u hu hn'
    case inr =>
      cases List.mem_singleton.mp hu
      exact absurd (hn.symm.trans hn') Bool.false_ne_true
  declaration d hd    := ⟨List.mem_append_left _ (h.declaration d hd).left, (h.declaration d hd).right⟩
  declarationNodup    := h.declarationNodup
  specialization s hs := ⟨List.mem_append_left _ (h.specialization s hs).left, (h.specialization s hs).right⟩

theorem declareNominal {isUnion name} (h : Valid σ) (ha : t.address = σ.next) (hn : t.isNominal)
    (hc : t.children = []) : Valid (σ.declareNominal t isUnion name).2 where
  coherent            := h.coherent.append ha (by simp [hc])
  sliceType u hu      := (h.sliceType u hu).mono ⟨(σ.grows_allocate t).objects, fun _ => id⟩
  sliceTypeUnique     := h.sliceTypeUnique
  nominal u hu hn'    := by
    rcases List.mem_append.mp hu with hu | hu
    case inl =>
      have ⟨d, hd, he⟩ := h.nominal u hu hn'
      exact ⟨d, List.mem_append_left _ hd, he⟩
    case inr =>
      cases List.mem_singleton.mp hu
      exact ⟨_, List.mem_append_right _ List.mem_cons_self, rfl⟩
  declaration d hd    := by
    rcases List.mem_append.mp hd with hd | hd
    case inl => exact ⟨List.mem_append_left _ (h.declaration d hd).left, (h.declaration d hd).right⟩
    case inr =>
      cases List.mem_singleton.mp hd
      exact ⟨List.mem_append_right _ List.mem_cons_self, hn⟩
  declarationNodup    := by
    have hne : ∀ d ∈ σ.declarations, d.type.address ≠ t.address := fun d hd =>
      Nat.ne_of_lt (ha ▸ h.address_lt (h.declaration d hd).left)
    simpa [TypeArena.declareNominal, List.nodup_append, h.declarationNodup] using hne
  specialization s hs := ⟨List.mem_append_left _ (h.specialization s hs).left, (h.specialization s hs).right⟩

theorem internSliceType {access} (h : Valid σ) (he : Resolved σ element) :
    Valid (σ.internSliceType element access).2 := by
  have hg := σ.grows_internSliceType element access
  rw [TypeArena.internSliceType] at *
  split
  case h_1 => exact h
  case h_2 hn =>
    simp only [hn] at hg
    have hv : Valid (σ.allocate (.slice σ.next access element)) :=
      h.allocate rfl rfl (by simpa [TypeObject.children] using he.mem)
    have hne : ∀ u ∈ σ.sliceTypes, ¬u.typeEqual (.slice σ.next access element) := by
      intro u hu hu'
      have hl := h.address_lt (h.sliceType u hu).mem
      have hn := List.find?_eq_none.mp hn u hu
      cases u <;> simp [typeEqual, TypeObject.address, isSliceOf, TypeObject.address] at hl hu' hn <;> grind
    exact {
      hv with
      sliceType u hu := by
        cases hu
        case head =>
          refine ⟨List.mem_append_right _ List.mem_cons_self, rfl, fun _ => List.mem_cons_self, ?_⟩
          exact fun c hc => List.mem_singleton.mp hc ▸ he.mono hg
        case tail hu => exact (h.sliceType u hu).mono hg
      sliceTypeUnique u hu w hw he := by
        cases hu <;> cases hw
        case head.head => rfl
        case head.tail hw => exact absurd (typeEqual_comm _ _ ▸ he) (hne w hw)
        case tail.head hu => exact absurd he (hne u hu)
        case tail.tail hu hw => exact h.sliceTypeUnique u hu w hw he
    }

theorem instantiateGenericStruct {templateId typeArguments name} (h : Valid σ) :
    Valid (σ.instantiateGenericStruct templateId typeArguments name).2 := by
  rw [TypeArena.instantiateGenericStruct]
  split
  case h_1 => exact h
  case h_2 =>
    have hv : Valid (σ.declareNominal (.struct σ.next) false name).2 := h.declareNominal rfl rfl rfl
    exact {
      hv with
      sliceType u hu := (hv.sliceType u hu).mono ⟨fun _ => id, fun _ => id⟩
      specialization s hs := by
        cases hs
        case head => exact ⟨List.mem_append_right _ List.mem_cons_self, rfl⟩
        case tail hs => exact hv.specialization s hs
    }

theorem step (h : Valid σ) (hs : Step σ τ) : Valid τ := by
  cases hs
  case allocate ha hn hc => exact h.allocate ha hn hc
  case internSliceType he => exact h.internSliceType he
  case declareStructShell => exact h.declareNominal rfl rfl rfl
  case declareEnumShell => exact h.declareNominal rfl rfl rfl
  case instantiateGenericStruct => exact h.instantiateGenericStruct

theorem run (h : Valid σ) (hr : Run σ τ) : Valid τ := by
  induction hr
  case refl => exact h
  case tail _ hs hi => exact hi.step hs

end Valid

theorem Reachable.run (h : Reachable σ) (hr : Run σ τ) : Reachable τ :=
  Relation.ReflTransGen.trans h hr

theorem Reachable.valid (h : Reachable σ) : Valid σ :=
  Valid.initial.run h

theorem Step.grows (h : Step σ τ) : Grows σ τ := by
  cases h
  case allocate t _ _ _ => exact σ.grows_allocate t
  case internSliceType => exact σ.grows_internSliceType _ _
  case declareStructShell | declareEnumShell => exact ⟨(σ.grows_allocate _).objects, fun _ => id⟩
  case instantiateGenericStruct => exact σ.grows_instantiateGenericStruct _ _ _

theorem Run.grows (h : Run σ τ) : Grows σ τ := by
  induction h
  case refl => exact ⟨fun _ => id, fun _ => id⟩
  case tail _ hs hi =>
    exact ⟨fun t ht => hs.grows.objects t (hi.objects t ht), fun t ht => hs.grows.sliceTypes t (hi.sliceTypes t ht)⟩

theorem typeEqual_iff_toTy (h : Reachable σ) (ht : Resolved σ t) (hu : Resolved σ u) :
    t.typeEqual u ↔ t.toTy = u.toTy := by
  have ⟨T, hT⟩ := ht.toTy_isSome
  exact h.valid.coherent.typeEqual_iff ht.mem hu.mem hT

theorem typeEqual_equivalence (h : Reachable σ) :
    Equivalence fun t u : { t // Resolved σ t } => (t.val.typeEqual u.val : Prop) where
  refl _      := typeEqual_refl _
  symm ht     := by rwa [typeEqual_comm]
  trans {t u w} ht hu := by
    rw [typeEqual_iff_toTy h t.property u.property] at ht
    rw [typeEqual_iff_toTy h u.property w.property] at hu
    exact (typeEqual_iff_toTy h t.property w.property).mpr (ht.trans hu)

-- Two interned slice types are equal only if they are the same object.
theorem slice_eq_of_toTy_eq (h : Reachable σ) (ht : Resolved σ t) (hu : Resolved σ u) (hs : t.isSlice)
    (he : t.toTy = u.toTy) : t = u := by
  have ⟨T, hT⟩ := ht.toTy_isSome
  have hs' : u.isSlice := by
    have ⟨l, a, e, ht⟩ : ∃ l a e, t = .slice l a e := by
      cases t
      case slice => exact ⟨_, _, _, rfl⟩
      all_goals cases hs
    subst ht
    obtain ⟨E, _, rfl⟩ := Option.map_eq_some_iff.mp hT
    obtain ⟨_, _, rfl, _⟩ := shape_of_toTy (he ▸ hT)
    rfl
  exact h.valid.sliceTypeUnique t (ht.mem_sliceTypes hs) u (hu.mem_sliceTypes hs')
    ((typeEqual_iff_toTy h ht hu).mpr he)

theorem nominal_eq_of_toTy_eq (hn : t.isNominal) (he : t.toTy = u.toTy) : t = u := by
  cases t
  case struct | enum => exact (shape_of_toTy he.symm).symm
  all_goals cases hn

section Resolution

-- All types that are visible to the resolution are resolved themselves.
def TypeScope.Resolved (scope : TypeScope) (σ : TypeArena) : Prop :=
  ∀ module name type, scope.lookup module name = some (.type type) → σ.Resolved type

theorem builtinType_mem {kind} (h : Reachable σ) (hb : builtinType kind = some t) : Resolved σ t := by
  have ⟨i, hi, ht⟩ := Option.map_eq_some_iff.mp hb
  obtain ⟨hl, he, _⟩ := List.findIdx?_eq_some_iff_getElem.mp hi
  subst ht
  refine ⟨h.grows.objects _ ?_, rfl, Bool.noConfusion, fun _ h => absurd h List.not_mem_nil⟩
  exact List.mem_mapIdx.mpr ⟨i, hl, congrArg _ (of_decide_eq_true he)⟩

theorem fixedIntegerTypeForBits_resolved {bits isSigned type} (h : Reachable σ)
    (hb : fixedIntegerTypeForBits bits isSigned = some type) : Resolved σ (.builtin type.1 type.2) := by
  refine ⟨h.grows.objects _ ?_, rfl, Bool.noConfusion, fun _ h => absurd h List.not_mem_nil⟩
  rw [fixedIntegerTypeForBits.eq_def] at hb
  split at hb <;> cases hb <;> simp [initial, canonicalBuiltins]

theorem internSliceType_resolved {access} (hr : Reachable σ) (h : Resolved σ t) :
    Resolved (σ.internSliceType t access).2 (σ.internSliceType t access).1 := by
  have hv : Valid (σ.internSliceType t access).2 := hr.valid.internSliceType h
  refine hv.sliceType _ ?_
  rw [internSliceType]
  split
  case h_1 u hu => exact List.mem_of_find?_eq_some hu
  case h_2 => exact List.mem_cons_self

theorem instantiateGenericStruct_resolved {templateId typeArguments name} (hr : Reachable σ) :
    Resolved (σ.instantiateGenericStruct templateId typeArguments name).2
      (σ.instantiateGenericStruct templateId typeArguments name).1 := by
  rw [instantiateGenericStruct]
  split
  case h_1 s hs =>
    have ⟨hm, hn⟩ := hr.valid.specialization s (List.mem_of_find?_eq_some hs)
    exact .nominal hm hn
  case h_2 => exact .nominal (List.mem_append_right _ List.mem_cons_self) rfl

theorem copy_resolved {copy : TypeObject} (ha : copy.address = σ.next)
    (hn : copy.isNamed = false) (hs : copy.isSlice = false) (hm : copy.isNominal = false)
    (hc : ∀ c ∈ copy.children, Resolved σ c) : Step σ (σ.allocate copy) ∧ Resolved (σ.allocate copy) copy := by
  have hstep : Step σ (σ.allocate copy) := .allocate ha hm fun c h => (hc c h).mem
  refine ⟨hstep, List.mem_append_right _ List.mem_cons_self, hn, ?_, fun c h => (hc c h).mono hstep.grows⟩
  exact fun h => absurd (hs.symm.trans h) Bool.false_ne_true

variable {scope : TypeScope}

theorem resolveTypes_resolved {ts ts' : List TypeObject} (hr : Reachable σ) (hs : scope.Resolved σ)
    (ht : ∀ t ∈ ts, t ∈ σ.objects)
    (hi : ∀ t ∈ ts, ∀ {σ τ t'}, Reachable σ → scope.Resolved σ → t ∈ σ.objects →
      resolveType scope t σ = some (t', τ) → Run σ τ ∧ Resolved τ t')
    (h : resolveTypes scope ts σ = some (ts', τ)) : Run σ τ ∧ ∀ t ∈ ts', Resolved τ t := by
  induction ts generalizing σ ts'
  case nil =>
    cases h
    exact ⟨.refl, fun _ h => absurd h List.not_mem_nil⟩
  case cons t ts hi' =>
    obtain ⟨⟨t', σ'⟩, h₁, h⟩ := Option.bind_eq_some_iff.mp h
    obtain ⟨⟨us, _⟩, h₂, he⟩ := Option.bind_eq_some_iff.mp h
    cases he
    have ⟨hit, hits⟩ := List.forall_mem_cons.mp hi
    have ⟨hmt, hmts⟩ := List.forall_mem_cons.mp ht
    have ⟨hrun, ht'⟩ := hit hr hs hmt h₁
    have hs' : scope.Resolved σ' := fun m n u hu => (hs m n u hu).mono hrun.grows
    have ⟨hrun', hus⟩ := hi' (hr.run hrun) hs' (fun u hu => hrun.grows.objects u (hmts u hu)) hits h₂
    exact ⟨hrun.trans hrun', List.forall_mem_cons.mpr ⟨ht'.mono hrun'.grows, hus⟩⟩

-- Resolution returns a resolved type, and it creates types by the operations of the checker only.
theorem resolveType_resolved (hr : Reachable σ) (hs : scope.Resolved σ) (ht : t ∈ σ.objects)
    (h : resolveType scope t σ = some (u, τ)) : Run σ τ ∧ Resolved τ u := by
  induction t using TypeObject.induct generalizing σ τ u
  case step t hi =>
    have hc := hr.valid.coherent.children t ht
    cases t
    case builtin l k =>
      cases h
      refine ⟨.refl, ?_⟩
      cases hb : builtinType k
      case none => exact ⟨ht, rfl, Bool.noConfusion, fun _ h => absurd h List.not_mem_nil⟩
      case some => exact builtinType_mem hr hb
    case opaquePointer =>
      cases h
      exact ⟨.refl, ht, rfl, Bool.noConfusion, fun _ h => absurd h List.not_mem_nil⟩
    case struct | enum =>
      cases h
      exact ⟨.refl, .nominal ht rfl⟩
    case slice access element =>
      obtain ⟨⟨e, σ'⟩, h₁, h⟩ := Option.bind_eq_some_iff.mp h
      obtain ⟨rfl, rfl⟩ := Prod.mk.inj (Option.some.inj h)
      have ⟨hrun, he⟩ := hi _ List.mem_cons_self hr hs (hc _ List.mem_cons_self) h₁
      exact ⟨hrun.tail (.internSliceType access he), internSliceType_resolved (hr.run hrun) he⟩
    case pointer e | array e =>
      obtain ⟨⟨e', σ'⟩, h₁, h⟩ := Option.bind_eq_some_iff.mp h
      have ⟨hrun, he⟩ := hi _ List.mem_cons_self hr hs (hc _ List.mem_cons_self) h₁
      have hm := hrun.grows.objects _ (hc e List.mem_cons_self)
      dsimp only at h
      split at h <;> cases h
      case isTrue.refl ha =>
        have he' : e' = e := (hr.run hrun).valid.coherent.eq_of_address_eq he.mem hm ha
        refine ⟨hrun, hrun.grows.objects _ ht, rfl, Bool.noConfusion, fun c hc => ?_⟩
        cases List.mem_singleton.mp hc
        exact he' ▸ he
      case isFalse.refl =>
        refine And.imp_left hrun.tail (copy_resolved rfl rfl rfl rfl ?_)
        exact List.forall_mem_singleton.mpr he
    case function l abi callConv isVariadic ps r =>
      obtain ⟨⟨ps', σ'⟩, h₁, h⟩ := Option.bind_eq_some_iff.mp h
      obtain ⟨⟨r', σ''⟩, h₂, h⟩ := Option.bind_eq_some_iff.mp h
      have ⟨hrun, hps⟩ := resolveTypes_resolved hr hs (fun p hp => hc p (List.mem_cons_of_mem _ hp))
        (fun p hp => hi p (List.mem_cons_of_mem _ hp)) h₁
      have hs' : scope.Resolved σ' := fun m n u hu => (hs m n u hu).mono hrun.grows
      have ⟨hrun', hr'⟩ := hi r List.mem_cons_self (hr.run hrun) hs'
        (hrun.grows.objects r (hc r List.mem_cons_self)) h₂
      have hrun : Run σ σ'' := hrun.trans hrun'
      have hps p (hp : p ∈ ps') := (hps p hp).mono hrun'.grows
      dsimp only at h
      generalize hch : (!(decide (ps'.map (·.address) = ps.map (·.address)) &&
        decide (r'.address = r.address))) = changed at h
      simp only [Option.ite_none_left_eq_some, Option.some.injEq, Prod.mk.injEq] at h
      obtain ⟨_, _, rfl, rfl⟩ := h
      cases changed
      case true =>
        refine And.imp_left hrun.tail (copy_resolved rfl rfl rfl rfl ?_)
        exact List.forall_mem_cons.mpr ⟨hr', hps⟩
      case false =>
        have ⟨hp, hr''⟩ : ps'.map (·.address) = ps.map (·.address) ∧ r'.address = r.address := by simpa using hch
        have hm c (hc' : c ∈ r :: ps) := hrun.grows.objects c (hc c hc')
        have hcoherent := (hr.run hrun).valid.coherent
        have ep : ps' = ps := hcoherent.eq_of_addresses_eq (fun p hp => (hps p hp).mem)
          (fun p hp => hm p (List.mem_cons_of_mem _ hp)) hp
        have er : r' = r := hcoherent.eq_of_address_eq hr'.mem (hm r List.mem_cons_self) hr''
        exact ⟨hrun, hrun.grows.objects _ ht, rfl, Bool.noConfusion, List.forall_mem_cons.mpr ⟨er ▸ hr', ep ▸ hps⟩⟩
    case named l module name as =>
      obtain ⟨symbol, hl, h⟩ := Option.bind_eq_some_iff.mp h
      cases symbol
      case type =>
        dsimp only at h
        split at h <;> cases h
        exact ⟨.refl, hs _ _ _ hl⟩
      case genericStruct =>
        dsimp only at h
        split at h
        case isTrue => cases h
        obtain ⟨⟨as', σ'⟩, h₁, h⟩ := Option.bind_eq_some_iff.mp h
        dsimp only at h
        split at h
        case isFalse => cases h
        obtain ⟨rfl, rfl⟩ := Prod.mk.inj (Option.some.inj h)
        have ⟨hrun, has⟩ := resolveTypes_resolved hr hs hc (fun a ha => hi a ha) h₁
        exact ⟨hrun.tail (.instantiateGenericStruct _ _ has), instantiateGenericStruct_resolved (hr.run hrun)⟩

end Resolution

end TypeArena
end Coglet
