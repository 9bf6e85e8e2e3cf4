import Coglet.Backend.SysVClasses
import Coglet.Backend.ObjectAgreement

open StructLayout RegisterPassing
open Coglet.Target (AbiShape ObjectField TargetInfo)

-- Where LLVM passes the arguments of a C function, and where the System V AMD64 ABI wants them.

namespace Coglet.Backend.Llvm

def LlvmType.registerClass : LlvmType → RegClass
  | .float | .double => .sse
  | _ => .integer

namespace LlvmCAbiSignature

variable (dl : DataLayout) (signature : LlvmCAbiSignature)

-- LLVM passes a `byval` parameter in memory, and any other parameter in the next register of its class.
def llvmArgument (index : Nat) (type : LlvmType) : Argument :=
  match signature.byvalAttribute index with
  | some (storage, align) => .memory ⟨(dl.layout storage).size, align⟩
  | none => .registers [type.registerClass] ⟨8, 8⟩

def llvmArgumentsFrom (index : Nat) : List LlvmType → List Argument
  | [] => []
  | type :: types => signature.llvmArgument dl index type :: llvmArgumentsFrom (index + 1) types

def llvmPlaces : List (List Place) :=
  (passAllSplit (signature.llvmArgumentsFrom dl 0 signature.llvmParameters) .initial).1

-- An argument is where its components are.
def argumentPlaces (plan : LlvmCAbiValuePlan) : List Place :=
  (((signature.llvmPlaces dl).drop plan.llvmParameterStart).take plan.components.length).flatten

end LlvmCAbiSignature

inductive ResultPlace
  | memory
  | registers (places : List Place)
deriving DecidableEq, Repr

def LlvmType.resultClasses : LlvmType → List RegClass
  | .void => []
  | .struct _ types => types.map registerClass
  | type => [type.registerClass]

-- The registers of a result are numbered for themselves.
def LlvmCAbiSignature.resultPlace (signature : LlvmCAbiSignature) : ResultPlace :=
  if signature.result.isSret then .memory
  else .registers (placeEach signature.llvmResult.resultClasses .initial).1

section Abi

variable (dl : DataLayout) (target : TargetInfo) (abi : AbiShape) (runtime : Ir.ObjectType)

-- An object of more than two eightbytes or with unaligned parts has the class MEMORY.
def InMemory : Prop :=
  16 < (objectLayout dl target abi runtime).size ∨ ∃ f, Finds dl target abi runtime 0 f ∧ f.ForcesMemory

open Classical in
-- The class INTEGER prevails over the class SSE.
noncomputable def eightbyteClass (eightbyte : Nat) : Option RegClass :=
  if ∃ f, Finds dl target abi runtime 0 f ∧ f.In eightbyte .integer then some .integer
  else if ∃ f, Finds dl target abi runtime 0 f ∧ f.In eightbyte .sse then some .sse
  else none

noncomputable def eightbyteClasses : List RegClass :=
  [0, 1].filterMap (eightbyteClass dl target abi runtime)

def scalarRegisterClass : RegClass :=
  if isPointerAbi abi then .integer else registerClass runtime

open Classical in
noncomputable def prescribedArgument : Argument :=
  if !runtimeIsAggregate runtime then .registers [scalarRegisterClass abi runtime] ⟨8, 8⟩
  else if InMemory dl target abi runtime then .memory (objectLayout dl target abi runtime)
  else .registers (eightbyteClasses dl target abi runtime) (objectLayout dl target abi runtime)

def scalarResultClasses : List RegClass :=
  match runtime, isPointerAbi abi with
  | .void, false => []
  | _, _ => [scalarRegisterClass abi runtime]

open Classical in
noncomputable def prescribedResult : ResultPlace :=
  if !runtimeIsAggregate runtime then .registers (placeEach (scalarResultClasses abi runtime) .initial).1
  else if InMemory dl target abi runtime then .memory
  else .registers (placeEach (eightbyteClasses dl target abi runtime) .initial).1

-- The address of a result in memory is a hidden first argument.
noncomputable def argumentStart : Occupied :=
  if prescribedResult dl target abi runtime = .memory then (place .integer .initial).2 else .initial

noncomputable def prescribedPlaces (dl : DataLayout) (target : TargetInfo) (result : ObjectField Ir.ObjectType)
    (parameters : List (ObjectField Ir.ObjectType)) : List (List Place) :=
  (passAll (parameters.map fun p => prescribedArgument dl target p.abi p.type)
    (argumentStart dl target result.abi result.type)).1

end Abi

section Aggregate

variable {dl : DataLayout} {target : TargetInfo} {abi : AbiShape} {runtime : Ir.ObjectType} {out : SysVClassification}

def SysVClass.registerClass? : SysVClass → Option RegClass
  | .integer => some .integer
  | .sse => some .sse
  | .noClass | .memory => none

theorem eightbyteClass_eq (h : Marks (Finds dl target abi runtime 0) .empty out) (hm : out.memory = false) {k : Nat}
    (hk : k < 2) : (out.classes k).registerClass? = eightbyteClass dl target abi runtime k := by
  have hi := h.integer hm k hk
  have hn := h.empty hm k hk
  simp only [SysVClassification.empty, true_and, reduceCtorEq, false_or] at hi hn
  unfold eightbyteClass
  cases hc : out.classes k
  case integer => rw [if_pos (hi.mp hc)]; rfl
  case memory => exact absurd hc (h.consistent.memory k)
  case noClass =>
    have hn := hn.mp hc
    rw [if_neg fun ⟨f, hf, hin⟩ => hn f hf _ hin, if_neg fun ⟨f, hf, hin⟩ => hn f hf _ hin]
    rfl
  case sse =>
    have hi : ¬∃ f, Finds dl target abi runtime 0 f ∧ f.In k .integer := fun he => by
      cases hc.symm.trans (hi.mpr he)
    have hs : ∃ f, Finds dl target abi runtime 0 f ∧ f.In k .sse := by
      by_contra hs
      have : out.classes k = .noClass := hn.mpr fun f hf cls hin => by
        cases cls
        case integer => exact hi ⟨f, hf, hin⟩
        case sse => exact hs ⟨f, hf, hin⟩
      cases hc.symm.trans this
    rw [if_neg hi, if_pos hs]
    rfl

theorem sysvComponents_classes (hc : out.Consistent) {eightbytes : List Nat} {components : List LlvmType}
    (h : sysvComponents out eightbytes = some components) :
    components.map LlvmType.registerClass = eightbytes.filterMap fun k => (out.classes k).registerClass? := by
  induction eightbytes generalizing components
  case nil =>
    cases h
    rfl
  case cons k ks ih =>
    rw [sysvComponents] at h
    split at h
    case isTrue hk =>
      have hn : out.classes k = .noClass := hk.elim id (hc.used k).mp
      rw [List.filterMap_cons_none (f := fun k => (out.classes k).registerClass?) (by rw [hn]; rfl)]
      exact ih h
    case isFalse hk =>
      have ⟨component, hcomp, h⟩ := Option.bind_eq_some_iff.mp h
      have ⟨rest, hrest, h⟩ := Option.bind_eq_some_iff.mp h
      cases h
      have hr : (out.classes k).registerClass? = some component.registerClass := by
        unfold sysvComponent at hcomp
        split at hcomp
        case h_1 he =>
          cases hcomp
          rw [he]
          rfl
        case h_2 he =>
          cases hcomp
          rw [he]
          split <;> rfl
        all_goals cases hcomp
      rw [List.filterMap_cons_some (f := fun k => (out.classes k).registerClass?) hr, List.map_cons, ih hrest]

theorem sysvComponents_result {eightbytes : List Nat} {components : List LlvmType}
    (h : sysvComponents out eightbytes = some components) :
    ∀ c ∈ components, c.resultClasses = [c.registerClass] := by
  induction eightbytes generalizing components
  case nil =>
    cases h
    exact fun _ h => nomatch h
  case cons k ks ih =>
    rw [sysvComponents] at h
    split at h
    case isTrue => exact ih h
    case isFalse =>
      have ⟨component, hcomp, h⟩ := Option.bind_eq_some_iff.mp h
      have ⟨rest, hrest, h⟩ := Option.bind_eq_some_iff.mp h
      cases h
      intro c hc
      cases hc
      case tail hc => exact ih hrest c hc
      case head =>
        unfold sysvComponent at hcomp
        split at hcomp
        case h_1 =>
          cases hcomp
          rfl
        case h_2 =>
          cases hcomp
          split <;> rfl
        all_goals cases hcomp

-- The plan for an argument or a result.
inductive Planned (dl : DataLayout) (target : TargetInfo) (abi : AbiShape) (runtime : Ir.ObjectType) (isReturn : Bool)
    (plan : LlvmCAbiValuePlan) : Prop
  | scalar (component : LlvmType) (aggregate : runtimeIsAggregate runtime = false)
    (lowered : lowerScalarCAbiValueType dl target abi runtime = some component)
    (eq : plan = ⟨.direct, none, [component], 0, 0, false, false, false⟩)
  | memory (storage : LlvmType) (aggregate : runtimeIsAggregate runtime = true) (memory : InMemory dl target abi runtime)
    (stored : dl.layout storage = objectLayout dl target abi runtime)
    (eq : plan = indirectPlan storage (objectLayout dl target abi runtime).align isReturn !isReturn)
  | registers (storage : LlvmType) (components : List LlvmType) (aggregate : runtimeIsAggregate runtime = true)
    (memory : ¬InMemory dl target abi runtime)
    (classes : components.map LlvmType.registerClass = eightbyteClasses dl target abi runtime)
    (nonempty : components ≠ []) (result : ∀ c ∈ components, c.resultClasses = [c.registerClass])
    (eq : plan = coercePlan storage (objectLayout dl target abi runtime).align components)

theorem empty_consistent : SysVClassification.empty.Consistent :=
  ⟨fun _ => SysVClass.noConfusion, fun _ => ⟨fun _ => rfl, fun _ => rfl⟩⟩

theorem classifySysvAggregate_planned {isReturn : Bool} {plan : LlvmCAbiValuePlan}
    (hr : runtimeIsAggregate runtime = true) (h : classifySysvAggregate dl target abi runtime isReturn = some plan) :
    Planned dl target abi runtime isReturn plan := by
  have ⟨storage, hs, h⟩ := Option.bind_eq_some_iff.mp h
  have ⟨out, hcls, h⟩ := Option.bind_eq_some_iff.mp h
  rw [← objectLayout_eq hs] at hcls h
  have hm : (out.memory ↔ InMemory dl target abi runtime) ∧
      (out.memory = false → Marks (Finds dl target abi runtime 0) .empty out) := by
    unfold sysvClassification at hcls
    split at hcls
    case isTrue hl =>
      cases hcls
      exact ⟨⟨fun _ => .inl hl, fun _ => rfl⟩, fun h => Bool.noConfusion h⟩
    case isFalse hl =>
      have hmarks := classifySysvObject_marks abi 0 .empty out hcls rfl empty_consistent
      refine ⟨?_, fun _ => hmarks⟩
      rw [hmarks.memory, InMemory, or_iff_right hl]
  split at h
  case isTrue ht =>
    cases h
    exact .memory storage hr (hm.1.mp ht) (objectLayout_eq hs).symm rfl
  case isFalse hf =>
    have ⟨components, hcomp, h⟩ := Option.bind_eq_some_iff.mp h
    have hmarks := hm.2 (Bool.eq_false_of_not_eq_true hf)
    split at h
    case isTrue => cases h
    case isFalse hne =>
      cases h
      refine .registers storage components hr (fun hin => hf (hm.1.mpr hin)) ?_ (fun he => hne (he ▸ rfl))
        (sysvComponents_result hcomp) rfl
      rw [sysvComponents_classes hmarks.consistent hcomp]
      apply List.filterMap_congr
      intro k hk
      exact eightbyteClass_eq hmarks (Bool.eq_false_of_not_eq_true hf) (by simp at hk; omega)

theorem buildValuePlan_planned {triple : Triple} {convention : CallingConvention} {isReturn : Bool}
    {plan : LlvmCAbiValuePlan} (hsysv : aggregateAbiIsWin64 triple convention = some false)
    (h : buildValuePlan dl target triple convention abi runtime isReturn = some plan) :
    Planned dl target abi runtime isReturn plan := by
  unfold buildValuePlan at h
  cases hr : runtimeIsAggregate runtime
  case false =>
    rw [hr] at h
    have ⟨component, hc, h⟩ := Option.bind_eq_some_iff.mp h
    cases h
    exact .scalar component hr hc rfl
  case true =>
    rw [hr] at h
    split at h
    case isTrue h0 => cases h0
    case isFalse =>
      split at h
      case isTrue => cases h
      case isFalse =>
        rw [hsysv] at h
        exact classifySysvAggregate_planned hr h

end Aggregate

-- The argument that LLVM makes of a plan.
def LlvmCAbiValuePlan.argument (dl : DataLayout) (plan : LlvmCAbiValuePlan) : Argument :=
  match plan.isByval, plan.storageType with
  | true, some storage => .memory ⟨(dl.layout storage).size, if plan.alignment < 8 then 8 else plan.alignment⟩
  | _, _ => .registers (plan.components.map LlvmType.registerClass) ⟨8, 8⟩

structure LlvmCAbiValuePlan.Regular (plan : LlvmCAbiValuePlan) : Prop where
  nonempty : plan.components ≠ []
  byval    : plan.isByval = true → plan.components = [.ptr] ∧ plan.storageType.isSome

section Scalars

variable {dl : DataLayout} {target : TargetInfo} {abi : AbiShape} {runtime : Ir.ObjectType} {type : LlvmType}

theorem wrapExplicitAlignment_struct {header : Ir.AggregateHeader} {isPacked : Bool} {types : List LlvmType}
    (h : wrapExplicitAlignment dl header (.struct isPacked types) = some type) :
    ∃ isPacked types, type = .struct isPacked types := by
  unfold wrapExplicitAlignment at h
  split at h
  case isTrue =>
    cases h
    exact ⟨_, _, rfl⟩
  case isFalse =>
    obtain ⟨_, _, rfl⟩ := Option.map_eq_some_iff.mp h
    exact ⟨_, _, rfl⟩

theorem lowerType_aggregate {header : Ir.AggregateHeader} {fields : List (ObjectField Ir.ObjectType)}
    (h : lowerType dl target (.aggregate header fields) = some type) :
    ∃ isPacked types, type = .struct isPacked types := by
  rw [lowerType] at h
  split at h
  case isTrue =>
    split at h
    case isTrue => cases h
    case isFalse =>
      obtain ⟨types, _, h⟩ := Option.bind_eq_some_iff.mp h
      split at h
      case isTrue =>
        obtain ⟨inner, hi, h⟩ := Option.bind_eq_some_iff.mp h
        unfold UnionScan.body at hi
        split at hi
        case isTrue =>
          cases hi
          exact wrapExplicitAlignment_struct h
        case isFalse =>
          obtain ⟨_, _, rfl⟩ := Option.map_eq_some_iff.mp hi
          split at h <;> exact wrapExplicitAlignment_struct h
      case isFalse => exact wrapExplicitAlignment_struct h
  case isFalse =>
    split at h
    case isTrue => cases h
    case isFalse =>
      split at h
      case isTrue => cases h
      case isFalse =>
        obtain ⟨types, _, rfl⟩ := Option.map_eq_some_iff.mp h
        exact ⟨_, _, rfl⟩

theorem lowerType_registerClass (h : lowerType dl target runtime = some type) :
    type.registerClass = registerClass runtime := by
  induction runtime using Ir.ObjectType.induct generalizing type
  case leaf t ht =>
    cases t <;> cases ht <;> rw [lowerType] at h
    case float =>
      split at h
      case isTrue => cases h; rfl
      case isFalse =>
        split at h
        case isTrue => cases h; rfl
        case isFalse => cases h
    all_goals
      cases h
      rfl
  case array element length _ =>
    rw [lowerType] at h
    obtain ⟨e, _, he⟩ := Option.map_eq_some_iff.mp h
    subst he
    rfl
  case enum backing isReprC backingAbi ih =>
    rw [lowerType] at h
    exact ih h
  case aggregate header fields _ =>
    obtain ⟨isPacked, types, rfl⟩ := lowerType_aggregate h
    rfl

theorem lowerScalarCAbiValueType_registerClass (h : lowerScalarCAbiValueType dl target abi runtime = some type) :
    type.registerClass = scalarRegisterClass abi runtime := by
  unfold lowerScalarCAbiValueType at h
  cases abi
  case array => cases h
  case pointer | opaquePointer | function =>
    cases h
    rfl
  all_goals
    dsimp only at h
    split at h
    case isTrue => cases h
    case isFalse => exact lowerType_registerClass h

end Scalars

section Plans

variable {dl : DataLayout} {target : TargetInfo} {abi : AbiShape} {runtime : Ir.ObjectType} {plan : LlvmCAbiValuePlan}

theorem prescribedArgument_scalar (h : runtimeIsAggregate runtime = false) :
    prescribedArgument dl target abi runtime = .registers [scalarRegisterClass abi runtime] ⟨8, 8⟩ := by
  simp [prescribedArgument, h]

theorem prescribedArgument_memory (h : runtimeIsAggregate runtime = true) (hm : InMemory dl target abi runtime) :
    prescribedArgument dl target abi runtime = .memory (objectLayout dl target abi runtime) := by
  simp [prescribedArgument, h, hm]

theorem prescribedArgument_registers (h : runtimeIsAggregate runtime = true) (hm : ¬InMemory dl target abi runtime) :
    prescribedArgument dl target abi runtime =
      .registers (eightbyteClasses dl target abi runtime) (objectLayout dl target abi runtime) := by
  simp [prescribedArgument, h, hm]

theorem Planned.regular (h : Planned dl target abi runtime false plan) : plan.Regular := by
  cases h
  case scalar eq =>
    subst eq
    exact ⟨List.cons_ne_nil _ _, fun h => Bool.noConfusion h⟩
  case memory eq =>
    subst eq
    exact ⟨List.cons_ne_nil _ _, fun _ => ⟨rfl, rfl⟩⟩
  case registers nonempty _ eq =>
    subst eq
    exact ⟨nonempty, fun h => Bool.noConfusion h⟩

theorem placeMemory_align {size align : Nat} {s : Occupied} :
    placeMemory ⟨size, if align < 8 then 8 else align⟩ s = placeMemory ⟨size, align⟩ s := by
  have : max 8 (if align < 8 then 8 else align) = max 8 align := by
    split <;> omega
  simp only [placeMemory, this]

theorem Planned.passSplit (h : Planned dl target abi runtime false plan) (s : Occupied) :
    (plan.argument dl).passSplit s = (prescribedArgument dl target abi runtime).passSplit s := by
  cases h
  case scalar component aggregate lowered eq =>
    subst eq
    rw [prescribedArgument_scalar aggregate, ← lowerScalarCAbiValueType_registerClass lowered]
    rfl
  case memory storage aggregate memory stored eq =>
    subst eq
    rw [prescribedArgument_memory aggregate memory]
    simp only [LlvmCAbiValuePlan.argument, indirectPlan, Bool.not_false, Argument.passSplit, stored]
    exact placeMemory_align
  case registers components aggregate memory classes nonempty _ eq =>
    subst eq
    rw [prescribedArgument_registers aggregate memory, ← classes]
    rfl

theorem Planned.wellformed {isReturn : Bool} (h : Planned dl target abi runtime isReturn plan) :
    (prescribedArgument dl target abi runtime).Wellformed := by
  cases h
  case scalar aggregate _ _ =>
    rw [prescribedArgument_scalar aggregate]
    exact List.cons_ne_nil _ _
  case memory aggregate memory _ _ =>
    rw [prescribedArgument_memory aggregate memory]
    trivial
  case registers aggregate memory classes nonempty _ _ =>
    rw [prescribedArgument_registers aggregate memory, ← classes]
    exact fun h => nonempty (List.map_eq_nil_iff.mp h)

end Plans

-- The parameters of the LLVM function that a plan stands for.
def LlvmCAbiValuePlan.pieces (dl : DataLayout) (plan : LlvmCAbiValuePlan) : List Argument :=
  match plan.isByval, plan.storageType with
  | true, some storage => [.memory ⟨(dl.layout storage).size, if plan.alignment < 8 then 8 else plan.alignment⟩]
  | _, _ => (plan.components.map LlvmType.registerClass).map fun cls => .registers [cls] ⟨8, 8⟩

-- The parameters of the plans follow each other.
inductive Sequential : Nat → List LlvmCAbiValuePlan → Prop
  | nil {start : Nat} : Sequential start []
  | cons {plan : LlvmCAbiValuePlan} {plans : List LlvmCAbiValuePlan}
    (rest : Sequential (plan.llvmParameterStart + plan.components.length) plans) :
    Sequential plan.llvmParameterStart (plan :: plans)

def byvalIn (plans : List LlvmCAbiValuePlan) (index : Nat) : Option (LlvmType × Nat) := do
  let plan ← plans.find? fun plan => plan.isByval && plan.llvmParameterStart == index
  let storage ← plan.storageType
  some (storage, if plan.alignment < 8 then 8 else plan.alignment)

section Parameters

variable {dl : DataLayout} {plans : List LlvmCAbiValuePlan} {plan : LlvmCAbiValuePlan}

theorem pieces_length (h : plan.Regular) : (plan.pieces dl).length = plan.components.length := by
  unfold LlvmCAbiValuePlan.pieces
  split
  case h_1 hb _ => rw [(h.byval hb).1]; rfl
  case h_2 => simp

theorem passAllSplit_pieces {s : Occupied} : (passAllSplit (plan.pieces dl) s).1.flatten = ((plan.argument dl).passSplit s).1 ∧
    (passAllSplit (plan.pieces dl) s).2 = ((plan.argument dl).passSplit s).2 := by
  unfold LlvmCAbiValuePlan.pieces LlvmCAbiValuePlan.argument
  split
  case h_1 => exact ⟨List.append_nil _, rfl⟩
  case h_2 => exact passAllSplit_eightbytes

theorem byvalIn_lt {start index : Nat} (h : Sequential start plans) (hi : index < start) : byvalIn plans index = none := by
  have hf : plans.find? (fun plan => plan.isByval && plan.llvmParameterStart == index) = none := by
    induction h
    case nil => rfl
    case cons plan plans _ ih =>
      rw [List.find?_cons_of_neg, ih (Nat.lt_of_lt_of_le hi (Nat.le_add_right _ _))]
      simp [hi.ne']
  rw [byvalIn, hf]
  rfl

theorem byvalIn_cons_of_ne {index : Nat} (h : plan.isByval = false ∨ plan.llvmParameterStart ≠ index) :
    byvalIn (plan :: plans) index = byvalIn plans index := by
  rw [byvalIn, byvalIn, List.find?_cons_of_neg]
  cases h <;> simp_all

variable {signature : LlvmCAbiSignature}

theorem llvmArgumentsFrom_append {index : Nat} {types types' : List LlvmType} :
    signature.llvmArgumentsFrom dl index (types ++ types') =
      signature.llvmArgumentsFrom dl index types ++ signature.llvmArgumentsFrom dl (index + types.length) types' := by
  induction types generalizing index
  case nil => rfl
  case cons type types ih =>
    rw [List.cons_append, LlvmCAbiSignature.llvmArgumentsFrom, LlvmCAbiSignature.llvmArgumentsFrom, ih, List.length_cons,
      List.cons_append, Nat.add_right_comm, Nat.add_assoc]

theorem llvmArgumentsFrom_direct {index : Nat} {types : List LlvmType}
    (h : ∀ i, index ≤ i → i < index + types.length → signature.byvalAttribute i = none) :
    signature.llvmArgumentsFrom dl index types =
      (types.map LlvmType.registerClass).map fun cls => .registers [cls] ⟨8, 8⟩ := by
  induction types generalizing index
  case nil => rfl
  case cons type types ih =>
    have h0 := h index (Nat.le_refl _) (by rw [List.length_cons]; omega)
    rw [LlvmCAbiSignature.llvmArgumentsFrom, ih fun i hi hl => h i (by omega) (by rw [List.length_cons]; omega),
      LlvmCAbiSignature.llvmArgument, h0]
    rfl

theorem llvmArgumentsFrom_flatMap {start : Nat} (hseq : Sequential start plans) (hreg : ∀ plan ∈ plans, plan.Regular)
    (h : ∀ index ≥ start, signature.byvalAttribute index = byvalIn plans index) :
    signature.llvmArgumentsFrom dl start (plans.flatMap (·.components)) = plans.flatMap (·.pieces dl) := by
  induction hseq
  case nil => rfl
  case cons plan plans hrest ih =>
    have hr := hreg plan (.head _)
    have hpos := List.length_pos_iff.mpr hr.nonempty
    rw [List.flatMap_cons, List.flatMap_cons, llvmArgumentsFrom_append]
    congr 1
    · unfold LlvmCAbiValuePlan.pieces
      cases hb : plan.isByval
      case false =>
        apply llvmArgumentsFrom_direct
        intro i hi hl
        rw [h i hi, byvalIn_cons_of_ne (.inl hb), byvalIn_lt hrest hl]
      case true =>
        have ⟨hc, hs⟩ := hr.byval hb
        obtain ⟨storage, hs⟩ := Option.isSome_iff_exists.mp hs
        have hf : byvalIn (plan :: plans) plan.llvmParameterStart =
            some (storage, if plan.alignment < 8 then 8 else plan.alignment) := by
          simp [byvalIn, hb, hs]
        rw [hc, hs, LlvmCAbiSignature.llvmArgumentsFrom, LlvmCAbiSignature.llvmArgument, h _ (Nat.le_refl _), hf]
        rfl
    · apply ih (fun p hp => hreg p (.tail _ hp))
      intro index hi
      rw [h index (by omega), byvalIn_cons_of_ne (.inr (by omega))]

-- The places of the parameters of a plan are the places of its argument.
theorem slices_eq {places pre : List (List Place)} {s : Occupied} (hseq : Sequential pre.length plans)
    (hreg : ∀ plan ∈ plans, plan.Regular) (h : places = pre ++ (passAllSplit (plans.flatMap (·.pieces dl)) s).1) :
    plans.map (fun plan => ((places.drop plan.llvmParameterStart).take plan.components.length).flatten) =
      (passAllSplit (plans.map (·.argument dl)) s).1 := by
  generalize hl : pre.length = start at hseq
  induction hseq generalizing pre s
  case nil => rfl
  case cons plan plans hrest ih =>
    have hr := hreg plan (.head _)
    have ⟨hp, hs⟩ := @passAllSplit_pieces dl plan s
    rw [List.flatMap_cons, passAllSplit_append, ← List.append_assoc] at h
    have hlen : (passAllSplit (plan.pieces dl) s).1.length = plan.components.length :=
      passAllSplit_length.trans (pieces_length hr)
    have hpre : (pre ++ (passAllSplit (plan.pieces dl) s).1).length =
        plan.llvmParameterStart + plan.components.length := by
      rw [List.length_append, hl, hlen]
    have hrest := ih (fun p hp => hreg p (.tail _ hp)) h hpre
    have hslice : (places.drop plan.llvmParameterStart).take plan.components.length =
        (passAllSplit (plan.pieces dl) s).1 := by
      rw [h, ← hl, ← hlen, List.append_assoc, List.drop_left, List.take_left]
    rw [List.map_cons, List.map_cons, hrest, hslice, hp, hs]
    rfl

end Parameters

-- `cog_ir_define_enum` accepts integers only.
def HasIntegerBacking : Ir.ObjectType → Prop
  | .enum backing _ _ => ∃ bits isSigned, backing = .integer bits isSigned
  | _ => True

section Result

variable {dl : DataLayout} {target : TargetInfo} {abi : AbiShape} {runtime : Ir.ObjectType}

theorem lowerType_resultClasses {type : LlvmType} (ha : runtimeIsAggregate runtime = false)
    (hb : HasIntegerBacking runtime) (h : lowerType dl target runtime = some type) :
    type.resultClasses = match runtime with
      | .void => []
      | _ => [registerClass runtime] := by
  cases runtime
  case array | aggregate => cases ha
  case enum =>
    obtain ⟨bits, isSigned, rfl⟩ := hb
    rw [lowerType, lowerType] at h
    cases h
    rfl
  case float bits =>
    rw [lowerType] at h
    split at h
    case isTrue =>
      cases h
      rfl
    case isFalse =>
      split at h
      case isTrue =>
        cases h
        rfl
      case isFalse => cases h
  all_goals
    rw [lowerType] at h
    cases h
    rfl

theorem lowerScalarCAbiValueType_resultClasses {type : LlvmType} (ha : runtimeIsAggregate runtime = false)
    (hb : HasIntegerBacking runtime) (h : lowerScalarCAbiValueType dl target abi runtime = some type) :
    type.resultClasses = scalarResultClasses abi runtime := by
  unfold lowerScalarCAbiValueType at h
  cases abi
  case array => cases h
  case pointer | opaquePointer | function =>
    cases h
    cases runtime <;> rfl
  all_goals
    dsimp only at h
    rw [ha, if_neg Bool.false_ne_true] at h
    rw [lowerType_resultClasses ha hb h]
    cases runtime <;> rfl

theorem llvmResult_coercePlan {storage : LlvmType} {align : Nat} {components : List LlvmType}
    {plans : List LlvmCAbiValuePlan} {count : Nat} (hn : components ≠ [])
    (hr : ∀ c ∈ components, c.resultClasses = [c.registerClass]) :
    (LlvmCAbiSignature.llvmResult ⟨coercePlan storage align components, plans, count⟩).resultClasses =
      components.map LlvmType.registerClass := by
  cases components
  case nil => exact absurd rfl hn
  case cons c cs =>
    cases cs
    case nil => exact hr c (.head _)
    case cons => rfl

end Result

section Signature

variable {dl : DataLayout} {target : TargetInfo} {triple : Triple} {convention : CallingConvention}
  (hsysv : aggregateAbiIsWin64 triple convention = some false)
include hsysv

-- What a signature keeps of the plans of its parameters.
structure Parameters (dl : DataLayout) (target : TargetInfo) (start : Nat) (parameters : List (ObjectField Ir.ObjectType))
    (plans : List LlvmCAbiValuePlan) : Prop where
  sequential : Sequential start plans
  regular    : ∀ plan ∈ plans, plan.Regular
  passSplit  : List.Forall₂ (fun a a' => ∀ s, a.passSplit s = a'.passSplit s) (plans.map (·.argument dl))
    (parameters.map fun p => prescribedArgument dl target p.abi p.type)
  wellformed : ∀ a ∈ parameters.map fun p => prescribedArgument dl target p.abi p.type, a.Wellformed

theorem buildParameters_parameters {count count' : Nat} {parameters : List (ObjectField Ir.ObjectType)}
    {plans : List LlvmCAbiValuePlan}
    (h : buildParameters dl target triple convention count parameters = some (plans, count')) :
    Parameters dl target count parameters plans := by
  induction parameters generalizing count plans
  case nil =>
    cases h
    exact ⟨.nil, fun _ h => (nomatch h), .nil, fun _ h => (nomatch h)⟩
  case cons parameter parameters ih =>
    obtain ⟨plan, hp, h⟩ := Option.bind_eq_some_iff.mp h
    obtain ⟨⟨rest, count''⟩, hr, h⟩ := Option.bind_eq_some_iff.mp h
    cases h
    have hplan := buildValuePlan_planned hsysv hp
    have hrest := ih hr
    constructor
    case sequential => exact @Sequential.cons { plan with llvmParameterStart := count } rest hrest.sequential
    case regular =>
      intro p hp
      cases hp
      case head => exact ⟨hplan.regular.nonempty, hplan.regular.byval⟩
      case tail hp => exact hrest.regular p hp
    case passSplit => exact .cons hplan.passSplit hrest.passSplit
    case wellformed =>
      intro a ha
      cases ha
      case head => exact hplan.wellformed
      case tail ha => exact hrest.wellformed a ha

variable {result : ObjectField Ir.ObjectType} {parameters : List (ObjectField Ir.ObjectType)}
  {signature : LlvmCAbiSignature}

theorem resultPlace_eq (hb : HasIntegerBacking result.type)
    (h : buildSignature dl target triple convention result parameters = some signature) :
    signature.resultPlace = prescribedResult dl target result.abi result.type := by
  obtain ⟨plan, hp, h⟩ := Option.bind_eq_some_iff.mp h
  obtain ⟨⟨plans, count⟩, _, h⟩ := Option.bind_eq_some_iff.mp h
  cases h
  cases buildValuePlan_planned hsysv hp
  case scalar component aggregate lowered eq =>
    subst eq
    simp only [prescribedResult, aggregate, ← lowerScalarCAbiValueType_resultClasses aggregate hb lowered]
    rfl
  case memory storage aggregate memory stored eq =>
    subst eq
    simp [prescribedResult, aggregate, memory, LlvmCAbiSignature.resultPlace, indirectPlan]
  case registers storage components aggregate memory classes nonempty hresult eq =>
    subst eq
    have hc := @llvmResult_coercePlan storage (objectLayout dl target result.abi result.type).align components plans count
      nonempty hresult
    rw [prescribedResult, aggregate, if_neg (by decide), if_neg memory, ← classes, LlvmCAbiSignature.resultPlace, hc]
    rfl

theorem isSret_iff (h : buildSignature dl target triple convention result parameters = some signature) :
    signature.result.isSret = true ↔ prescribedResult dl target result.abi result.type = .memory := by
  obtain ⟨plan, hp, h⟩ := Option.bind_eq_some_iff.mp h
  obtain ⟨⟨plans, count⟩, _, h⟩ := Option.bind_eq_some_iff.mp h
  cases h
  cases buildValuePlan_planned hsysv hp
  case scalar aggregate _ eq => simp [eq, prescribedResult, aggregate]
  case memory aggregate memory _ eq => simp [eq, prescribedResult, aggregate, memory, indirectPlan]
  case registers aggregate memory _ _ _ eq => simp [eq, prescribedResult, aggregate, memory, coercePlan]

theorem argumentPlaces_eq (h : buildSignature dl target triple convention result parameters = some signature) :
    signature.parameters.map (signature.argumentPlaces dl) =
      (passAllSplit (parameters.map fun p => prescribedArgument dl target p.abi p.type)
        (argumentStart dl target result.abi result.type)).1 := by
  have hsret := isSret_iff hsysv h
  obtain ⟨plan, _, h⟩ := Option.bind_eq_some_iff.mp h
  obtain ⟨⟨plans, count⟩, hps, h⟩ := Option.bind_eq_some_iff.mp h
  cases h
  have hp := buildParameters_parameters hsysv hps
  rw [← passAllSplit_congr hp.passSplit, argumentStart]
  cases hs : plan.isSret
  case false =>
    have hn : prescribedResult dl target result.abi result.type ≠ .memory := fun he => by
      cases hs.symm.trans (hsret.mpr he)
    rw [if_neg hn]
    rw [hs] at hp
    refine @slices_eq dl plans _ [] .initial hp.sequential hp.regular ?_
    rw [LlvmCAbiSignature.llvmPlaces, LlvmCAbiSignature.llvmParameters, hs,
      ← @llvmArgumentsFrom_flatMap dl plans ⟨plan, plans, count⟩ 0 hp.sequential hp.regular fun _ _ => rfl]
    rfl
  case true =>
    rw [if_pos (hsret.mp hs)]
    rw [hs] at hp
    refine @slices_eq dl plans _ [[(place .integer .initial).1]] _ hp.sequential hp.regular ?_
    have hb : LlvmCAbiSignature.byvalAttribute ⟨plan, plans, count⟩ 0 = none :=
      byvalIn_lt hp.sequential Nat.one_pos
    rw [LlvmCAbiSignature.llvmPlaces, LlvmCAbiSignature.llvmParameters, hs,
      ← @llvmArgumentsFrom_flatMap dl plans ⟨plan, plans, count⟩ 1 hp.sequential hp.regular fun _ _ => rfl]
    simp only [if_true, List.singleton_append, LlvmCAbiSignature.llvmArgumentsFrom, LlvmCAbiSignature.llvmArgument, hb]
    rfl

theorem parameters_wellformed (h : buildSignature dl target triple convention result parameters = some signature) :
    ∀ a ∈ parameters.map fun p => prescribedArgument dl target p.abi p.type, a.Wellformed := by
  obtain ⟨plan, _, h⟩ := Option.bind_eq_some_iff.mp h
  obtain ⟨⟨plans, count⟩, hps, _⟩ := Option.bind_eq_some_iff.mp h
  exact (buildParameters_parameters hsysv hps).wellformed

theorem argumentPlaces_eq_iff (h : buildSignature dl target triple convention result parameters = some signature) :
    signature.parameters.map (signature.argumentPlaces dl) = prescribedPlaces dl target result parameters ↔
      AllSplittable (parameters.map fun p => prescribedArgument dl target p.abi p.type)
        (argumentStart dl target result.abi result.type) := by
  rw [argumentPlaces_eq hsysv h]
  exact passAllSplit_eq_iff (parameters_wellformed hsysv h)

theorem signature_follows_abi_iff (hb : HasIntegerBacking result.type)
    (h : buildSignature dl target triple convention result parameters = some signature) :
    (signature.resultPlace = prescribedResult dl target result.abi result.type ∧
        signature.parameters.map (signature.argumentPlaces dl) = prescribedPlaces dl target result parameters) ↔
      AllSplittable (parameters.map fun p => prescribedArgument dl target p.abi p.type)
        (argumentStart dl target result.abi result.type) := by
  rw [argumentPlaces_eq_iff hsysv h]
  exact and_iff_right (resultPlace_eq hsysv hb h)

theorem prescribedArgument_of_plan {abi : AbiShape} {runtime : Ir.ObjectType} {plan : LlvmCAbiValuePlan}
    (h : buildValuePlan dl target triple convention abi runtime false = some plan) (hk : plan.kind = .coerce) :
    prescribedArgument dl target abi runtime =
      .registers (plan.components.map LlvmType.registerClass) (objectLayout dl target abi runtime) := by
  cases buildValuePlan_planned hsysv h
  case scalar eq =>
    subst eq
    cases hk
  case memory eq =>
    subst eq
    cases hk
  case registers aggregate memory classes _ _ eq =>
    subst eq
    rw [prescribedArgument_registers aggregate memory, ← classes]
    rfl

end Signature

section X86_64

def word : ObjectField Ir.ObjectType :=
  ⟨.integer 64 false, .semantic⟩

-- `#repr(c) Pair :: struct { first: u64, second: u64 }`
def pair : ObjectField Ir.ObjectType :=
  ⟨.aggregate (Ir.lowerHeader reprCHeader) [word, word], .semantic⟩

def pairLlvmType : LlvmType :=
  .struct false [.int 64, .int 64]

def noResult : ObjectField Ir.ObjectType :=
  ⟨.void, .semantic⟩

def x86_64Target : TargetInfo :=
  Target.targetInfoFromConfig x86_64Linux

def x86_64Triple : Triple :=
  ⟨true, false⟩

theorem word_storage : lowerCObjectType x86_64DataLayout x86_64Target word.abi word.type = some (.int 64) := by
  simp [word, lowerCObjectType, lowerType]

theorem pair_storage : lowerCObjectType x86_64DataLayout x86_64Target pair.abi pair.type = some pairLlvmType := by
  simp [pair, word, Ir.lowerHeader, reprCHeader, lowerCObjectType, lowerType, lowerCFields, lowerReprCStruct,
    wrapExplicitAlignment, pairLlvmType]

theorem pair_classification : classifySysvObject x86_64DataLayout x86_64Target pair.abi pair.type 0 .empty =
    some ((SysVClassification.empty.markRange 0 8 .integer).markRange 8 8 .integer) := by
  simp [pair, word, Ir.lowerHeader, reprCHeader, lowerCObjectType, lowerType, lowerCFields, lowerReprCStruct,
    wrapExplicitAlignment, classifySysvObject, classifyStructFields, structFieldOffset, reprCFieldOffset,
    classifySysvField, markObject, scalarClass]
  rfl

theorem pair_plan : buildValuePlan x86_64DataLayout x86_64Target x86_64Triple .default pair.abi pair.type false =
    some (coercePlan pairLlvmType 8 [.int 64, .int 64]) := by
  change classifySysvAggregate x86_64DataLayout x86_64Target pair.abi pair.type false = _
  rw [classifySysvAggregate, pair_storage]
  change (sysvClassification x86_64DataLayout x86_64Target pair.abi pair.type 16).bind _ = _
  rw [sysvClassification, if_neg (by decide), pair_classification]
  rfl

theorem word_plan : buildValuePlan x86_64DataLayout x86_64Target x86_64Triple .default word.abi word.type false =
    some ⟨.direct, none, [.int 64], 0, 0, false, false, false⟩ := by
  simp [buildValuePlan, runtimeIsAggregate, lowerScalarCAbiValueType, word, lowerType]

theorem noResult_plan :
    buildValuePlan x86_64DataLayout x86_64Target x86_64Triple .default noResult.abi noResult.type true =
      some ⟨.direct, none, [.void], 0, 0, false, false, false⟩ := by
  simp [buildValuePlan, runtimeIsAggregate, lowerScalarCAbiValueType, noResult, lowerType]

theorem pair_prescribed : prescribedArgument x86_64DataLayout x86_64Target pair.abi pair.type =
    .registers [.integer, .integer] ⟨16, 8⟩ := by
  rw [prescribedArgument_of_plan rfl pair_plan rfl, objectLayout_eq pair_storage]
  rfl

theorem word_prescribed : prescribedArgument x86_64DataLayout x86_64Target word.abi word.type =
    .registers [.integer] ⟨8, 8⟩ :=
  prescribedArgument_scalar rfl

theorem noResult_backing : HasIntegerBacking noResult.type :=
  trivial

theorem noResult_start : argumentStart x86_64DataLayout x86_64Target noResult.abi noResult.type = .initial := by
  simp [argumentStart, prescribedResult, noResult, runtimeIsAggregate]

def directPlan (start : Nat) : LlvmCAbiValuePlan :=
  ⟨.direct, none, [.int 64], 0, start, false, false, false⟩

def pairPlan (start : Nat) : LlvmCAbiValuePlan :=
  { coercePlan pairLlvmType 8 [.int 64, .int 64] with llvmParameterStart := start }

def noResultPlan : LlvmCAbiValuePlan :=
  ⟨.direct, none, [.void], 0, 0, false, false, false⟩

-- `fn(p: Pair, a: u64)`
def pairAndWordSignature : LlvmCAbiSignature :=
  ⟨noResultPlan, [pairPlan 0, directPlan 2], 3⟩

theorem pairAndWord_signature :
    buildSignature x86_64DataLayout x86_64Target x86_64Triple .default noResult [pair, word] =
      some pairAndWordSignature := by
  rw [buildSignature, noResult_plan]
  simp [buildParameters, pair_plan, word_plan, coercePlan, noResultPlan, pairPlan, directPlan, pairAndWordSignature]

theorem pairAndWord_splittable :
    AllSplittable ([pair, word].map fun p => prescribedArgument x86_64DataLayout x86_64Target p.abi p.type)
      (argumentStart x86_64DataLayout x86_64Target noResult.abi noResult.type) := by
  rw [List.map_cons, List.map_cons, List.map_nil, pair_prescribed, word_prescribed, noResult_start]
  exact ⟨.inl (by decide), .inl (by decide), trivial⟩

theorem pairAndWord_follows_abi :
    pairAndWordSignature.resultPlace = prescribedResult x86_64DataLayout x86_64Target noResult.abi noResult.type ∧
      pairAndWordSignature.parameters.map (pairAndWordSignature.argumentPlaces x86_64DataLayout) =
        prescribedPlaces x86_64DataLayout x86_64Target noResult [pair, word] :=
  (signature_follows_abi_iff rfl noResult_backing pairAndWord_signature).mpr pairAndWord_splittable

-- `fn(a: u64, b: u64, c: u64, d: u64, e: u64, p: Pair)`. One register is left for the two eightbytes of the pair.
theorem wordsAndPair_signature :
    buildSignature x86_64DataLayout x86_64Target x86_64Triple .default noResult [word, word, word, word, word, pair] =
      some ⟨noResultPlan, [directPlan 0, directPlan 1, directPlan 2, directPlan 3, directPlan 4, pairPlan 5], 7⟩ := by
  rw [buildSignature, noResult_plan]
  simp [buildParameters, pair_plan, word_plan, coercePlan, noResultPlan, pairPlan, directPlan]

theorem wordsAndPair_split :
    ∃ signature,
      buildSignature x86_64DataLayout x86_64Target x86_64Triple .default noResult [word, word, word, word, word, pair] =
        some signature ∧
      (signature.parameters.map (signature.argumentPlaces x86_64DataLayout)).getLast? =
        some [.register .integer 5, .stack 0] ∧
      (prescribedPlaces x86_64DataLayout x86_64Target noResult [word, word, word, word, word, pair]).getLast? =
        some [.stack 0, .stack 8] := by
  refine ⟨_, wordsAndPair_signature, by decide, ?_⟩
  rw [prescribedPlaces, noResult_start]
  simp only [List.map_cons, List.map_nil, pair_prescribed, word_prescribed]
  decide

end X86_64

end Coglet.Backend.Llvm
