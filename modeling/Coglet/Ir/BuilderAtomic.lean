import Coglet.Ir.BuilderCall

-- Which calls of the builder leave the module as it was when they fail.

namespace Coglet.Ir.Builder

open Attempt
open Ast (SourceSpan)

namespace CogIrTerminator

-- The cases of a switch are counted but not there.
def CasesMissing (terminator : CogIrTerminator) : Prop :=
  match terminator.kind with
  | .switch _ cases _ => cases.missing = true
  | _ => False

end CogIrTerminator

namespace CogIrFunction

variable {function : CogIrFunction} {id : Nat} {block block' : CogIrBlock}

@[simp] theorem setBlock_values : (function.setBlock id block').values = function.values := rfl

theorem setBlock_eq_iff (h : function.getBlock id = some block) :
    function.setBlock id block' = function ↔ block' = block := by
  refine .trans ?_ (GrowArray.set_eq_iff function.blocks (getElem?_of_lookup h))
  exact ⟨congrArg CogIrFunction.blocks, fun he => by rw [setBlock, he]⟩

end CogIrFunction

namespace Module

variable {m : Module} {id : Nat} {function function' : CogIrFunction}

-- The function cannot have one more value of the type.
def ValueRefused (m : Module) (function : CogIrFunction) (type : CogIrTypeId) : Prop :=
  (m.getType type).isNone ∨ COG_IR_ID_INVALID ≤ function.values.items.length

instance : Decidable (m.ValueRefused function type) :=
  inferInstanceAs (Decidable (_ ∨ _))

theorem valueRefused_setBlock : m.ValueRefused (function.setBlock id block) type ↔ m.ValueRefused function type :=
  .rfl

theorem appendValue_eq :
    m.appendValue function type kind block ordinal span =
      if m.ValueRefused function type then fail function
      else
        done { function with values := function.values.push ⟨type, COG_IR_ID_INVALID, kind, block, ordinal, span⟩ }
          function.values.items.length := by
  simp [appendValue, ValueRefused]

theorem appendValue_fail (h : m.ValueRefused function type) :
    m.appendValue function type kind block ordinal span = fail function := by
  rw [appendValue_eq, if_pos h]

theorem appendValue_ne_none (h : ¬m.ValueRefused function type) :
    (m.appendValue function type kind block ordinal span).2 ≠ none := by
  rw [appendValue_eq, if_neg h]
  exact nofun

theorem setFunction_eq_iff (h : m.getFunction id = some function) :
    m.setFunction id function' = m ↔ function' = function := by
  refine .trans ?_ (GrowArray.set_eq_iff m.functions (getElem?_of_lookup h))
  exact ⟨congrArg Module.functions, fun he => by rw [setFunction, he]⟩

section Interning

theorem appendType_atomic : Atomic m (m.appendType entry) :=
  .guard fun _ => .done

theorem internType_atomic : Atomic m (m.internType content) := by
  unfold internType
  split
  case h_1 => exact .done
  case h_2 => exact appendType_atomic

theorem appendAbiType_atomic : Atomic m (m.appendAbiType type) :=
  .guard fun _ => .done

theorem internAbiType_atomic : Atomic m (m.internAbiType type) := by
  unfold internAbiType
  split
  case h_1 => exact .done
  case h_2 => exact appendAbiType_atomic

theorem appendConstant_atomic : Atomic m (m.appendConstant constant) :=
  .guard fun _ => .done

theorem internScalarConstant_atomic : Atomic m (m.internScalarConstant constant) := by
  unfold internScalarConstant
  split
  case h_1 => exact .done
  case h_2 => exact appendConstant_atomic

theorem addAggregateConstant_atomic : Atomic m (m.addAggregateConstant kind type elements) :=
  .guard fun _ => .guard fun _ => appendConstant_atomic

end Interning

section Types

theorem typeFunction_atomic : Atomic m (m.typeFunction result parameters abi convention variadic) :=
  .guard fun _ => .guard fun _ => .guard fun _ => internType_atomic

theorem markIncompleteAggregateType_atomic : Atomic m (m.markIncompleteAggregateType id) := by
  refine .guard fun _ => ?_
  split
  case h_1 => exact .fail
  case h_2 => exact .done

theorem defineAggregateType_atomic : Atomic m (m.defineAggregateType id fields isReprC isPacked alignment) := by
  refine .guard fun _ => ?_
  split
  case h_1 => exact .fail
  case h_2 => exact .guard fun _ => .done

theorem defineEnumType_atomic : Atomic m (m.defineEnumType id backing members isReprC backingAbi) := by
  refine .guard fun _ => ?_
  split
  case h_1 => exact .fail
  case h_2 => exact .guard fun _ => .guard fun _ => .done

theorem abiTypeFunction_atomic : Atomic m (m.abiTypeFunction runtimeType returnType parameters) := by
  unfold abiTypeFunction
  split
  case h_1 => exact .fail
  case h_2 => exact .guard fun _ => .guard fun _ => internAbiType_atomic

end Types

section Functions

theorem beginFunctionDefinition_atomic : Atomic m (m.beginFunctionDefinition id) := by
  refine .guard fun _ => ?_
  split
  case h_1 => exact .fail
  case h_2 => exact .guard fun _ => .done

theorem addSlot_atomic : Atomic m (m.addSlot id kind parameterIndex debugName span type) := by
  refine .guard fun _ => ?_
  split
  case h_1 => exact .fail
  case h_2 => exact .guard fun _ => .done

theorem setSlotAbiType_atomic : Atomic m (m.setSlotAbiType id slot abiType) := by
  refine .guard fun _ => ?_
  split
  case h_1 => exact .fail
  case h_2 =>
    split
    case h_1 => exact .fail
    case h_2 => exact .guard fun _ => .done

theorem setValueAbiType_atomic : Atomic m (m.setValueAbiType id value abiType) := by
  refine .guard fun _ => ?_
  split
  case h_1 => exact .fail
  case h_2 =>
    split
    case h_1 => exact .fail
    case h_2 => exact .guard fun _ => .done

theorem markValueDiscarded_atomic : Atomic m (m.markValueDiscarded id value) := by
  refine .guard fun _ => ?_
  split
  case h_1 => exact .fail
  case h_2 =>
    split
    case h_1 => exact .fail
    case h_2 =>
      refine .guard fun _ => ?_
      split
      case h_1 => exact .fail
      case h_2 =>
        split
        case h_1 => exact .fail
        case h_2 => exact .guard fun _ => .done

theorem addBlock_atomic : Atomic m (m.addBlock id debugName span) := by
  refine .guard fun _ => ?_
  split
  case h_1 => exact .fail
  case h_2 => exact .guard fun _ => .done

end Functions

section Blocks

-- A block that can be extended.
structure OpenBlock (m : Module) (functionId : CogIrFunctionId) (blockId : CogIrBlockId) (function : CogIrFunction)
    (block : CogIrBlock) : Prop where
  isMutable   : m.mutable
  hasFunction : m.getFunction functionId = some function
  hasBlock    : function.getBlock blockId = some block
  isOpen      : block.terminator.isNone

def TearsTerminator (m : Module) (functionId : CogIrFunctionId) (blockId : CogIrBlockId) (input : CogIrTerminator) :
    Prop :=
  input.CasesMissing ∧ ∃ function block, m.OpenBlock functionId blockId function block

def TearsInstruction (m : Module) (functionId : CogIrFunctionId) (blockId : CogIrBlockId) (input : CogIrInstruction) :
    Prop :=
  ∃ function block, m.OpenBlock functionId blockId function block ∧
    block.instructions.Full ∧ input.resultType ≠ COG_IR_ID_INVALID ∧ m.ValueRefused function input.resultType

def TearsBlockParameter (m : Module) (functionId : CogIrFunctionId) (blockId : CogIrBlockId) (type : CogIrTypeId) :
    Prop :=
  m.mutable ∧ (m.getType type).isSome ∧ ∃ function block,
    m.getFunction functionId = some function ∧ function.getBlock blockId = some block ∧
    block.parameters.Full ∧ COG_IR_ID_INVALID ≤ function.values.items.length

variable {functionId : CogIrFunctionId} {blockId : CogIrBlockId} {block : CogIrBlock}

theorem setTerminator_fail (ho : m.OpenBlock functionId blockId function block) (hc : input.CasesMissing) :
    m.setTerminator functionId blockId input =
      fail (m.setFunction functionId (function.setBlock blockId { block with terminator := input })) := by
  obtain ⟨hm, hf, hb, ht⟩ := ho
  obtain ⟨kind, span⟩ := input
  cases kind
  case switch value cases edge =>
    have hc : cases.missing = true := hc
    have hn : CogIrTerminator.isNone ⟨.switch value cases edge, span⟩ = false := rfl
    simp [setTerminator, hm, hf, hb, ht, hn, hc]
  all_goals exact hc.elim

theorem setTerminator_atomic_iff :
    Atomic m (m.setTerminator functionId blockId input) ↔ ¬m.TearsTerminator functionId blockId input := by
  constructor
  case mp =>
    rintro ha ⟨hc, function, block, ho⟩
    rw [setTerminator_fail ho hc, Atomic.fail_iff, setFunction_eq_iff ho.hasFunction,
      CogIrFunction.setBlock_eq_iff ho.hasBlock] at ha
    have hn : input.isNone := (congrArg (fun b => b.terminator.isNone) ha).trans ho.isOpen
    obtain ⟨kind, span⟩ := input
    cases kind
    case switch => cases hn
    all_goals exact hc
  case mpr =>
    refine fun h => .guard fun hm => ?_
    split
    case h_1 => exact .fail
    case h_2 function hf =>
      split
      case h_1 => exact .fail
      case h_2 block hb =>
        refine .guard fun ht => ?_
        split
        case h_2 => exact .done
        case h_1 value cases edge hk =>
          refine .ite (fun hc => absurd ⟨?_, function, block, by simp_all, hf, hb, by simpa using ht⟩ h) fun _ => .done
          rw [CogIrTerminator.CasesMissing, hk]
          exact hc

theorem reserve_instructions_eq_iff (hf : m.getFunction functionId = some function)
    (hb : function.getBlock blockId = some block) :
    m.setFunction functionId
      (function.setBlock blockId { block with instructions := block.instructions.reserve }) = m ↔
      ¬block.instructions.Full := by
  rw [setFunction_eq_iff hf, CogIrFunction.setBlock_eq_iff hb, ← GrowArray.reserve_eq_iff]
  exact ⟨congrArg CogIrBlock.instructions, fun he => by rw [he]⟩

theorem reserve_parameters_eq_iff (hf : m.getFunction functionId = some function)
    (hb : function.getBlock blockId = some block) :
    m.setFunction functionId
      (function.setBlock blockId { block with parameters := block.parameters.reserve }) = m ↔
      ¬block.parameters.Full := by
  rw [setFunction_eq_iff hf, CogIrFunction.setBlock_eq_iff hb, ← GrowArray.reserve_eq_iff]
  exact ⟨congrArg CogIrBlock.parameters, fun he => by rw [he]⟩

theorem emit_closed (h : ¬∃ function block, m.OpenBlock functionId blockId function block) :
    m.emit functionId blockId input = fail m := by
  unfold emit
  split
  case isTrue => rfl
  case isFalse hm =>
    split
    case h_1 => rfl
    case h_2 function hf =>
      split
      case h_1 => rfl
      case h_2 block hb =>
        exact if_pos (by by_contra ht; exact h ⟨function, block, by simpa using hm, hf, hb, by simpa using ht⟩)

theorem emit_fail (ho : m.OpenBlock functionId blockId function block) (hr : input.resultType ≠ COG_IR_ID_INVALID)
    (hv : m.ValueRefused function input.resultType) :
    m.emit functionId blockId input = fail (m.setFunction functionId (function.setBlock blockId
      { block with instructions := block.instructions.reserve })) := by
  obtain ⟨hm, hf, hb, ht⟩ := ho
  simp only [emit, hm, hf, hb, ht, hr, Bool.not_true, Bool.false_eq_true, ↓reduceIte]
  split
  case isTrue => rfl
  case isFalse => rw [appendValue_fail (valueRefused_setBlock.mpr hv)]; rfl

theorem emit_done (ho : m.OpenBlock functionId blockId function block)
    (hv : ¬(input.resultType ≠ COG_IR_ID_INVALID ∧ m.ValueRefused function input.resultType)) :
    ∃ m' result, m.emit functionId blockId input = done m' result := by
  obtain ⟨hm, hf, hb, ht⟩ := ho
  simp only [emit, hm, hf, hb, ht, Bool.not_true, Bool.false_eq_true, ↓reduceIte]
  split
  case isTrue => exact ⟨_, _, rfl⟩
  case isFalse hr =>
    have hv : ¬m.ValueRefused function input.resultType := fun h => hv ⟨hr, h⟩
    rw [if_neg (fun hn => hv (.inl hn))]
    split
    case h_1 he =>
      exact absurd (congrArg Prod.snd he) (appendValue_ne_none (valueRefused_setBlock.not.mpr hv))
    case h_2 => exact ⟨_, _, rfl⟩

theorem emit_atomic_iff :
    Atomic m (m.emit functionId blockId input) ↔ ¬m.TearsInstruction functionId blockId input := by
  by_cases ho : ∃ function block, m.OpenBlock functionId blockId function block
  case neg =>
    rw [emit_closed ho]
    exact iff_of_true .fail fun ⟨function, block, h, _⟩ => ho ⟨function, block, h⟩
  case pos =>
    obtain ⟨function, block, ho⟩ := ho
    have ht : m.TearsInstruction functionId blockId input ↔ block.instructions.Full ∧
        input.resultType ≠ COG_IR_ID_INVALID ∧ m.ValueRefused function input.resultType := by
      refine ⟨fun ⟨function', block', ho', h⟩ => ?_, fun h => ⟨function, block, ho, h⟩⟩
      cases ho.hasFunction.symm.trans ho'.hasFunction
      cases ho.hasBlock.symm.trans ho'.hasBlock
      exact h
    rw [ht]
    by_cases hv : input.resultType ≠ COG_IR_ID_INVALID ∧ m.ValueRefused function input.resultType
    case neg =>
      obtain ⟨m', result, h⟩ := emit_done ho hv
      rw [h]
      exact iff_of_true .done fun h => hv h.2
    case pos =>
      rw [emit_fail ho hv.1 hv.2, and_iff_left hv, ← reserve_instructions_eq_iff ho.hasFunction ho.hasBlock]
      exact Atomic.fail_iff

theorem addBlockParameter_fail (hm : m.mutable) (ht : (m.getType type).isSome)
    (hf : m.getFunction functionId = some function) (hb : function.getBlock blockId = some block)
    (hv : m.ValueRefused function type) :
    m.addBlockParameter functionId blockId type debugName span = fail (m.setFunction functionId
      (function.setBlock blockId { block with parameters := block.parameters.reserve })) := by
  have hn : (m.getType type).isNone = false := by simpa using ht
  simp only [addBlockParameter, hm, hn, hf, hb, appendValue_fail (valueRefused_setBlock.mpr hv)]
  rfl

theorem addBlockParameter_atomic_iff :
    Atomic m (m.addBlockParameter functionId blockId type debugName span) ↔
      ¬m.TearsBlockParameter functionId blockId type := by
  constructor
  case mp =>
    rintro ha ⟨hm, ht, function, block, hf, hb, hfull, hv⟩
    rw [addBlockParameter_fail hm ht hf hb (.inr hv), Atomic.fail_iff, reserve_parameters_eq_iff hf hb] at ha
    exact ha hfull
  case mpr =>
    refine fun h => .guard fun hm => ?_
    have ⟨hm, ht⟩ : m.mutable ∧ (m.getType type).isSome := by simpa [not_or, Option.isSome_iff_ne_none] using hm
    split
    case h_1 => exact .fail
    case h_2 function hf =>
      split
      case h_1 => exact .fail
      case h_2 block hb =>
        by_cases hv : m.ValueRefused function type
        case neg =>
          dsimp only
          split
          case h_1 he => exact absurd (congrArg Prod.snd he) (appendValue_ne_none (valueRefused_setBlock.not.mpr hv))
          case h_2 => exact .done
        case pos =>
          have hl := hv.resolve_left (by simpa [Option.isSome_iff_ne_none] using ht)
          have hfull : ¬block.parameters.Full := fun hfull => h ⟨hm, ht, function, block, hf, hb, hfull, hl⟩
          simp only [appendValue_fail (valueRefused_setBlock.mpr hv)]
          exact Atomic.fail_iff.mpr <| (reserve_parameters_eq_iff hf hb).mpr hfull

end Blocks

section Parameters

-- The checks before a function becomes part of the module.
structure AcceptsFunction (m : Module) (type : FunctionType) (abi : Option CogIrFunctionAbi) : Prop where
  isMutable : m.mutable
  hasRoom   : m.functions.items.length < COG_IR_ID_INVALID
  matchesAbi : abi.any (abiMismatch · type) = false

-- Some parameter of the function cannot be added to it.
def ParameterRefused (m : Module) (type : FunctionType) : Prop :=
  (∃ parameterType ∈ type.parameterTypes, (m.getType parameterType).isNone) ∨
    COG_IR_ID_INVALID < type.parameterTypes.length

def TearsFunction (m : Module) (typeId : CogIrTypeId) (abi : Option CogIrFunctionAbi) : Prop :=
  ∃ type, (m.getType typeId).bind functionType = some type ∧ m.AcceptsFunction type abi ∧ m.ParameterRefused type

theorem appendParameters_eq_none_iff {parameterTypes : List CogIrTypeId}
    (hl : function.values.items.length ≤ COG_IR_ID_INVALID) :
    (m.appendParameters abi span ordinal parameterTypes function).2 = none ↔
      (∃ type ∈ parameterTypes, (m.getType type).isNone) ∨
        COG_IR_ID_INVALID < function.values.items.length + parameterTypes.length := by
  induction parameterTypes generalizing function ordinal
  case nil => simpa [appendParameters, done] using hl
  case cons type types ih =>
    rw [appendParameters, appendValue_eq]
    by_cases hv : m.ValueRefused function type
    case pos =>
      simp only [if_pos hv, fail, true_iff]
      obtain hn | hf := hv
      case inl => exact .inl ⟨type, List.mem_cons_self, hn⟩
      case inr => exact .inr (by simp; omega)
    case neg =>
      simp only [if_neg hv, done]
      have ⟨hn, hf⟩ := not_or.mp hv
      rw [ih (by simp; omega)]
      have hn : m.getType type ≠ none := by simpa using hn
      simp [hn, Nat.add_assoc, Nat.add_comm 1]

theorem addFunction_refused
    (h : ¬∃ type, (m.getType typeId).bind functionType = some type ∧ m.AcceptsFunction type abi) :
    m.addFunction debugName span typeId kind linkage generated abi = fail m := by
  unfold addFunction
  split
  case h_1 => rfl
  case h_2 type ht =>
    have h : ¬m.AcceptsFunction type abi := fun ha => h ⟨type, ht, ha⟩
    split
    case isTrue => rfl
    case isFalse hc =>
      refine if_pos ?_
      by_contra ha
      exact h ⟨by simp_all, by simp_all, by simpa using ha⟩

theorem addFunction_fail (ht : (m.getType typeId).bind functionType = some type) (ha : m.AcceptsFunction type abi)
    (hp : m.ParameterRefused type) :
    ∃ function, m.addFunction debugName span typeId kind linkage generated abi =
      fail { m with functions := m.functions.push function } := by
  obtain ⟨hm, hl, hc⟩ := ha
  simp only [addFunction, ht, hm, decide_eq_false (Nat.not_le.mpr hl), hc, Bool.not_true, Bool.or_self,
    Bool.false_eq_true, ↓reduceIte]
  split
  case h_1 => exact ⟨_, rfl⟩
  case h_2 he =>
    have hn := (congrArg Prod.snd he).symm.trans <| (appendParameters_eq_none_iff (Nat.zero_le _)).mpr
      (by simpa [ParameterRefused, GrowArray.empty] using hp)
    cases hn

theorem addFunction_ne_none (ht : (m.getType typeId).bind functionType = some type) (ha : m.AcceptsFunction type abi)
    (hp : ¬m.ParameterRefused type) : (m.addFunction debugName span typeId kind linkage generated abi).2 ≠ none := by
  obtain ⟨hm, hl, hc⟩ := ha
  simp only [addFunction, ht, hm, decide_eq_false (Nat.not_le.mpr hl), hc, Bool.not_true, Bool.or_self,
    Bool.false_eq_true, ↓reduceIte]
  split
  case h_1 he =>
    have hn := (appendParameters_eq_none_iff (Nat.zero_le _)).mp (congrArg Prod.snd he)
    exact absurd (by simpa [ParameterRefused, GrowArray.empty] using hn) hp
  case h_2 => exact nofun

theorem addFunction_atomic_iff :
    Atomic m (m.addFunction debugName span typeId kind linkage generated abi) ↔ ¬m.TearsFunction typeId abi := by
  by_cases h : ∃ type, (m.getType typeId).bind functionType = some type ∧ m.AcceptsFunction type abi
  case neg =>
    rw [addFunction_refused h]
    exact iff_of_true .fail fun ⟨type, ht, ha, _⟩ => h ⟨type, ht, ha⟩
  case pos =>
    obtain ⟨type, ht, ha⟩ := h
    by_cases hp : m.ParameterRefused type
    case pos =>
      obtain ⟨function, he⟩ := @addFunction_fail _ _ _ _ debugName span kind linkage generated ht ha hp
      rw [he, Atomic.fail_iff]
      refine iff_of_false (fun he => ?_) (not_not_intro ⟨type, ht, ha, hp⟩)
      exact m.functions.push_ne (congrArg Module.functions he)
    case neg =>
      refine iff_of_true (fun hn => absurd hn (addFunction_ne_none ht ha hp)) ?_
      rintro ⟨type', ht', _, hp'⟩
      cases ht.symm.trans ht'
      exact hp hp'

end Parameters

section Calls

-- The calls that can fail after they changed the module.
def Tears (m : Module) : Call → Prop
  | .addFunction _ _ type _ _ _ abi => m.TearsFunction type abi
  | .addBlockParameter function block type _ _ => m.TearsBlockParameter function block type
  | .emit function block input => m.TearsInstruction function block input
  | .setTerminator function block input => m.TearsTerminator function block input
  | _ => False

theorem number_atomic_iff {outcome : Module × Option Nat} : Atomic m (number outcome) ↔ Atomic m outcome := by
  simp [Atomic, number]

theorem success_atomic_iff {outcome : Module × Option Unit} : Atomic m (success outcome) ↔ Atomic m outcome := by
  simp [Atomic, success]

theorem step_atomic_iff (m : Module) (call : Call) : Atomic m (m.step call) ↔ ¬m.Tears call := by
  cases call
  case addFunction => exact number_atomic_iff.trans addFunction_atomic_iff
  case addBlockParameter => exact number_atomic_iff.trans addBlockParameter_atomic_iff
  case emit => exact number_atomic_iff.trans emit_atomic_iff
  case setTerminator => exact success_atomic_iff.trans setTerminator_atomic_iff
  case typeFunction => exact iff_of_true (number_atomic_iff.mpr typeFunction_atomic) id
  case typeVoid | typeBool | typeInteger | typeFloat | typePointer | typeOpaquePointer | typeArray =>
    exact iff_of_true (number_atomic_iff.mpr <| .guard fun _ => internType_atomic) id
  case declareNominalType => exact iff_of_true (number_atomic_iff.mpr <| .guard fun _ => appendType_atomic) id
  case markIncompleteAggregateType => exact iff_of_true (success_atomic_iff.mpr markIncompleteAggregateType_atomic) id
  case defineAggregateType => exact iff_of_true (success_atomic_iff.mpr defineAggregateType_atomic) id
  case defineEnumType => exact iff_of_true (success_atomic_iff.mpr defineEnumType_atomic) id
  case abiTypeFunction => exact iff_of_true (number_atomic_iff.mpr abiTypeFunction_atomic) id
  case abiTypeSemantic | abiTypeCScalar | abiTypePointer | abiTypeOpaquePointer | abiTypeArray =>
    exact iff_of_true (number_atomic_iff.mpr <| .guard fun _ => internAbiType_atomic) id
  case constZero | constBool | constInteger | constFloat32 | constFloat64 | constNull =>
    exact iff_of_true (number_atomic_iff.mpr <| .guard fun _ => internScalarConstant_atomic) id
  case constArray | constStruct =>
    exact iff_of_true (number_atomic_iff.mpr <| .guard fun _ => addAggregateConstant_atomic) id
  case addGlobal => exact iff_of_true (number_atomic_iff.mpr <| .guard fun _ => .done) id
  case setEntryFunction | setInitFunction => exact iff_of_true (success_atomic_iff.mpr <| .guard fun _ => .done) id
  case beginFunctionDefinition => exact iff_of_true (success_atomic_iff.mpr beginFunctionDefinition_atomic) id
  case addSlot => exact iff_of_true (number_atomic_iff.mpr addSlot_atomic) id
  case setSlotAbiType => exact iff_of_true (success_atomic_iff.mpr setSlotAbiType_atomic) id
  case setValueAbiType => exact iff_of_true (success_atomic_iff.mpr setValueAbiType_atomic) id
  case markValueDiscarded => exact iff_of_true (success_atomic_iff.mpr markValueDiscarded_atomic) id
  case addBlock => exact iff_of_true (number_atomic_iff.mpr addBlock_atomic) id

theorem addAggregateConstant_frozen (h : m.mutable = false) : m.addAggregateConstant kind type elements = fail m :=
  if_pos (by simp [h])

theorem constArray_frozen (h : m.mutable = false) : m.constArray type elements = fail m := by
  unfold constArray
  split
  case isTrue => rfl
  case isFalse => exact addAggregateConstant_frozen h

theorem constStruct_frozen (h : m.mutable = false) : m.constStruct type fields = fail m := by
  unfold constStruct
  split
  case isTrue => rfl
  case isFalse => exact addAggregateConstant_frozen h

theorem abiTypeFunction_frozen (h : m.mutable = false) :
    m.abiTypeFunction runtimeType returnType parameters = fail m := by
  unfold abiTypeFunction
  split
  case h_1 => rfl
  case h_2 => exact if_pos (by simp [h])

theorem step_frozen (call : Call) (h : m.mutable = false) : m.step call = fail m := by
  cases call
  case addFunction => exact congrArg number (addFunction_refused fun ⟨_, _, ha⟩ => by simp [ha.isMutable] at h)
  case abiTypeFunction => exact congrArg number (abiTypeFunction_frozen h)
  case constArray => exact congrArg number (constArray_frozen h)
  case constStruct => exact congrArg number (constStruct_frozen h)
  case markIncompleteAggregateType | defineAggregateType | defineEnumType | beginFunctionDefinition
      | setEntryFunction | setInitFunction | setSlotAbiType | setValueAbiType | markValueDiscarded | setTerminator =>
    exact congrArg success (if_pos (by simp [h]))
  all_goals exact congrArg number (if_pos (by simp [h]))

-- A failure leaves the module as it was exactly when the call does not tear it, and a frozen module never changes.
theorem failures_atomic_iff (m : Module) (call : Call) :
    (Atomic m (m.step call) ↔ ¬m.Tears call) ∧ (m.isFrozen = true → m.step call = fail m) :=
  ⟨m.step_atomic_iff call, fun h => step_frozen call (by simp [mutable, h])⟩

theorem failures_atomic_iff_frozen :
    initial.freeze.isFrozen = true ∧ initial.freeze.step .typeVoid = fail initial.freeze :=
  ⟨rfl, (failures_atomic_iff initial.freeze .typeVoid).2 rfl⟩

-- A function with one open block
def withBlock : Module :=
  initial.run
    [.typeVoid, .typeFunction 0 (.null 0) .coglet .default false,
      .addFunction "f" sourceSpanInvalid 1 .definition .internal false none, .addBlock 0 "entry" sourceSpanInvalid]

-- A switch that counts one case without an array of cases.
def switchWithoutCases : Call :=
  .setTerminator 0 0 ⟨.switch 0 (.null 1) ⟨0, []⟩, sourceSpanInvalid⟩

-- The call fails, but the block has a terminator afterwards.
theorem failed_switch_closes_block : ¬Atomic withBlock (withBlock.step switchWithoutCases) := by
  intro ha
  have he := congrArg (fun m => m.functions.items.map fun function => function.blocks.items.map (·.terminator.isNone))
    (ha rfl)
  exact absurd he (by decide)

end Calls

end Module

end Coglet.Ir.Builder
