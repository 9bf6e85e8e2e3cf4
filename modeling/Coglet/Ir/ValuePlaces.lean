import Coglet.Ir.BuilderInterning

-- Every value in the table of a function is what its entry says, in every build.

namespace Coglet.Ir.Builder

open Attempt
open Ast (SourceSpan)

-- The values that a block introduces as its parameters or by its instructions.
def CogIrBlock.introduces (block : CogIrBlock) : CogIrValueKind → List CogIrValueId
  | .functionParameter => []
  | .blockParameter => block.parameters.items.map (·.value)
  | .instruction => block.instructions.items.map (·.result)

namespace CogIrFunction

-- The value that is found where an entry of the table refers to.
def valueAt (f : CogIrFunction) (value : CogIrValue) : Option CogIrValueId :=
  match value.kind with
  | .functionParameter => f.parameters[value.ordinal]?
  | kind => (f.blocks.items[value.block]?).bind fun block => (block.introduces kind)[value.ordinal]?

structure Placed (f : CogIrFunction) : Prop where
  valueAt : ∀ id value, f.values.items[id]? = some value → f.valueAt value = some id
  bounded : f.values.items.length ≤ COG_IR_ID_INVALID

-- What the entries of a table refer to stays where it is.
def Keeps (f f' : CogIrFunction) : Prop :=
  ∀ value id, f.valueAt value = some id → f'.valueAt value = some id

section

variable {f f' : CogIrFunction} {b : CogIrBlockId} {block block' : CogIrBlock} {v : CogIrValue}

theorem Keeps.parameters (ids : List CogIrValueId) : Keeps f { f with parameters := f.parameters ++ ids } := by
  intro value id h
  unfold CogIrFunction.valueAt at h ⊢
  split at h
  case h_1 => exact (List.getElem?_append_left (List.getElem?_eq_some_iff.mp h).1).trans h
  case h_2 => exact h

theorem Keeps.setBlock (hb : f.getBlock b = some block)
    (hi : ∀ kind, block.introduces kind <+: block'.introduces kind) : Keeps f (f.setBlock b block') := by
  intro value id h
  unfold CogIrFunction.valueAt at h ⊢
  split at h
  case h_1 => exact h
  case h_2 kind _ =>
    have hb := getElem?_of_lookup hb
    have hl := (List.getElem?_eq_some_iff.mp hb).1
    simp only [CogIrFunction.setBlock, GrowArray.set_items, List.getElem?_set]
    split
    case isTrue he =>
      subst he
      obtain ⟨t, ht⟩ := hi value.kind
      rw [hb, Option.bind_some] at h
      rw [Option.bind_some, ← ht, List.getElem?_append_left (List.getElem?_eq_some_iff.mp h).1, h]
    case isFalse => exact h

theorem Keeps.addBlock : Keeps f { f with blocks := f.blocks.push block, entryBlock := b } := by
  intro value id h
  unfold CogIrFunction.valueAt at h ⊢
  split at h
  case h_1 => exact h
  case h_2 =>
    obtain ⟨block', hb, hv⟩ := Option.bind_eq_some_iff.mp h
    rw [GrowArray.push_items, List.getElem?_append_left (List.getElem?_eq_some_iff.mp hb).1, hb]
    exact hv

namespace Placed

theorem keep (h : f.Placed) (hk : Keeps f f') (hv : f'.values = f.values) : f'.Placed :=
  ⟨fun id value hi => hk value id (h.valueAt id value (hv ▸ hi)), hv ▸ h.bounded⟩

theorem push (h : f.Placed) (hk : Keeps f f') (hv : f'.values = f.values.push v)
    (hr : f.values.items.length < COG_IR_ID_INVALID) (ha : f'.valueAt v = some f.values.items.length) : f'.Placed := by
  refine ⟨fun id value hi => ?_, ?_⟩
  · rw [hv, GrowArray.push_items] at hi
    by_cases hl : id < f.values.items.length
    case pos => exact hk value id (h.valueAt id value (List.getElem?_append_left hl ▸ hi))
    case neg =>
      rw [List.getElem?_append_right (Nat.le_of_not_lt hl), List.getElem?_singleton] at hi
      split at hi
      case isTrue h0 =>
        have he : f.values.items.length = id := Nat.le_antisymm (Nat.le_of_not_lt hl) (Nat.sub_eq_zero_iff_le.mp h0)
        cases hi
        rw [ha, he]
      case isFalse => cases hi
  · rw [hv, GrowArray.push_items, List.length_append]
    exact hr

-- The spelling of the type is all that may change in an entry.
theorem modify (h : f.Placed) {written : CogIrValue → CogIrValue} {i : CogIrValueId}
    (hw : ∀ v, f.valueAt (written v) = f.valueAt v) :
    Placed { f with values := { f.values with items := f.values.items.modify i written } } := by
  refine ⟨fun id value hi => ?_, by simpa using h.bounded⟩
  rw [List.getElem?_modify] at hi
  obtain ⟨v, hv, rfl⟩ := Option.map_eq_some_iff.mp hi
  have ha : f.valueAt v = some id := h.valueAt id v hv
  split
  · exact (hw v).trans ha
  · exact ha

end Placed

-- A value that a block introduces behind the others of its kind.
theorem Placed.introduce (h : f.Placed) (v : CogIrValue) (block' : CogIrBlock)
    (hb : f.getBlock v.block = some block) (hn : v.kind ≠ .functionParameter)
    (ho : v.ordinal = (block.introduces v.kind).length) (hi : ∀ kind, block.introduces kind <+: block'.introduces kind)
    (ha : block'.introduces v.kind = block.introduces v.kind ++ [f.values.items.length])
    (hr : f.values.items.length < COG_IR_ID_INVALID) :
    Placed { f.setBlock v.block block' with values := f.values.push v } := by
  refine h.push (v := v) (fun value id hv => Keeps.setBlock hb hi value id hv) rfl hr ?_
  have hl := (List.getElem?_eq_some_iff.mp (getElem?_of_lookup hb)).1
  unfold CogIrFunction.valueAt
  split
  case h_1 hk => exact absurd hk hn
  case h_2 =>
    simp only [CogIrFunction.setBlock, GrowArray.set_items, List.getElem?_set_self hl, Option.bind_some, ha, ho]
    exact List.getElem?_concat_length

end

end CogIrFunction

namespace Module

variable {m m' : Module} {f f' : CogIrFunction} {id : CogIrFunctionId}

def Placed (m : Module) : Prop :=
  ∀ f ∈ m.functions.items, f.Placed

theorem Placed.of_functions (h : m.Placed) (hf : m'.functions = m.functions) : m'.Placed :=
  fun f hm => h f (hf ▸ hm)

theorem Placed.getFunction (h : m.Placed) (hf : m.getFunction id = some f) : f.Placed :=
  h f (List.mem_of_getElem? (getElem?_of_lookup hf))

theorem Placed.setFunction (h : m.Placed) (hf : f.Placed) : (m.setFunction id f).Placed := by
  intro f' hm
  rcases List.mem_or_eq_of_mem_set hm with hm | rfl
  · exact h f' hm
  · exact hf

theorem Placed.push (h : m.Placed) (hf : f.Placed) : Placed { m with functions := m.functions.push f } := by
  intro f' hm
  rcases List.mem_append.mp hm with hm | hm
  · exact h f' hm
  · exact List.mem_singleton.mp hm ▸ hf

-- What a step leaves behind if it ends.
theorem appendParameters_placed {types : List CogIrTypeId} {ordinal : Nat} (h : f.Placed)
    (ho : ordinal = f.parameters.length) : (m.appendParameters abi span ordinal types f).1.Placed := by
  induction types generalizing f ordinal
  case nil => exact h
  case cons type types ih =>
    rw [appendParameters, appendValue_eq]
    by_cases hr : m.ValueRefused f type
    case pos =>
      rw [if_pos hr]
      exact h
    case neg =>
      rw [if_neg hr]
      have hp : CogIrFunction.Placed
          { f with
            values     := f.values.push ⟨type, COG_IR_ID_INVALID, .functionParameter, COG_IR_ID_INVALID, ordinal, span⟩
            parameters := f.parameters ++ [f.values.items.length] } := by
        refine h.push (.parameters _) rfl (Nat.lt_of_not_le fun hl => hr (.inr hl)) ?_
        simp [CogIrFunction.valueAt, ho]
      exact ih (hp.modify fun _ => rfl) (by simp [ho])

theorem Placed.write (h : m.Placed) (hf : m.getFunction id = some f) (hk : f.Keeps f') (hv : f'.values = f.values) :
    (m.setFunction id f').Placed :=
  h.setFunction ((h.getFunction hf).keep hk hv)

theorem Placed.writeBlock (h : m.Placed) (hf : m.getFunction id = some f) (hb : f.getBlock b = some block)
    (hi : ∀ kind, block.introduces kind <+: block'.introduces kind) : (m.setFunction id (f.setBlock b block')).Placed :=
  h.write hf (.setBlock hb hi) rfl

section Calls

theorem addFunction_placed (h : m.Placed) :
    (m.addFunction debugName span type kind linkage generated abi).1.Placed := by
  have hf {f f' : CogIrFunction} {types : List CogIrTypeId} {result : Option Unit} (hv : f.values = .empty)
      (hp : f.parameters = []) (ha : m.appendParameters abi span 0 types f = (f', result)) : f'.Placed := by
    have he : f.Placed := ⟨fun id value hi => by simp [hv, GrowArray.empty] at hi, by simp [hv, GrowArray.empty]⟩
    have hp : (m.appendParameters abi span 0 types f).1.Placed := appendParameters_placed he (hp ▸ rfl)
    rwa [ha] at hp
  dsimp only [addFunction]
  repeat' split
  all_goals first
    | exact h
    | exact h.push (hf rfl rfl (by assumption))

theorem beginFunctionDefinition_placed (h : m.Placed) : (m.beginFunctionDefinition id).1.Placed := by
  unfold beginFunctionDefinition
  repeat' split
  all_goals try exact h
  rename_i hf _
  exact h.write hf (fun _ _ h => h) rfl

theorem addSlot_placed (h : m.Placed) : (m.addSlot id kind parameterIndex debugName span type).1.Placed := by
  unfold addSlot
  repeat' split
  all_goals try exact h
  rename_i hf _
  exact h.write hf (fun _ _ h => h) rfl

theorem setSlotAbiType_placed (h : m.Placed) : (m.setSlotAbiType id slot abiType).1.Placed := by
  unfold setSlotAbiType
  repeat' split
  all_goals try exact h
  rename_i hf _ _ _ _
  exact h.write hf (fun _ _ h => h) rfl

theorem setValueAbiType_placed (h : m.Placed) : (m.setValueAbiType id valueId abiType).1.Placed := by
  unfold setValueAbiType
  repeat' split
  all_goals try exact h
  rename_i f hf _ value hv _
  refine h.setFunction ⟨fun i entry hi => ?_, by simpa using (h.getFunction hf).bounded⟩
  rw [GrowArray.set_items, List.getElem?_set] at hi
  split at hi
  case isTrue he =>
    subst he
    split at hi
    case isTrue =>
      cases hi
      exact (h.getFunction hf).valueAt valueId value (getElem?_of_lookup hv)
    case isFalse => cases hi
  case isFalse => exact (h.getFunction hf).valueAt i entry hi

theorem markValueDiscarded_placed (h : m.Placed) : (m.markValueDiscarded id valueId).1.Placed := by
  unfold markValueDiscarded
  repeat' split
  all_goals try exact h
  rename_i f hf _ value hv _ _ block hb _ instruction hi _
  refine h.writeBlock hf hb fun kind => ?_
  cases kind
  case functionParameter => exact List.prefix_rfl
  case blockParameter => exact List.prefix_rfl
  case instruction =>
    have he : (block.instructions.items.set value.ordinal { instruction with resultIsDiscarded := true }).map
        (·.result) = block.instructions.items.map (·.result) := by
      obtain ⟨hl, rfl⟩ := List.getElem?_eq_some_iff.mp hi
      rw [List.map_set]
      have hl' : value.ordinal < (block.instructions.items.map (·.result)).length := by simpa using hl
      have hs := List.set_getElem_self hl'
      rwa [List.getElem_map] at hs
    exact ⟨[], (List.append_nil _).trans he.symm⟩

theorem addBlock_placed (h : m.Placed) : (m.addBlock id debugName span).1.Placed := by
  unfold addBlock
  repeat' split
  all_goals try exact h
  all_goals
    rename_i hf _ _
    exact h.write hf .addBlock rfl

theorem setTerminator_placed (h : m.Placed) : (m.setTerminator id b input).1.Placed := by
  unfold setTerminator
  repeat' split
  all_goals try exact h
  all_goals exact h.writeBlock (by assumption) (by assumption) fun kind => by cases kind <;> exact List.prefix_rfl

theorem addBlockParameter_placed (h : m.Placed) : (m.addBlockParameter id b type debugName span).1.Placed := by
  dsimp only [addBlockParameter]
  split
  case isTrue => exact h
  case isFalse =>
    split
    case h_1 => exact h
    case h_2 f hf =>
      split
      case h_1 => exact h
      case h_2 block hb =>
        rw [appendValue_eq]
        split_ifs with hr
        case pos => exact h.writeBlock hf hb fun kind => by cases kind <;> simp [CogIrBlock.introduces]
        case neg =>
          refine h.setFunction ?_
          have hp := (h.getFunction hf).introduce ⟨type, COG_IR_ID_INVALID, .blockParameter, b, _, span⟩
            { block with parameters := block.parameters.push ⟨f.values.items.length, type, debugName, span⟩ }
            hb nofun (by simp [CogIrBlock.introduces]; rfl)
            (fun kind => by cases kind <;> simp [CogIrBlock.introduces]) (by simp [CogIrBlock.introduces])
            (Nat.lt_of_not_le fun hl => hr (.inr hl))
          simpa [CogIrFunction.setBlock, GrowArray.set] using hp

theorem emit_placed (h : m.Placed) : (m.emit id b input).1.Placed := by
  dsimp only [emit]
  split
  case isTrue => exact h
  case isFalse =>
    split
    case h_1 => exact h
    case h_2 f hf =>
      split
      case h_1 => exact h
      case h_2 block hb =>
        have hs : (m.setFunction id (f.setBlock b { block with instructions := block.instructions.reserve })).Placed :=
          h.writeBlock hf hb fun kind => by cases kind <;> simp [CogIrBlock.introduces]
        rw [appendValue_eq]
        split_ifs with ht hn hy hr
        case pos => exact h
        case pos => exact h.writeBlock hf hb fun kind => by cases kind <;> simp [CogIrBlock.introduces]
        case pos => exact hs
        case pos => exact hs
        case neg =>
          refine h.setFunction ?_
          have hp := (h.getFunction hf).introduce
            ⟨input.resultType, COG_IR_ID_INVALID, .instruction, b, _, input.span⟩
            { block with instructions := block.instructions.push { input with result := f.values.items.length } }
            hb nofun (by simp [CogIrBlock.introduces]; rfl)
            (fun kind => by cases kind <;> simp [CogIrBlock.introduces]) (by simp [CogIrBlock.introduces])
            (Nat.lt_of_not_le fun hl => hr (.inr hl))
          simpa [CogIrFunction.setBlock, GrowArray.set] using hp

theorem intern_functions (r : Request) : (m.intern r).1.functions = m.functions := by
  cases r
  case type content =>
    change (m.internType content).1.functions = m.functions
    obtain h | ⟨_, h, _⟩ | ⟨_, h⟩ := internType_cases m content <;> rw [h] <;> rfl
  case abiType type =>
    change (m.internAbiType type).1.functions = m.functions
    obtain h | ⟨_, h, _⟩ | ⟨_, h⟩ := internAbiType_cases m type <;> rw [h] <;> rfl
  case constant constant =>
    change (m.internScalarConstant constant).1.functions = m.functions
    obtain h | ⟨_, h, _⟩ | ⟨_, h⟩ := internScalarConstant_cases m constant <;> rw [h] <;> rfl

theorem answer_functions (call : Call) : (m.answer (m.request call)).1.functions = m.functions := by
  cases m.request call
  case none => rfl
  case some r => exact intern_functions r

theorem interns_functions {call : Call} (hm : m.mutable) (hc : Interns call) :
    (m.step call).1.functions = m.functions := by
  rw [step_request hm hc]
  exact answer_functions call

theorem declareNominalType_functions : (m.declareNominalType kind debugName span).1.functions = m.functions := by
  unfold declareNominalType appendType
  repeat' split
  all_goals rfl

theorem markIncompleteAggregateType_functions : (m.markIncompleteAggregateType i).1.functions = m.functions := by
  unfold markIncompleteAggregateType
  repeat' split
  all_goals rfl

theorem defineAggregateType_functions :
    (m.defineAggregateType i fields isReprC isPacked alignment).1.functions = m.functions := by
  unfold defineAggregateType
  repeat' split
  all_goals rfl

theorem defineEnumType_functions :
    (m.defineEnumType i backing members isReprC backingAbi).1.functions = m.functions := by
  unfold defineEnumType
  repeat' split
  all_goals rfl

theorem constArray_functions : (m.constArray type elements).1.functions = m.functions := by
  unfold constArray addAggregateConstant appendConstant
  repeat' split
  all_goals rfl

theorem constStruct_functions : (m.constStruct type fields).1.functions = m.functions := by
  unfold constStruct addAggregateConstant appendConstant
  repeat' split
  all_goals rfl

theorem addGlobal_functions : (m.addGlobal global).1.functions = m.functions := by
  unfold addGlobal
  repeat' split
  all_goals rfl

theorem setEntryFunction_functions : (m.setEntryFunction id).1.functions = m.functions := by
  unfold setEntryFunction
  repeat' split
  all_goals rfl

theorem setInitFunction_functions : (m.setInitFunction id).1.functions = m.functions := by
  unfold setInitFunction
  repeat' split
  all_goals rfl

theorem step_placed (h : m.Placed) (call : Call) : (m.step call).1.Placed := by
  by_cases hm : m.mutable
  case neg =>
    rw [step_frozen call (by simpa using hm)]
    exact h
  case pos =>
    cases call
    case declareNominalType => exact h.of_functions declareNominalType_functions
    case markIncompleteAggregateType => exact h.of_functions markIncompleteAggregateType_functions
    case defineAggregateType => exact h.of_functions defineAggregateType_functions
    case defineEnumType => exact h.of_functions defineEnumType_functions
    case constArray => exact h.of_functions constArray_functions
    case constStruct => exact h.of_functions constStruct_functions
    case addGlobal => exact h.of_functions addGlobal_functions
    case addFunction => exact addFunction_placed h
    case beginFunctionDefinition => exact beginFunctionDefinition_placed h
    case setEntryFunction => exact h.of_functions setEntryFunction_functions
    case setInitFunction => exact h.of_functions setInitFunction_functions
    case addSlot => exact addSlot_placed h
    case setSlotAbiType => exact setSlotAbiType_placed h
    case setValueAbiType => exact setValueAbiType_placed h
    case markValueDiscarded => exact markValueDiscarded_placed h
    case addBlock => exact addBlock_placed h
    case addBlockParameter => exact addBlockParameter_placed h
    case emit => exact emit_placed h
    case setTerminator => exact setTerminator_placed h
    all_goals exact h.of_functions (interns_functions hm trivial)

-- In every build, the values of every function are where their entries say.
theorem Later.placed (l : Later m m') (h : m.Placed) : m'.Placed := by
  induction l with
  | refl => exact h
  | call call _ ih => exact step_placed ih call
  | freeze _ ih => exact ih

theorem initial_placed : initial.Placed :=
  fun _ h => nomatch h

end Calls

end Module

end Coglet.Ir.Builder
