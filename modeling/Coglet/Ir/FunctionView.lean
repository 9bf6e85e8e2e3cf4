import Coglet.Ir.VerifyRun

-- The functions that have been built, as the functions that the backends translate.

namespace Coglet.Ir.Builder

open Target (TargetInfo)

-- How the types, constants and operations of a module are read.
structure Reading where
  type      : CogIrTypeId → Ty
  constant  : CogIrConstId → Constant
  operation : CogIrInstruction → Operation
  operands  : ∀ i, (operation i).operands = i.payload.operands

def CogIrValue.view (r : Reading) (value : CogIrValue) : Value where
  kind :=
    match value.kind with
    | .functionParameter => .functionParameter value.ordinal
    | .blockParameter => .blockParameter value.block value.ordinal
    | .instruction => .instruction value.block value.ordinal
  type := r.type value.type

def CogIrBranchEdge.view (edge : CogIrBranchEdge) : BranchEdge where
  target    := edge.target
  arguments := edge.arguments

def CogIrInstruction.view (r : Reading) (i : CogIrInstruction) : Instruction where
  operation  := r.operation i
  resultType := if i.resultType = COG_IR_ID_INVALID then none else some (r.type i.resultType)
  result     := if i.resultType = COG_IR_ID_INVALID then none else some i.result

def CogIrTerminatorKind.view (r : Reading) : CogIrTerminatorKind → Option Terminator
  | none => .none
  | br edge => some (.br edge.view)
  | condBr condition ifTrue ifFalse => some (.condBr condition ifTrue.view ifFalse.view)
  | switch value cases defaultEdge =>
    some (.switch value (cases.toList.map fun case => (r.constant case.key, case.edge.view)) defaultEdge.view)
  | ret value => some (.ret value)
  | trap _ => some .trap
  | unreachable => some .unreachable

def CogIrBlockParam.view (r : Reading) (p : CogIrBlockParam) : BlockParam where
  value := p.value
  type  := r.type p.type

def CogIrBlock.view (r : Reading) (block : CogIrBlock) : Block where
  parameters   := block.parameters.items.map (·.view r)
  instructions := block.instructions.items.map (·.view r)
  terminator   := block.terminator.kind.view r

def CogIrFunction.view (r : Reading) (f : CogIrFunction) : Function where
  parameters := f.parameters
  values     := f.values.items.map (·.view r)
  blocks     := f.blocks.items.map (·.view r)
  entry      := f.entryBlock
  discarded  := f.blocks.items.flatMap fun block =>
    (block.instructions.items.filter (·.resultIsDiscarded)).map (·.result)

section

variable {target : TargetInfo} {fileLength : Nat → Option Nat} {m : Module} {f : CogIrFunction} {r : Reading}
  {resultType : CogIrTypeId} {parameterTypes : List CogIrTypeId} {b : CogIrBlockId} {block : CogIrBlock}
  {edge : CogIrBranchEdge} {value : CogIrValue} {i : CogIrInstruction} {k id type : Nat}

theorem values_view (h : f.getValue id = some value) : (f.view r).values[id]? = some (value.view r) := by
  rw [CogIrFunction.view, List.getElem?_map, getElem?_of_lookup h]
  rfl

theorem blocks_view (h : f.blocks.items[b]? = some block) : (f.view r).blocks[b]? = some (block.view r) := by
  rw [CogIrFunction.view, List.getElem?_map, h]
  rfl

theorem edges_view {kind : CogIrTerminatorKind} {terminator : Terminator} (h : kind.view r = some terminator) :
    terminator.edges = kind.edges.map (·.view) ∧ terminator.operands = kind.operands := by
  cases kind <;> cases h <;> simp [Terminator.edges, Terminator.operands, CogIrTerminatorKind.edges,
    CogIrTerminatorKind.operands]

variable (hb : m.verifyBody target fileLength f resultType parameterTypes)
include hb

-- A discarded result is discarded where it is introduced.
theorem mem_discarded (hv : f.getValue id = some value) (hd : id ∈ (f.view r).discarded) :
    ∃ block i, f.blocks.items[value.block]? = some block ∧ block.instructions.items[value.ordinal]? = some i ∧
      i.resultIsDiscarded := by
  obtain ⟨block, hm, hd⟩ := List.mem_flatMap.mp hd
  obtain ⟨i, hi, rfl⟩ := List.mem_map.mp hd
  obtain ⟨hi, hd⟩ := List.mem_filter.mp hi
  obtain ⟨b, hm⟩ := List.getElem?_of_mem hm
  obtain ⟨k, hi⟩ := List.getElem?_of_mem hi
  have hr := (instruction_of_verifyBody hb hm hi).1
  unfold CogIrFunction.verifyResult at hr
  split at hr
  case isTrue => simp [hd] at hr
  case isFalse =>
    simp only [hv, Option.any_some, Bool.and_eq_true, decide_eq_true_eq] at hr
    obtain ⟨⟨_, rfl⟩, rfl⟩ := hr
    exact ⟨block, i, hm, hi, hd⟩

theorem valueAvailable_view (h : f.valueAvailable b k id) : (f.view r).valueAvailable b k id := by
  unfold CogIrFunction.valueAvailable at h
  unfold Function.valueAvailable
  cases hv : f.getValue id
  case none => simp [hv] at h
  case some value =>
    simp only [hv] at h
    simp only [values_view hv]
    cases hk : value.kind
    case functionParameter => simp [CogIrValue.view, hk]
    case blockParameter => simpa [CogIrValue.view, hk] using h
    case instruction =>
      simp only [hk, Bool.and_eq_true, decide_eq_true_eq, Option.any_eq_true] at h
      obtain ⟨⟨rfl, ho⟩, i, hi, hn⟩ := h
      obtain ⟨block, hg, hi⟩ := Option.bind_eq_some_iff.mp hi
      have hd : id ∉ (f.view r).discarded := by
        intro hd
        obtain ⟨block', i', hg', hi', hd⟩ := mem_discarded hb hv hd
        obtain rfl := Option.some.inj (hg.symm.trans hg')
        obtain rfl := Option.some.inj (hi.symm.trans hi')
        simp [hd] at hn
      have hl := (List.getElem?_eq_some_iff.mp hi).1
      simp [CogIrValue.view, hk, ho, blocks_view hg, CogIrBlock.view, hl, hd]

theorem verifyEdge_view (hg : f.blocks.items[b]? = some block) (h : f.verifyEdge b edge) :
    (f.view r).verifyEdge b edge.view := by
  simp only [CogIrFunction.verifyEdge, Option.any_eq_true, Bool.and_eq_true, decide_eq_true_eq,
    List.all_eq_true] at h
  obtain ⟨destination, ht, hl, ha⟩ := h
  simp only [Function.verifyEdge, CogIrBranchEdge.view, blocks_view (getElem?_of_lookup ht), CogIrBlock.view,
    Bool.and_eq_true, decide_eq_true_eq, List.length_map, List.all_eq_true]
  refine ⟨hl, fun pair hm => ?_⟩
  rw [List.zip_map_right] at hm
  obtain ⟨pair, hp, rfl⟩ := List.mem_map.mp hm
  obtain ⟨hav, hty⟩ := ha pair hp
  obtain ⟨value, hv, ht⟩ := valueHasType_iff.mp hty
  refine ⟨?_, ?_⟩
  · have hav := valueAvailable_view (r := r) hb (available_at_end hg hav)
    simpa [Function.terminatorValueAvailable, blocks_view hg, CogIrBlock.view] using hav
  · simp [Function.valueHasType, values_view hv, CogIrValue.view, CogIrBlockParam.view, ht]

theorem verifyBlock_view (hg : f.blocks.items[b]? = some block) : (f.view r).verifyBlock b (block.view r) := by
  simp only [Function.verifyBlock, Bool.and_eq_true, List.all_eq_true]
  refine ⟨⟨fun pair hm => ?_, fun pair hm => ?_⟩, ?_⟩
  · obtain ⟨p, hp, he⟩ := Option.map_eq_some_iff.mp
      ((List.getElem?_map ..).symm.trans (List.mk_mem_zipIdx_iff_getElem?.mp hm))
    obtain ⟨value, hv, hk, hvb, ho, ht⟩ := blockParameter_of_verifyBody hb hg hp
    simp [Function.verifyParameter, ← he, CogIrBlockParam.view, values_view hv, CogIrValue.view, hk, hvb, ho, ht]
  · obtain ⟨i, hi, he⟩ := Option.map_eq_some_iff.mp
      ((List.getElem?_map ..).symm.trans (List.mk_mem_zipIdx_iff_getElem?.mp hm))
    obtain ⟨hr, ha, _⟩ := instruction_of_verifyBody hb hg hi
    refine ⟨?_, fun id hid => ?_⟩
    · rw [← he]
      unfold CogIrFunction.verifyResult at hr
      split at hr
      case isTrue hn => simp [Function.verifyResult, CogIrInstruction.view, hn]
      case isFalse hn =>
        simp only [Option.any_eq_true, Bool.and_eq_true, decide_eq_true_eq] at hr
        obtain ⟨value, hv, ⟨⟨ht, hk⟩, hvb⟩, ho⟩ := hr
        simp [Function.verifyResult, CogIrInstruction.view, hn, values_view hv, CogIrValue.view, hk, hvb, ho, ht]
    · rw [← he, CogIrInstruction.view, r.operands] at hid
      exact valueAvailable_view hb (ha id hid)
  · have hn := isNone_of_verifyBody hb hg
    have he {terminator : Terminator} (ht : block.terminator.kind.view r = some terminator) :
        (f.view r).verifyTerminator b terminator := by
      simp only [Function.verifyTerminator, edges_view ht, Bool.and_eq_true, List.all_eq_true]
      refine ⟨fun id hid => ?_, fun edge hm => ?_⟩
      · have hav := valueAvailable_view (r := r) hb (available_at_end hg (operand_of_verifyBody hb hg hid))
        simpa [Function.terminatorValueAvailable, blocks_view hg, CogIrBlock.view] using hav
      · obtain ⟨edge, he, rfl⟩ := List.mem_map.mp hm
        exact verifyEdge_view hb hg (edge_of_verifyBody hb hg he)
    simp only [CogIrBlock.view]
    cases hk : block.terminator.kind
    case none => simp [CogIrTerminator.isNone, hk] at hn
    all_goals exact he (by rw [hk]; rfl)

theorem verify_view_of_verifyBody : (f.view r).verify := by
  simp only [Function.verify, Bool.and_eq_true, List.all_eq_true]
  refine ⟨?_, fun pair hm => ?_⟩
  · obtain ⟨block, hg⟩ := entry_of_verifyBody hb
    rw [show (f.view r).entry = f.entryBlock from rfl, blocks_view (getElem?_of_lookup hg)]
    rfl
  · obtain ⟨block, hg, he⟩ := Option.map_eq_some_iff.mp
      ((List.getElem?_map ..).symm.trans (List.mk_mem_zipIdx_iff_getElem?.mp hm))
    exact he ▸ verifyBlock_view hb hg

-- What the verification of a module accepts satisfies what the translations of branches rely on.
omit hb in
theorem verify_view (hv : m.verify target fileLength) (hf : f ∈ m.functions.items) (hk : f.kind = .definition) :
    (f.view r).verify := by
  simp only [Module.verify, Bool.and_eq_true, List.all_eq_true] at hv
  have hv := hv.1.1.2 f hf
  unfold Module.verifyFunction at hv
  split at hv
  case h_1 => exact verify_view_of_verifyBody (by simpa [hk] using (Bool.and_eq_true_iff.mp hv).2)
  case h_2 => cases hv

end

end Coglet.Ir.Builder
