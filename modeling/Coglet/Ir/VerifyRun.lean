import Coglet.Ir.Function
import Coglet.Ir.ValuePlaces
import Coglet.Ir.Verify

-- What the runs of a verified function read.

namespace Coglet.Ir.Builder

open Target (TargetInfo)

def CogIrTerminatorKind.edges : CogIrTerminatorKind → List CogIrBranchEdge
  | br edge => [edge]
  | condBr _ ifTrue ifFalse => [ifTrue, ifFalse]
  | switch _ cases defaultEdge => cases.toList.map (·.edge) ++ [defaultEdge]
  | none | ret _ | trap _ | unreachable => []

def CogIrTerminatorKind.operands : CogIrTerminatorKind → List CogIrValueId
  | condBr condition _ _ => [condition]
  | switch value _ _ => [value]
  | ret value => value.toList
  | none | br _ | trap _ | unreachable => []

-- Where a run stands, and the values that it has.
structure RunState (V : Type) where
  block   : CogIrBlockId
  ordinal : Nat
  env     : CogIrValueId → Option V

namespace CogIrFunction

variable {V : Type} (f : CogIrFunction) (typeOf : V → CogIrTypeId)

-- All that a block is entered with are the parameters of the function and its own.
def enter (target : CogIrBlock) (arguments : List CogIrValueId) (env : CogIrValueId → Option V) (id : CogIrValueId) :
    Option V :=
  match ((target.parameters.items.map (·.value)).zip arguments).lookup id with
  | some argument => env argument
  | none => if id ∈ f.parameters then env id else none

-- An instruction yields any value of its result type, and any edge of a terminator may be taken.
inductive Step (s : RunState V) : RunState V → Prop
  | effect {block : CogIrBlock} {i : CogIrInstruction} (hb : f.getBlock s.block = some block)
      (hi : block.instructions.items[s.ordinal]? = some i) (hr : i.resultType = COG_IR_ID_INVALID) :
    Step s { s with ordinal := s.ordinal + 1 }
  | result {block : CogIrBlock} {i : CogIrInstruction} {v : V} (hb : f.getBlock s.block = some block)
      (hi : block.instructions.items[s.ordinal]? = some i) (hr : i.resultType ≠ COG_IR_ID_INVALID)
      (hv : typeOf v = i.resultType) :
    Step s { s with ordinal := s.ordinal + 1, env := Function.update s.env i.result (some v) }
  | jump {block target : CogIrBlock} {edge : CogIrBranchEdge} (hb : f.getBlock s.block = some block)
      (ho : s.ordinal = block.instructions.items.length) (he : edge ∈ block.terminator.kind.edges)
      (ht : f.getBlock edge.target = some target) :
    Step s ⟨edge.target, 0, f.enter target edge.arguments s.env⟩

-- A call passes values for the parameters. The verification accepts parameters of the entry block: they are given too.
structure Start (parameterTypes : List CogIrTypeId) (s : RunState V) : Prop where
  block      : s.block = f.entryBlock
  ordinal    : s.ordinal = 0
  parameters : ∀ k id : Nat, f.parameters[k]? = some id →
    ∃ v, s.env id = some v ∧ parameterTypes[k]? = some (typeOf v)
  entry      : ∀ block p, f.getBlock s.block = some block → p ∈ block.parameters.items →
    ∃ v, s.env p.value = some v ∧ typeOf v = p.type

-- The value is there and has the type that the table says.
def Readable (s : RunState V) (id : CogIrValueId) : Prop :=
  ∃ v, s.env id = some v ∧ f.valueHasType (typeOf v) id

-- What an instruction does with its operands fits the types that they have.
structure Typed (m : Module) (s : RunState V) (i : CogIrInstruction) : Prop where
  load  : ∀ address isVolatile, i.payload = .load address isVolatile →
    ∃ v pointer, s.env address = some v ∧ m.pointerPointee (typeOf v) = some pointer ∧
      pointer.pointee = i.resultType ∧ (pointer.isVolatile → isVolatile)
  store : ∀ address value isVolatile, i.payload = .store address value isVolatile →
    ∃ v w pointer, s.env address = some v ∧ s.env value = some w ∧ m.pointerPointee (typeOf v) = some pointer ∧
      pointer.isReadonly = false ∧ pointer.pointee = typeOf w ∧ (pointer.isVolatile → isVolatile)
  call  : ∀ callee arguments, i.payload = .call callee arguments →
    ∃ v result parameterTypes abi convention variadic, s.env callee = some v ∧
      m.getType (typeOf v) = some (.function result parameterTypes abi convention variadic) ∧
      (∀ k type : Nat, parameterTypes[k]? = some type →
        ∃ argument w, arguments[k]? = some argument ∧ s.env argument = some w ∧ typeOf w = type) ∧
      i.resultType = if m.getType result = some .void then COG_IR_ID_INVALID else result

-- What is read next is there and has the type that is expected.
structure Safe (m : Module) (resultType : CogIrTypeId) (s : RunState V) (block : CogIrBlock) : Prop where
  inside   : s.ordinal ≤ block.instructions.items.length
  operands : ∀ i, block.instructions.items[s.ordinal]? = some i → ∀ id ∈ i.payload.operands, f.Readable typeOf s id
  typed    : ∀ i, block.instructions.items[s.ordinal]? = some i → Typed typeOf m s i
  ends     : block.terminator.isNone = false
  decides  : s.ordinal = block.instructions.items.length →
    ∀ id ∈ block.terminator.kind.operands, f.Readable typeOf s id
  branches : s.ordinal = block.instructions.items.length → ∀ edge ∈ block.terminator.kind.edges,
    ∃ target, f.getBlock edge.target = some target ∧
      List.Forall₂ (fun argument p => ∃ v, s.env argument = some v ∧ typeOf v = p.type) edge.arguments
        target.parameters.items
  returns  : s.ordinal = block.instructions.items.length → ∀ value, block.terminator.kind = .ret value →
    if m.getType resultType = some .void then value = none
    else ∃ id v, value = some id ∧ s.env id = some v ∧ typeOf v = resultType

-- Every value that is available is there.
def Filled (s : RunState V) : Prop :=
  ∀ id, f.valueAvailable s.block s.ordinal id → f.Readable typeOf s id

end CogIrFunction

section Verified

variable {V : Type} {target : TargetInfo} {fileLength : Nat → Option Nat} {m : Module} {f : CogIrFunction}
  {typeOf : V → CogIrTypeId} {resultType : CogIrTypeId} {parameterTypes : List CogIrTypeId} {b : CogIrBlockId}
  {block : CogIrBlock} {i : CogIrInstruction} {p : CogIrBlockParam} {value : CogIrValue} {k id type : Nat}

theorem getBlock_eq (h : f.getBlock b = some block) {block' : CogIrBlock} (h' : f.blocks.items[b]? = some block') :
    block' = block :=
  Option.some.inj (h'.symm.trans (getElem?_of_lookup h))

theorem valueHasType_iff : f.valueHasType type id ↔ ∃ value, f.getValue id = some value ∧ value.type = type := by
  simp [CogIrFunction.valueHasType, Option.any_eq_true]

theorem valueHasType_unique {type' : Nat} (h : f.valueHasType type id) (h' : f.valueHasType type' id) :
    type = type' := by
  obtain ⟨value, hv, rfl⟩ := valueHasType_iff.mp h
  obtain ⟨value', hv', rfl⟩ := valueHasType_iff.mp h'
  rw [Option.some.inj (hv.symm.trans hv')]

section Rules

variable (hb : m.verifyBody target fileLength f resultType parameterTypes)
include hb

theorem entry_of_verifyBody : ∃ block, f.getBlock f.entryBlock = some block := by
  simp only [Module.verifyBody, Bool.and_eq_true] at hb
  exact Option.isSome_iff_exists.mp hb.1.1.1

theorem parameter_of_verifyBody (hp : f.parameters[k]? = some id) :
    ∃ value, f.getValue id = some value ∧ value.kind = .functionParameter ∧ parameterTypes[k]? = some value.type := by
  simp only [Module.verifyBody, Bool.and_eq_true, List.all_eq_true] at hb
  have hv := hb.1.1.2 (id, k) (List.mk_mem_zipIdx_iff_getElem?.mpr hp)
  simp only [Module.verifyParameter, Option.any_eq_true, Bool.and_eq_true, decide_eq_true_eq] at hv
  obtain ⟨value, hv, ⟨hk, _⟩, ht⟩ := hv
  exact ⟨value, hv, hk, ht⟩

theorem verifyBlock_of_verifyBody (hg : f.blocks.items[b]? = some block) :
    m.verifyBlock target fileLength f resultType b block := by
  simp only [Module.verifyBody, Bool.and_eq_true, List.all_eq_true] at hb
  exact hb.2 (block, b) (List.mk_mem_zipIdx_iff_getElem?.mpr hg)

theorem blockParameter_of_verifyBody (hg : f.blocks.items[b]? = some block) (hp : block.parameters.items[k]? = some p) :
    ∃ value, f.getValue p.value = some value ∧ value.kind = .blockParameter ∧ value.block = b ∧ value.ordinal = k ∧
      value.type = p.type := by
  have hv := verifyBlock_of_verifyBody hb hg
  simp only [Module.verifyBlock, Bool.and_eq_true, List.all_eq_true] at hv
  have hv := hv.1.1.2 (p, k) (List.mk_mem_zipIdx_iff_getElem?.mpr hp)
  simp only [Module.verifyBlockParameter, Option.any_eq_true, Bool.and_eq_true, decide_eq_true_eq] at hv
  obtain ⟨⟨value, hv, ⟨⟨hk, hb⟩, ho⟩, ht⟩, _⟩ := hv
  exact ⟨value, hv, hk, hb, ho, ht⟩

theorem instruction_of_verifyBody (hg : f.blocks.items[b]? = some block) (hi : block.instructions.items[k]? = some i) :
    f.verifyResult b k i ∧ (∀ id ∈ i.payload.operands, f.valueAvailable b k id) ∧ m.verifyOperation target f i := by
  have hv := verifyBlock_of_verifyBody hb hg
  simp only [Module.verifyBlock, Bool.and_eq_true, List.all_eq_true] at hv
  have hv := hv.1.2 (i, k) (List.mk_mem_zipIdx_iff_getElem?.mpr hi)
  simp only [Module.verifyInstruction, Bool.and_eq_true, List.all_eq_true] at hv
  exact ⟨hv.1.1.2, hv.1.2, hv.2⟩

theorem terminator_of_verifyBody (hg : f.blocks.items[b]? = some block) :
    m.verifyTerminator fileLength f resultType b block.terminator := by
  have hv := verifyBlock_of_verifyBody hb hg
  simp only [Module.verifyBlock, Bool.and_eq_true] at hv
  exact hv.2

theorem parameters_nodup (hg : f.blocks.items[b]? = some block) : (block.parameters.items.map (·.value)).Nodup := by
  rw [List.nodup_iff_injective_get]
  intro i j hij
  obtain ⟨v, hv, _, _, ho, _⟩ := blockParameter_of_verifyBody hb hg
    (List.getElem?_eq_getElem (by simpa using i.isLt))
  obtain ⟨v', hv', _, _, ho', _⟩ := blockParameter_of_verifyBody hb hg
    (List.getElem?_eq_getElem (by simpa using j.isLt))
  simp only [List.get_eq_getElem, List.getElem_map] at hij
  rw [hij, hv', Option.some.injEq] at hv
  exact Fin.ext (ho.symm.trans (hv ▸ ho'))

theorem edge_of_verifyBody (hg : f.blocks.items[b]? = some block) {edge : CogIrBranchEdge}
    (he : edge ∈ block.terminator.kind.edges) : f.verifyEdge b edge := by
  have hv := terminator_of_verifyBody hb hg
  simp only [Module.verifyTerminator, Bool.and_eq_true] at hv
  obtain ⟨_, hv⟩ := hv
  generalize block.terminator.kind = kind at hv he
  cases kind
  case none | ret | trap | unreachable => cases he
  case br => exact List.mem_singleton.mp he ▸ hv
  case condBr =>
    simp only [Bool.and_eq_true] at hv
    rcases List.mem_pair.mp he with rfl | rfl
    · exact hv.1.2
    · exact hv.2
  case switch =>
    simp only [Module.verifySwitchCases, Bool.and_eq_true, List.all_eq_true] at hv
    rcases List.mem_append.mp he with he | he
    · obtain ⟨case, hc, rfl⟩ := List.mem_map.mp he
      exact (hv.1.2.2 case hc).2
    · exact List.mem_singleton.mp he ▸ hv.2

theorem operand_of_verifyBody (hg : f.blocks.items[b]? = some block) (ho : id ∈ block.terminator.kind.operands) :
    f.terminatorValueAvailable b id := by
  have hv := terminator_of_verifyBody hb hg
  simp only [Module.verifyTerminator, Bool.and_eq_true] at hv
  obtain ⟨_, hv⟩ := hv
  generalize block.terminator.kind = kind at hv ho
  cases kind
  case none | br | trap | unreachable => cases ho
  case condBr | switch =>
    simp only [Bool.and_eq_true] at hv
    exact List.mem_singleton.mp ho ▸ hv.1.1.1
  case ret =>
    obtain rfl := Option.mem_toList.mp ho
    simp only [Module.verifyReturn] at hv
    split at hv
    case h_1 => cases hv
    case h_2 => cases hv
    case h_3 =>
      simp only [Option.any_some, Bool.and_eq_true] at hv
      exact hv.1

theorem isNone_of_verifyBody (hg : f.blocks.items[b]? = some block) : block.terminator.isNone = false := by
  have hv := terminator_of_verifyBody hb hg
  simp only [Module.verifyTerminator, Bool.and_eq_true] at hv
  unfold CogIrTerminator.isNone
  split
  case h_1 hk =>
    rw [hk] at hv
    cases hv.2
  case h_2 => rfl

end Rules

section Availability

variable {s s' : RunState V} {edge : CogIrBranchEdge}

-- The end of a block is behind all of its instructions.
theorem available_at_end (hg : f.blocks.items[b]? = some block) (h : f.terminatorValueAvailable b id) :
    f.valueAvailable b block.instructions.items.length id := by
  unfold CogIrFunction.terminatorValueAvailable CogIrFunction.valueAvailable at h
  unfold CogIrFunction.valueAvailable
  cases hv : f.getValue id
  case none => simp [hv] at h
  case some value =>
    simp only [hv] at h ⊢
    cases hk : value.kind
    case functionParameter => rfl
    case blockParameter => simpa [hk] using h
    case instruction =>
      simp only [hk, Bool.and_eq_true, decide_eq_true_eq] at h ⊢
      obtain ⟨⟨rfl, _⟩, hd⟩ := h
      refine ⟨⟨rfl, ?_⟩, hd⟩
      obtain ⟨i, hi, _⟩ := (Option.any_eq_true _ _).mp hd
      obtain ⟨block', hb, hi⟩ := Option.bind_eq_some_iff.mp hi
      rw [Option.some.inj (hb.symm.trans hg)] at hi
      exact (List.getElem?_eq_some_iff.mp hi).1

-- What an instruction makes available is its result.
theorem available_succ (h : f.valueAvailable b (k + 1) id) :
    f.valueAvailable b k id ∨
      ∃ value, f.getValue id = some value ∧ value.kind = .instruction ∧ value.block = b ∧ value.ordinal = k := by
  unfold CogIrFunction.valueAvailable at h ⊢
  cases hv : f.getValue id
  case none => simp [hv] at h
  case some value =>
    simp only [hv] at h ⊢
    cases hk : value.kind
    case functionParameter => exact .inl rfl
    case blockParameter => exact .inl (by simpa [hk] using h)
    case instruction =>
      simp only [hk, Bool.and_eq_true, decide_eq_true_eq] at h ⊢
      obtain ⟨⟨hb, ho⟩, hd⟩ := h
      by_cases he : value.ordinal = k
      case pos => exact .inr ⟨value, rfl, hk, hb, he⟩
      case neg => exact .inl ⟨⟨hb, Nat.lt_of_le_of_ne (Nat.le_of_lt_succ ho) he⟩, hd⟩

-- The table leads from a value back to where it is introduced.
theorem introduced (hp : f.Placed) (hv : f.getValue id = some value) (hk : value.kind ≠ .functionParameter)
    (hg : f.getBlock value.block = some block) : (block.introduces value.kind)[value.ordinal]? = some id := by
  have ha := hp.valueAt id value (getElem?_of_lookup hv)
  unfold CogIrFunction.valueAt at ha
  split at ha
  case h_1 h => exact absurd h hk
  case h_2 =>
    obtain ⟨block', hb, hi⟩ := Option.bind_eq_some_iff.mp ha
    rwa [getBlock_eq hg hb] at hi

theorem mem_parameters (hp : f.Placed) (hv : f.getValue id = some value) (hk : value.kind = .functionParameter) :
    f.parameters[value.ordinal]? = some id := by
  have ha := hp.valueAt id value (getElem?_of_lookup hv)
  simpa only [CogIrFunction.valueAt, hk] using ha

end Availability

section Runs

variable {s s' : RunState V} {edge : CogIrBranchEdge} {target' : CogIrBlock} {arguments : List CogIrValueId}
  {env : CogIrValueId → Option V} {argument : CogIrValueId}

theorem enter_blockParameter (hn : (block.parameters.items.map (·.value)).Nodup)
    (hp : block.parameters.items[k]? = some p) (ha : arguments[k]? = some argument) :
    f.enter block arguments env p.value = env argument := by
  rw [CogIrFunction.enter, Function.lookup_zip hn (by rw [List.getElem?_map, hp]; rfl) ha]

theorem enter_parameter (hi : id ∈ f.parameters) (hn : ∀ p ∈ block.parameters.items, p.value ≠ id) :
    f.enter block arguments env id = env id := by
  have hl : ((block.parameters.items.map (·.value)).zip arguments).lookup id = none := by
    refine List.lookup_eq_none_iff.mpr fun pair hm => ?_
    obtain ⟨p, hp, he⟩ := List.mem_map.mp (List.of_mem_zip hm).1
    exact bne_iff_ne.mpr (he ▸ (hn p hp).symm)
  rw [CogIrFunction.enter, hl]
  exact if_pos hi

-- The parameters are there from the start.
theorem filled_start (hp : f.Placed) (hb : m.verifyBody target fileLength f resultType parameterTypes)
    (hs : f.Start typeOf parameterTypes s) : f.Filled typeOf s := by
  intro id ha
  obtain ⟨block, hg⟩ := entry_of_verifyBody hb
  rw [← hs.block] at hg
  unfold CogIrFunction.valueAvailable at ha
  cases hv : f.getValue id
  case none => simp [hv] at ha
  case some value =>
    simp only [hv] at ha
    cases hk : value.kind
    case functionParameter =>
      have hi := mem_parameters hp hv hk
      obtain ⟨v, he, ht⟩ := hs.parameters _ _ hi
      obtain ⟨value', hw, _, ht'⟩ := parameter_of_verifyBody hb hi
      exact ⟨v, he, valueHasType_iff.mpr ⟨value', hw, Option.some.inj (ht'.symm.trans ht)⟩⟩
    case blockParameter =>
      simp only [hk, decide_eq_true_eq] at ha
      have hi := introduced hp hv (by simp [hk]) (ha ▸ hg)
      simp only [hk, CogIrBlock.introduces, List.getElem?_map] at hi
      obtain ⟨p, hi', rfl⟩ := Option.map_eq_some_iff.mp hi
      obtain ⟨v, he, ht⟩ := hs.entry block p hg (List.mem_of_getElem? hi')
      obtain ⟨value', hw, _, _, _, ht'⟩ := blockParameter_of_verifyBody hb (getElem?_of_lookup hg) hi'
      exact ⟨v, he, valueHasType_iff.mpr ⟨value', hw, ht'.trans ht.symm⟩⟩
    case instruction => simp [hk, hs.ordinal] at ha

theorem result_of_available (hp : f.Placed) (hg : f.getBlock s.block = some block)
    (hi : block.instructions.items[s.ordinal]? = some i) (ha : f.valueAvailable s.block (s.ordinal + 1) id) :
    f.valueAvailable s.block s.ordinal id ∨ i.result = id := by
  rcases available_succ ha with ha | ⟨value, hv, hk, hvb, ho⟩
  · exact .inl ha
  · have hn := introduced hp hv (by simp [hk]) (hvb ▸ hg)
    simp only [hk, CogIrBlock.introduces, List.getElem?_map, ho, hi, Option.map_some, Option.some.injEq] at hn
    exact .inr hn

-- The arguments of an edge are there and have the types of the parameters of its target.
theorem arguments_of_filled (hb : m.verifyBody target fileLength f resultType parameterTypes)
    (h : f.Filled typeOf s) (hg : f.getBlock s.block = some block)
    (ho : s.ordinal = block.instructions.items.length) (he : edge ∈ block.terminator.kind.edges) :
    ∃ target, f.getBlock edge.target = some target ∧
      List.Forall₂ (fun argument p => ∃ v, s.env argument = some v ∧ typeOf v = p.type) edge.arguments
        target.parameters.items := by
  have hv := edge_of_verifyBody hb (getElem?_of_lookup hg) he
  simp only [CogIrFunction.verifyEdge, Option.any_eq_true, Bool.and_eq_true, decide_eq_true_eq,
    List.all_eq_true] at hv
  obtain ⟨target, ht, hl, ha⟩ := hv
  refine ⟨target, ht, List.forall₂_iff_zip.mpr ⟨hl, fun hm => ?_⟩⟩
  obtain ⟨hav, hty⟩ := ha _ hm
  obtain ⟨v, he, hty'⟩ := h _ (ho ▸ available_at_end (getElem?_of_lookup hg) hav)
  exact ⟨v, he, valueHasType_unique hty' hty⟩

-- Each step fills what it makes available.
theorem filled_step (hp : f.Placed) (hb : m.verifyBody target fileLength f resultType parameterTypes)
    (h : f.Filled typeOf s) (hs : f.Step typeOf s s') : f.Filled typeOf s' := by
  intro id ha
  cases hs
  case effect block i hg hi hr =>
    rcases result_of_available hp hg hi ha with ha | rfl
    · exact h id ha
    · have hv := (instruction_of_verifyBody hb (getElem?_of_lookup hg) hi).1
      simp only [CogIrFunction.verifyResult, hr, if_true, Bool.and_eq_true, decide_eq_true_eq] at hv
      simp [CogIrFunction.valueAvailable, CogIrFunction.getValue, lookup, hv.1] at ha
  case result block i v hg hi hr hv =>
    by_cases he : id = i.result
    case pos =>
      subst he
      have hw := (instruction_of_verifyBody hb (getElem?_of_lookup hg) hi).1
      simp only [CogIrFunction.verifyResult, hr, if_false, Option.any_eq_true, Bool.and_eq_true,
        decide_eq_true_eq] at hw
      obtain ⟨value, hw, ⟨⟨ht, _⟩, _⟩, _⟩ := hw
      exact ⟨v, Function.update_self .., valueHasType_iff.mpr ⟨value, hw, ht.trans hv.symm⟩⟩
    case neg =>
      rcases result_of_available hp hg hi ha with ha | hr
      · obtain ⟨v', hv', ht⟩ := h id ha
        exact ⟨v', (Function.update_of_ne he ..).trans hv', ht⟩
      · exact absurd hr.symm he
  case jump block target edge hg ho he ht =>
    obtain ⟨target', ht', harg⟩ := arguments_of_filled hb h hg ho he
    obtain rfl := Option.some.inj (ht.symm.trans ht')
    cases hv : f.getValue id
    case none => simp [CogIrFunction.valueAvailable, hv] at ha
    case some value =>
      cases hk : value.kind
      case functionParameter =>
        have hn : ∀ p ∈ target.parameters.items, p.value ≠ id := by
          rintro p hm rfl
          obtain ⟨k, hm⟩ := List.getElem?_of_mem hm
          obtain ⟨value', hw, hk', _⟩ := blockParameter_of_verifyBody hb (getElem?_of_lookup ht) hm
          rw [hv, Option.some.injEq] at hw
          rw [hw, hk'] at hk
          cases hk
        obtain ⟨v, hv', hty⟩ := h id (by simp [CogIrFunction.valueAvailable, hv, hk])
        exact ⟨v, (enter_parameter (List.mem_of_getElem? (mem_parameters hp hv hk)) hn).trans hv', hty⟩
      case blockParameter =>
        simp only [CogIrFunction.valueAvailable, hv, hk, decide_eq_true_eq] at ha
        have hi := introduced hp hv (by simp [hk]) (ha ▸ ht)
        simp only [hk, CogIrBlock.introduces, List.getElem?_map] at hi
        obtain ⟨p, hi', rfl⟩ := Option.map_eq_some_iff.mp hi
        obtain ⟨argument, hj⟩ : ∃ argument, edge.arguments[value.ordinal]? = some argument :=
          ⟨_, List.getElem?_eq_getElem (harg.length_eq ▸ (List.getElem?_eq_some_iff.mp hi').1)⟩
        have hz : (argument, p) ∈ edge.arguments.zip target.parameters.items :=
          List.mem_of_getElem? (List.getElem?_zip_eq_some.mpr ⟨hj, hi'⟩)
        obtain ⟨v, hv', hty⟩ := (List.forall₂_iff_zip.mp harg).2 hz
        obtain ⟨value', hw, _, _, _, ht'⟩ := blockParameter_of_verifyBody hb (getElem?_of_lookup ht) hi'
        refine ⟨v, ?_, valueHasType_iff.mpr ⟨value', hw, ht'.trans hty.symm⟩⟩
        exact (enter_blockParameter (parameters_nodup hb (getElem?_of_lookup ht)) hi' hj).trans hv'
      case instruction => simp [CogIrFunction.valueAvailable, hv, hk] at ha

-- Where a run can stand in the code.
def Inside (f : CogIrFunction) (s : RunState V) : Prop :=
  ∃ block, f.getBlock s.block = some block ∧ s.ordinal ≤ block.instructions.items.length

theorem inside_step (hs : f.Step typeOf s s') : Inside f s' := by
  cases hs
  case effect block i hg hi hr => exact ⟨block, hg, (List.getElem?_eq_some_iff.mp hi).1⟩
  case result block i v hg hi hr hv => exact ⟨block, hg, (List.getElem?_eq_some_iff.mp hi).1⟩
  case jump block target edge hg ho he ht => exact ⟨target, ht, Nat.zero_le _⟩

theorem type_of_readable (h : f.Readable typeOf s id) (hv : f.getValue id = some value) :
    ∃ v, s.env id = some v ∧ typeOf v = value.type := by
  obtain ⟨v, he, ht⟩ := h
  exact ⟨v, he, valueHasType_unique ht (valueHasType_iff.mpr ⟨value, hv, rfl⟩)⟩

section Operations

variable {address : CogIrValueId} {isVolatile : Bool} (ho : m.verifyOperation target f i)
  (hr : ∀ id ∈ i.payload.operands, f.Readable typeOf s id)
include ho hr

theorem load_of_readable (hi : i.payload = .load address isVolatile) :
    ∃ v pointer, s.env address = some v ∧ m.pointerPointee (typeOf v) = some pointer ∧
      pointer.pointee = i.resultType ∧ (pointer.isVolatile → isVolatile) := by
  simp only [Module.verifyOperation, Module.verifyLoad, hi, Option.any_eq_true, Option.bind_eq_some_iff,
    Bool.and_eq_true, decide_eq_true_eq, Bool.or_eq_true, Bool.not_eq_true'] at ho
  obtain ⟨_, pointer, ⟨value, hv, hp⟩, ht, hq⟩ := ho
  obtain ⟨v, he, hty⟩ := type_of_readable (hr address (by simp [hi, CogIrPayload.operands])) hv
  exact ⟨v, pointer, he, hty ▸ hp, ht, fun hn => hq.resolve_left (by simp [hn])⟩

theorem store_of_readable {written : CogIrValueId} (hi : i.payload = .store address written isVolatile) :
    ∃ v w pointer, s.env address = some v ∧ s.env written = some w ∧ m.pointerPointee (typeOf v) = some pointer ∧
      pointer.isReadonly = false ∧ pointer.pointee = typeOf w ∧ (pointer.isVolatile → isVolatile) := by
  simp only [Module.verifyOperation, Module.verifyStore, hi, Option.any_eq_true, Option.bind_eq_some_iff,
    Bool.and_eq_true, decide_eq_true_eq, Bool.or_eq_true, Bool.not_eq_true'] at ho
  obtain ⟨_, _, pointer, ⟨value, hv, hp⟩, ⟨hn, ht⟩, hq⟩ := ho
  obtain ⟨v, he, hty⟩ := type_of_readable (hr address (by simp [hi, CogIrPayload.operands])) hv
  obtain ⟨w, hw, hty'⟩ := hr written (by simp [hi, CogIrPayload.operands])
  exact ⟨v, w, pointer, he, hw, hty ▸ hp, hn, valueHasType_unique ht hty', fun hn => hq.resolve_left (by simp [hn])⟩

theorem call_of_readable {callee : CogIrValueId} (hi : i.payload = .call callee arguments) :
    ∃ v result parameterTypes abi convention variadic, s.env callee = some v ∧
      m.getType (typeOf v) = some (.function result parameterTypes abi convention variadic) ∧
      (∀ k type : Nat, parameterTypes[k]? = some type →
        ∃ argument w, arguments[k]? = some argument ∧ s.env argument = some w ∧ typeOf w = type) ∧
      i.resultType = if m.getType result = some .void then COG_IR_ID_INVALID else result := by
  simp only [Module.verifyOperation, Module.verifyCall, hi, Option.any_eq_true, Bool.and_eq_true] at ho
  obtain ⟨_, value, hv, ho⟩ := ho
  split at ho
  case h_2 => cases ho
  case h_1 result parameterTypes abi convention variadic ht =>
    simp only [Bool.and_eq_true, decide_eq_true_eq, List.all_eq_true] at ho
    obtain ⟨⟨⟨⟨_, hl⟩, _⟩, ha⟩, hres⟩ := ho
    obtain ⟨v, he, hty⟩ := type_of_readable (hr callee (by simp [hi, CogIrPayload.operands])) hv
    refine ⟨v, result, parameterTypes, abi, convention, variadic, he, hty ▸ ht, fun k type hk => ?_, ?_⟩
    · obtain ⟨argument, hj⟩ : ∃ argument, arguments[k]? = some argument :=
        ⟨_, List.getElem?_eq_getElem ((List.getElem?_eq_some_iff.mp hk).1.trans_le hl)⟩
      have ha := ha (argument, k) (List.mk_mem_zipIdx_iff_getElem?.mpr hj)
      simp only [Option.any_eq_true, Module.verifyArgument, hk, decide_eq_true_eq] at ha
      obtain ⟨value', hv', ht'⟩ := ha
      have hm : argument ∈ i.payload.operands := hi ▸ List.mem_cons_of_mem callee (List.mem_of_getElem? hj)
      obtain ⟨w, hw, hty'⟩ := type_of_readable (hr _ hm) hv'
      exact ⟨_, w, hj, hw, hty'.trans ht'⟩
    · split at hres
      case h_1 => cases hres
      case h_2 hvoid => rw [if_pos hvoid, of_decide_eq_true hres]
      case h_3 hn hs => rw [if_neg fun hvoid => hn (Option.some.inj (hs.symm.trans hvoid)), of_decide_eq_true hres]

end Operations

theorem safe_of_filled (hb : m.verifyBody target fileLength f resultType parameterTypes) (h : f.Filled typeOf s)
    (hg : f.getBlock s.block = some block) (hl : s.ordinal ≤ block.instructions.items.length) :
    f.Safe typeOf m resultType s block where
  inside := hl
  operands i hi id ho := h id ((instruction_of_verifyBody hb (getElem?_of_lookup hg) hi).2.1 id ho)
  typed i hi := by
    obtain ⟨_, ha, ho⟩ := instruction_of_verifyBody hb (getElem?_of_lookup hg) hi
    have hr : ∀ id ∈ i.payload.operands, f.Readable typeOf s id := fun id hm => h id (ha id hm)
    exact ⟨fun _ _ => load_of_readable ho hr, fun _ _ _ => store_of_readable ho hr, fun _ _ => call_of_readable ho hr⟩
  ends := isNone_of_verifyBody hb (getElem?_of_lookup hg)
  decides he id ho :=
    h id (he ▸ available_at_end (getElem?_of_lookup hg) (operand_of_verifyBody hb (getElem?_of_lookup hg) ho))
  branches he edge ho := arguments_of_filled hb h hg he ho
  returns he value hk := by
    have hv := terminator_of_verifyBody hb (getElem?_of_lookup hg)
    simp only [Module.verifyTerminator, hk, Module.verifyReturn, Bool.and_eq_true] at hv
    obtain ⟨_, hv⟩ := hv
    split at hv
    case h_1 => cases hv
    case h_2 ht =>
      rw [if_pos ht]
      exact Option.isNone_iff_eq_none.mp hv
    case h_3 hn ht =>
      rw [if_neg fun he => hn (Option.some.inj (ht.symm.trans he))]
      simp only [Option.any_eq_true, Bool.and_eq_true] at hv
      obtain ⟨id, rfl, hav, hty⟩ := hv
      obtain ⟨v, hv', hty'⟩ := h id (he ▸ available_at_end (getElem?_of_lookup hg) hav)
      exact ⟨id, v, rfl, hv', valueHasType_unique hty' hty⟩

theorem verifyBody_of_verifyFunction (hv : m.verifyFunction target fileLength f) (hk : f.kind = .definition)
    (ht : m.getType f.type = some (.function resultType parameterTypes abi convention variadic)) :
    m.verifyBody target fileLength f resultType parameterTypes := by
  simp only [Module.verifyFunction, ht, hk, Bool.and_eq_true] at hv
  exact hv.2

-- In a verified module that has been built by calls, a run of a function never reads a value that is not there, and
-- every value that it reads, passes to a block or returns has the type that is expected.
theorem verify_safe {m : Module} (hm : Module.Later Module.initial m) (hv : m.verify target fileLength)
    (hf : f ∈ m.functions.items) (hk : f.kind = .definition)
    (ht : m.getType f.type = some (.function resultType parameterTypes abi convention variadic))
    (hs : f.Start typeOf parameterTypes s) (hr : Relation.ReflTransGen (f.Step typeOf) s s') :
    ∃ block, f.getBlock s'.block = some block ∧ f.Safe typeOf m resultType s' block := by
  have hp : f.Placed := hm.placed Module.initial_placed f hf
  have hb : m.verifyBody target fileLength f resultType parameterTypes := by
    simp only [Module.verify, Bool.and_eq_true, List.all_eq_true] at hv
    exact verifyBody_of_verifyFunction (hv.1.1.2 f hf) hk ht
  have h : f.Filled typeOf s' ∧ Inside f s' := by
    induction hr with
    | refl =>
      obtain ⟨block, hg⟩ := entry_of_verifyBody hb
      exact ⟨filled_start hp hb hs, block, hs.block ▸ hg, hs.ordinal ▸ Nat.zero_le _⟩
    | tail _ hr ih => exact ⟨filled_step hp hb ih.1 hr, inside_step hr⟩
  obtain ⟨hf, block, hg, hl⟩ := h
  exact ⟨block, hg, safe_of_filled hb hf hg hl⟩

end Runs

end Verified

-- The parameter of the function is passed to a block, which returns it.
theorem verify_safe_pass :
    let m := Module.initial.run
      [.typeBool, .typeFunction 0 (.items [0]) .coglet .default false,
        .addFunction "pass" sourceSpanInvalid 1 .definition .internal false none,
        .addBlock 0 "entry" sourceSpanInvalid, .addBlock 0 "exit" sourceSpanInvalid,
        .addBlockParameter 0 1 0 "x" sourceSpanInvalid, .setTerminator 0 0 ⟨.br ⟨1, [0]⟩, sourceSpanInvalid⟩,
        .setTerminator 0 1 ⟨.ret (some 1), sourceSpanInvalid⟩]
    ∃ f s block, m.getFunction 0 = some f ∧ s.block = 1 ∧ f.getBlock s.block = some block ∧
      f.Safe (fun _ : Unit => 0) m 0 s block := by
  intro m
  let f := m.functions.items.head (List.cons_ne_nil _ _)
  let s : RunState Unit := ⟨0, 0, fun id => if id = 0 then some () else none⟩
  have hm : Module.Later Module.initial m :=
    .call _ (.call _ (.call _ (.call _ (.call _ (.call _ (.call _ (.call _ .refl)))))))
  have hv : m.verify (Target.targetInfoFromConfig ⟨.x86_64, .linux, .sysv⟩) (fun _ => none) := rfl
  have hs : f.Start (fun _ => 0) [0] s := by
    refine ⟨rfl, rfl, fun k id h => ?_, fun block p hb hp => ?_⟩
    · have h : [0][k]? = some id := h
      cases k
      case zero => exact ⟨(), by rw [← Option.some.inj h]; rfl, rfl⟩
      case succ => cases h
    · obtain rfl := Option.some.inj hb
      exact absurd hp List.not_mem_nil
  have hr := @CogIrFunction.Step.jump Unit f (fun _ => 0) s _ _ ⟨1, [0]⟩ rfl rfl (List.mem_singleton_self _) rfl
  obtain ⟨block, hg, h⟩ := verify_safe hm hv (List.head_mem _) rfl rfl hs (.single hr)
  exact ⟨f, _, block, rfl, rfl, hg, h⟩

end Coglet.Ir.Builder
