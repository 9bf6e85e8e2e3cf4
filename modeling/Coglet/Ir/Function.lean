import Mathlib.Data.List.Nodup

-- Functions of the intermediate representation.

namespace Coglet.Ir

abbrev ValueId := Nat
abbrev BlockId := Nat
abbrev SlotId  := Nat

-- Nominal types are identified by their number.
inductive Ty
  | void
  | bool
  | integer (bits : Nat) (isSigned : Bool)
  | float (bits : Nat)
  | pointer (pointee : Ty) (isReadonly isVolatile : Bool)
  | opaquePointer (isReadonly isVolatile : Bool)
  | array (element : Ty) (length : Nat)
  | struct (id : Nat)
  | union (id : Nat)
  | enum (id : Nat) (backing : Ty)
  | function (id : Nat)
deriving DecidableEq, Repr

inductive Constant
  | zero (type : Ty)
  | bool (value : Bool)
  | integer (type : Ty) (bits : BitVec 64)
  | float32 (bits : BitVec 32)
  | float64 (bits : BitVec 64)
  | null (type : Ty)
  | aggregate (type : Ty) (id : Nat)
deriving DecidableEq, Repr

-- The operations that do nothing but compute a value from their operands.
inductive Op
  | fieldAddr (index : Nat)
  | arrayElemAddr
  | ptrIndexAddr
  | makeStruct
  | makeArray
  | extractField (index : Nat)
  | extractElement (index : Nat)
  | iaddChecked | isubChecked | imulChecked | idivChecked | iremChecked | inegChecked
  | iaddWrap | isubWrap | imulWrap | inegWrap
  | bitAnd | bitOr | bitXor | bitNot
  | shlCheckedCount | shrSignedCheckedCount | shrUnsignedCheckedCount
  | fadd | fsub | fmul | fdiv | fneg
  | icmpEq | icmpNe
  | icmpSlt | icmpSle | icmpSgt | icmpSge
  | icmpUlt | icmpUle | icmpUgt | icmpUge
  | fcmpEq | fcmpNe | fcmpLt | fcmpLe | fcmpGt | fcmpGe
  | ptrEq | ptrNe
  | boolNot
  | castChecked | intTruncate | ptrReinterpret | ptrQualify
  | sizeOf (type : Ty) | alignOf (type : Ty)
  | cVarargPromote
deriving DecidableEq, Repr

inductive Operation
  | const (constant : Constant)
  | functionRef (function : Nat)
  | localAddr (slot : SlotId)
  | globalAddr (id : Nat)
  | load (address : ValueId) (isVolatile : Bool)
  | store (address value : ValueId) (isVolatile : Bool)
  | compute (op : Op) (operands : List ValueId)
  | call (callee : ValueId) (arguments : List ValueId)
  | asm (template outputConstraint : String) (inputConstraints : List String) (inputs : List ValueId)
    (isVolatile : Bool)
deriving DecidableEq, Repr

def Operation.operands : Operation → List ValueId
  | const _ | functionRef _ | localAddr _ | globalAddr _ => []
  | load address _ => [address]
  | store address value _ => [address, value]
  | compute _ operands => operands
  | call callee arguments => callee :: arguments
  | asm _ _ _ inputs _ => inputs

structure Instruction where
  operation  : Operation
  resultType : Option Ty
  result     : Option ValueId
deriving DecidableEq, Repr

structure BranchEdge where
  target    : BlockId
  arguments : List ValueId
deriving DecidableEq, Repr

inductive Terminator
  | br (edge : BranchEdge)
  | condBr (condition : ValueId) (ifTrue ifFalse : BranchEdge)
  | switch (value : ValueId) (cases : List (Constant × BranchEdge)) (default : BranchEdge)
  | ret (value : Option ValueId)
  | trap
  | unreachable
deriving DecidableEq, Repr

namespace Terminator

-- The position of an edge in this list is the tag under which it is emitted.
def edges : Terminator → List BranchEdge
  | br edge                   => [edge]
  | condBr _ ifTrue ifFalse   => [ifTrue, ifFalse]
  | switch _ cases default    => cases.map (·.2) ++ [default]
  | ret _ | trap | unreachable => []

def operands : Terminator → List ValueId
  | br _                             => []
  | condBr condition _ _             => [condition]
  | switch value _ _                 => [value]
  | ret value                        => value.toList
  | trap | unreachable               => []

end Terminator

-- The edge that is taken if `truth` decides about conditions and `selects` about the keys of a switch.
def Terminator.taken (truth : V → Bool) (selects : V → Constant → Bool) (env : ValueId → V) :
    Terminator → Option BranchEdge
  | br edge                         => some edge
  | condBr condition ifTrue ifFalse => some (if truth (env condition) then ifTrue else ifFalse)
  | switch value cases default      => some (((cases.find? (selects (env value) ·.1)).map (·.2)).getD default)
  | ret _ | trap | unreachable      => none

structure BlockParam where
  value : ValueId
  type  : Ty
deriving DecidableEq, Repr

structure Block where
  parameters   : List BlockParam
  instructions : List Instruction
  terminator   : Option Terminator
deriving DecidableEq, Repr

-- Where a value comes from. The ordinal is the position among the parameters or instructions.
inductive ValueKind
  | functionParameter (ordinal : Nat)
  | blockParameter (block : BlockId) (ordinal : Nat)
  | instruction (block : BlockId) (ordinal : Nat)
deriving DecidableEq, Repr

structure Value where
  kind : ValueKind
  type : Ty
deriving DecidableEq, Repr

structure Function where
  parameters : List ValueId
  values     : List Value
  blocks     : List Block
  entry      : BlockId
  discarded  : List ValueId
deriving DecidableEq, Repr

namespace Function

def parametersOf (f : Function) (block : BlockId) : List BlockParam :=
  (f.blocks[block]?.map (·.parameters)).getD []

def terminatorOf (f : Function) (block : BlockId) : Option Terminator :=
  f.blocks[block]?.bind (·.terminator)

-- All parameters of the target are assigned at once.
def jump (f : Function) (edge : BranchEdge) (env : ValueId → V) : ValueId → V :=
  fun id =>
    match (((f.parametersOf edge.target).map (·.value)).zip edge.arguments).lookup id with
    | some argument => env argument
    | none          => env id

-- A value that has been computed by the block in which it is used, or is a parameter of it.
def valueAvailable (f : Function) (block : BlockId) (ordinal : Nat) (id : ValueId) : Bool :=
  match f.values[id]? with
  | none => false
  | some value =>
    match value.kind with
    | .functionParameter _  => true
    | .blockParameter b _   => b = block
    | .instruction b o      =>
      b = block && o < ordinal && o < ((f.blocks[b]?.map (·.instructions.length)).getD 0) && id ∉ f.discarded

-- In a terminator every instruction of the block has been executed. The source passes the greatest ordinal.
def terminatorValueAvailable (f : Function) (block : BlockId) (id : ValueId) : Bool :=
  f.valueAvailable block ((f.blocks[block]?.map (·.instructions.length)).getD 0) id

def valueHasType (f : Function) (type : Ty) (id : ValueId) : Bool :=
  f.values[id]?.any (·.type = type)

def verifyEdge (f : Function) (source : BlockId) (edge : BranchEdge) : Bool :=
  match f.blocks[edge.target]? with
  | none => false
  | some target =>
    edge.arguments.length = target.parameters.length &&
    (edge.arguments.zip target.parameters).all fun pair =>
      f.terminatorValueAvailable source pair.1 && f.valueHasType pair.2.type pair.1

def verifyParameter (f : Function) (block : BlockId) (ordinal : Nat) (parameter : BlockParam) : Bool :=
  f.values[parameter.value]? = some ⟨.blockParameter block ordinal, parameter.type⟩

-- The table of values agrees with where an instruction stands.
def verifyResult (f : Function) (block : BlockId) (ordinal : Nat) (instruction : Instruction) : Bool :=
  match instruction.resultType with
  | none      => instruction.result.isNone
  | some type => instruction.result.any fun id => f.values[id]? = some ⟨.instruction block ordinal, type⟩

def verifyTerminator (f : Function) (block : BlockId) (terminator : Terminator) : Bool :=
  terminator.operands.all (f.terminatorValueAvailable block) && terminator.edges.all (f.verifyEdge block)

-- The verification of blocks, with regard to control flow and where values come from.
def verifyBlock (f : Function) (id : BlockId) (block : Block) : Bool :=
  (block.parameters.zipIdx.all fun pair => f.verifyParameter id pair.2 pair.1) &&
  (block.instructions.zipIdx.all fun pair =>
    f.verifyResult id pair.2 pair.1 && pair.1.operation.operands.all (f.valueAvailable id pair.2)) &&
  block.terminator.any (f.verifyTerminator id)

def verify (f : Function) : Bool :=
  (f.blocks[f.entry]?).isSome && f.blocks.zipIdx.all fun pair => f.verifyBlock pair.2 pair.1

section

variable {f : Function} {block target : Block} {b b' : BlockId} {edge : BranchEdge}
  {parameter parameter' : BlockParam} {instruction : Instruction} {id argument : ValueId} {i j : Nat}

theorem verifyBlock_of_verify (h : f.verify) (hb : f.blocks[b]? = some block) : f.verifyBlock b block := by
  simp only [verify, Bool.and_eq_true, List.all_eq_true] at h
  exact h.right (block, b) (List.mk_mem_zipIdx_iff_getElem?.mpr hb)

theorem terminator_of_verify (h : f.verify) (hb : f.blocks[b]? = some block) :
    ∃ terminator, block.terminator = some terminator ∧ f.verifyTerminator b terminator := by
  have hv := verifyBlock_of_verify h hb
  simp only [verifyBlock, Bool.and_eq_true, Option.any_eq_true] at hv
  exact hv.right

theorem verifyEdge_of_verify (h : f.verify) (hb : f.blocks[b]? = some block)
    (ht : block.terminator = some terminator) (he : edge ∈ terminator.edges) : f.verifyEdge b edge := by
  obtain ⟨_, ht', hv⟩ := terminator_of_verify h hb
  rw [ht, Option.some.injEq] at ht'
  subst ht'
  simp only [verifyTerminator, Bool.and_eq_true, List.all_eq_true] at hv
  exact hv.right edge he

theorem target_of_verifyEdge (h : f.verifyEdge b edge) :
    ∃ target, f.blocks[edge.target]? = some target ∧ edge.arguments.length = target.parameters.length := by
  unfold verifyEdge at h
  split at h
  case h_1 => cases h
  case h_2 target ht =>
    simp only [Bool.and_eq_true, decide_eq_true_eq] at h
    exact ⟨target, ht, h.left⟩

theorem argument_available (h : f.verifyEdge b edge) (ha : argument ∈ edge.arguments) :
    f.terminatorValueAvailable b argument := by
  obtain ⟨target, ht, hl⟩ := target_of_verifyEdge h
  simp only [verifyEdge, ht, Bool.and_eq_true, List.all_eq_true] at h
  obtain ⟨i, hi, rfl⟩ := List.getElem_of_mem ha
  have hz : (edge.arguments[i], target.parameters[i]) ∈ edge.arguments.zip target.parameters :=
    List.mem_iff_getElem.mpr ⟨i, by simp [hi, ← hl], by simp⟩
  exact (h.right _ hz).left

theorem parameter_value (h : f.verify) (hb : f.blocks[b]? = some block)
    (hp : block.parameters[i]? = some parameter) :
    f.values[parameter.value]? = some ⟨.blockParameter b i, parameter.type⟩ := by
  have hv := verifyBlock_of_verify h hb
  simp only [verifyBlock, Bool.and_eq_true, List.all_eq_true] at hv
  have := hv.left.left (parameter, i) (List.mk_mem_zipIdx_iff_getElem?.mpr hp)
  simpa [verifyParameter] using this

theorem result_value (h : f.verify) (hb : f.blocks[b]? = some block)
    (hi : block.instructions[i]? = some instruction) (hr : instruction.result = some id) :
    ∃ type, f.values[id]? = some ⟨.instruction b i, type⟩ := by
  have hv := verifyBlock_of_verify h hb
  simp only [verifyBlock, Bool.and_eq_true, List.all_eq_true] at hv
  have hv := (hv.left.right (instruction, i) (List.mk_mem_zipIdx_iff_getElem?.mpr hi)).left
  unfold verifyResult at hv
  split at hv
  case h_1 => simp [hr] at hv
  case h_2 type _ => exact ⟨type, by simpa [hr] using hv⟩

-- The table of values records the position of a parameter, hence the parameters of a block are distinct.
theorem parameters_nodup (h : f.verify) (hb : f.blocks[b]? = some block) :
    (block.parameters.map (·.value)).Nodup := by
  rw [List.nodup_iff_injective_get]
  intro i j hij
  have hi := parameter_value (i := i) h hb (List.getElem?_eq_getElem (by simpa using i.isLt))
  have hj := parameter_value (i := j) h hb (List.getElem?_eq_getElem (by simpa using j.isLt))
  simp only [List.get_eq_getElem, List.getElem_map] at hij
  rw [hij, hj] at hi
  simp only [Option.some.injEq, Value.mk.injEq, ValueKind.blockParameter.injEq] at hi
  exact Fin.ext hi.left.right.symm

theorem parametersOf_eq (hb : f.blocks[b]? = some block) : f.parametersOf b = block.parameters := by
  simp [parametersOf, hb]

theorem parametersOf_nodup (h : f.verify) : ((f.parametersOf b).map (·.value)).Nodup := by
  cases hb : f.blocks[b]?
  case none        => simp [parametersOf, hb]
  case some target => exact parametersOf_eq hb ▸ parameters_nodup h hb

theorem block_of_parametersOf (hp : (f.parametersOf b)[i]? = some parameter) :
    ∃ block, f.blocks[b]? = some block ∧ block.parameters[i]? = some parameter := by
  cases hb : f.blocks[b]?
  case none       => simp [parametersOf, hb] at hp
  case some block => exact ⟨block, rfl, by rwa [parametersOf_eq hb] at hp⟩

-- A value is the parameter of one block only.
theorem parameter_unique (h : f.verify) (hp : (f.parametersOf b)[i]? = some parameter)
    (hp' : (f.parametersOf b')[j]? = some parameter') (he : parameter.value = parameter'.value) :
    b = b' ∧ i = j := by
  obtain ⟨_, hb, hp⟩ := block_of_parametersOf hp
  obtain ⟨_, hb', hp'⟩ := block_of_parametersOf hp'
  have hv := parameter_value h hb hp
  rw [he, parameter_value h hb' hp', Option.some.injEq, Value.mk.injEq, ValueKind.blockParameter.injEq] at hv
  exact ⟨hv.left.left.symm, hv.left.right.symm⟩

theorem lookup_zip {keys values : List ValueId} {i : Nat} (hn : keys.Nodup) (hk : keys[i]? = some k)
    (hv : values[i]? = some v) : (keys.zip values).lookup k = some v := by
  induction keys generalizing values i
  case nil => simp at hk
  case cons k' keys hi =>
    cases values
    case nil => simp at hv
    case cons v' values =>
      cases i
      case zero =>
        simp only [List.getElem?_cons_zero, Option.some.injEq] at hk hv
        simp [hk, hv]
      case succ i =>
        simp only [List.getElem?_cons_succ] at hk hv
        have hne : k ≠ k' := by
          intro he
          exact (List.nodup_cons.mp hn).left (he ▸ List.mem_of_getElem? hk)
        rw [List.zip_cons_cons, List.lookup_cons, beq_false_of_ne hne]
        exact hi (List.nodup_cons.mp hn).right hk hv

theorem jump_parameter (h : f.verify) (hp : (f.parametersOf edge.target)[i]? = some parameter)
    (ha : edge.arguments[i]? = some argument) (env : ValueId → V) :
    f.jump edge env parameter.value = env argument := by
  have hk : ((f.parametersOf edge.target).map (·.value))[i]? = some parameter.value := by simp [hp]
  simp [jump, lookup_zip (parametersOf_nodup h) hk ha]

end
end Function
end Coglet.Ir
