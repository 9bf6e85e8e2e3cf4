import Coglet.Ir.Builder

-- The functions of the builder as calls, such that a build is a sequence of calls.

namespace Coglet.Ir.Builder

open Attempt
open Ast (SourceSpan)

inductive Call
  | typeVoid
  | typeBool
  | typeInteger (bits : Nat) (isSigned : Bool)
  | typeFloat (bits : Nat)
  | typePointer (pointee : CogIrTypeId) (isReadonly isVolatile : Bool)
  | typeOpaquePointer (isReadonly isVolatile : Bool)
  | typeArray (elementType : CogIrTypeId) (length : Nat)
  | typeFunction (resultType : CogIrTypeId) (parameterTypes : Buffer CogIrTypeId) (abi : CogIrAbiRepresentation)
      (callingConvention : CogIrCallingConvention) (isVariadic : Bool)
  | declareNominalType (kind : CogIrNominalKind) (debugName : String) (span : SourceSpan)
  | markIncompleteAggregateType (id : CogIrTypeId)
  | defineAggregateType (id : CogIrTypeId) (fields : Buffer CogIrAggregateField) (isReprC isPacked : Bool)
      (explicitAlignment : Nat)
  | defineEnumType (id backingType : CogIrTypeId) (members : Buffer CogIrEnumMember) (isReprC : Bool)
      (backingAbiType : CogIrAbiTypeId)
  | abiTypeSemantic (runtimeType : CogIrTypeId)
  | abiTypeCScalar (runtimeType : CogIrTypeId) (scalar : CogIrCScalarKind)
  | abiTypePointer (runtimeType : CogIrTypeId) (elementType : CogIrAbiTypeId)
  | abiTypeOpaquePointer (runtimeType : CogIrTypeId)
  | abiTypeArray (runtimeType : CogIrTypeId) (elementType : CogIrAbiTypeId)
  | abiTypeFunction (runtimeType : CogIrTypeId) (returnType : CogIrAbiTypeId)
      (parameterTypes : Buffer CogIrAbiTypeId)
  | constZero (type : CogIrTypeId)
  | constBool (type : CogIrTypeId) (value : Bool)
  | constInteger (type : CogIrTypeId) (bits : BitVec 64)
  | constFloat32 (type : CogIrTypeId) (bits : BitVec 32)
  | constFloat64 (type : CogIrTypeId) (bits : BitVec 64)
  | constNull (type : CogIrTypeId)
  | constArray (type : CogIrTypeId) (elements : Buffer CogIrConstId)
  | constStruct (type : CogIrTypeId) (fields : Buffer CogIrConstId)
  | addGlobal (global : CogIrGlobal)
  | addFunction (debugName : String) (span : SourceSpan) (functionType : CogIrTypeId) (kind : CogIrFunctionKind)
      (linkage : CogIrLinkage) (isCompilerGenerated : Bool) (abi : Option CogIrFunctionAbi)
  | beginFunctionDefinition (id : CogIrFunctionId)
  | setEntryFunction (id : CogIrFunctionId)
  | setInitFunction (id : CogIrFunctionId)
  | addSlot (function : CogIrFunctionId) (kind : CogIrSlotKind) (parameterIndex : Option Nat) (debugName : String)
      (span : SourceSpan) (type : CogIrTypeId)
  | setSlotAbiType (function : CogIrFunctionId) (slot : CogIrSlotId) (abiType : CogIrAbiTypeId)
  | setValueAbiType (function : CogIrFunctionId) (value : CogIrValueId) (abiType : CogIrAbiTypeId)
  | markValueDiscarded (function : CogIrFunctionId) (value : CogIrValueId)
  | addBlock (function : CogIrFunctionId) (debugName : String) (span : SourceSpan)
  | addBlockParameter (function : CogIrFunctionId) (block : CogIrBlockId) (type : CogIrTypeId) (debugName : String)
      (span : SourceSpan)
  | emit (function : CogIrFunctionId) (block : CogIrBlockId) (input : CogIrInstruction)
  | setTerminator (function : CogIrFunctionId) (block : CogIrBlockId) (input : CogIrTerminator)

-- What a call that succeeds returns.
inductive Reply
  | id (id : Nat)
  | ok
deriving DecidableEq

def number (outcome : Module × Option Nat) : Module × Option Reply :=
  (outcome.1, outcome.2.map .id)

def success (outcome : Module × Option Unit) : Module × Option Reply :=
  (outcome.1, outcome.2.map fun _ => .ok)

namespace Module

def step (m : Module) : Call → Module × Option Reply
  | .typeVoid => number m.typeVoid
  | .typeBool => number m.typeBool
  | .typeInteger bits isSigned => number (m.typeInteger bits isSigned)
  | .typeFloat bits => number (m.typeFloat bits)
  | .typePointer pointee isReadonly isVolatile => number (m.typePointer pointee isReadonly isVolatile)
  | .typeOpaquePointer isReadonly isVolatile => number (m.typeOpaquePointer isReadonly isVolatile)
  | .typeArray elementType length => number (m.typeArray elementType length)
  | .typeFunction result parameters abi convention variadic =>
    number (m.typeFunction result parameters abi convention variadic)
  | .declareNominalType kind debugName span => number (m.declareNominalType kind debugName span)
  | .markIncompleteAggregateType id => success (m.markIncompleteAggregateType id)
  | .defineAggregateType id fields isReprC isPacked alignment =>
    success (m.defineAggregateType id fields isReprC isPacked alignment)
  | .defineEnumType id backing members isReprC backingAbi =>
    success (m.defineEnumType id backing members isReprC backingAbi)
  | .abiTypeSemantic runtimeType => number (m.abiTypeSemantic runtimeType)
  | .abiTypeCScalar runtimeType scalar => number (m.abiTypeCScalar runtimeType scalar)
  | .abiTypePointer runtimeType elementType => number (m.abiTypePointer runtimeType elementType)
  | .abiTypeOpaquePointer runtimeType => number (m.abiTypeOpaquePointer runtimeType)
  | .abiTypeArray runtimeType elementType => number (m.abiTypeArray runtimeType elementType)
  | .abiTypeFunction runtimeType returnType parameters => number (m.abiTypeFunction runtimeType returnType parameters)
  | .constZero type => number (m.constZero type)
  | .constBool type value => number (m.constBool type value)
  | .constInteger type bits => number (m.constInteger type bits)
  | .constFloat32 type bits => number (m.constFloat32 type bits)
  | .constFloat64 type bits => number (m.constFloat64 type bits)
  | .constNull type => number (m.constNull type)
  | .constArray type elements => number (m.constArray type elements)
  | .constStruct type fields => number (m.constStruct type fields)
  | .addGlobal global => number (m.addGlobal global)
  | .addFunction debugName span type kind linkage generated abi =>
    number (m.addFunction debugName span type kind linkage generated abi)
  | .beginFunctionDefinition id => success (m.beginFunctionDefinition id)
  | .setEntryFunction id => success (m.setEntryFunction id)
  | .setInitFunction id => success (m.setInitFunction id)
  | .addSlot function kind parameterIndex debugName span type =>
    number (m.addSlot function kind parameterIndex debugName span type)
  | .setSlotAbiType function slot abiType => success (m.setSlotAbiType function slot abiType)
  | .setValueAbiType function value abiType => success (m.setValueAbiType function value abiType)
  | .markValueDiscarded function value => success (m.markValueDiscarded function value)
  | .addBlock function debugName span => number (m.addBlock function debugName span)
  | .addBlockParameter function block type debugName span =>
    number (m.addBlockParameter function block type debugName span)
  | .emit function block input => number (m.emit function block input)
  | .setTerminator function block input => success (m.setTerminator function block input)

-- The function `cog_ir_module_init`
def initial : Module where
  hasArena      := true
  types         := .empty
  abiTypes      := .empty
  constants     := .empty
  globals       := .empty
  functions     := .empty
  entryFunction := COG_IR_ID_INVALID
  initFunction  := COG_IR_ID_INVALID
  isFrozen      := false

-- The function `cog_ir_module_freeze`
def freeze (m : Module) : Module :=
  { m with isFrozen := true }

def run (m : Module) (calls : List Call) : Module :=
  calls.foldl (fun m call => (m.step call).1) m

-- The states that follow on a state in a build.
inductive Later (m : Module) : Module → Prop
  | refl : Later m m
  | call (call : Call) : Later m m' → Later m (m'.step call).1
  | freeze : Later m m' → Later m m'.freeze

end Module

end Coglet.Ir.Builder
