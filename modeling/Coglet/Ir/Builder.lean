import Coglet.Ast.Node
import Coglet.Ir.TypeTable
import Coglet.Lib.Attempt
import Coglet.Lib.GrowArray

-- The functions that build a module of the intermediate representation.

namespace Coglet.Ir.Builder

open Attempt
open Ast (SourceSpan)

abbrev CogIrConstId := Nat
abbrev CogIrGlobalId := Nat
abbrev CogIrFunctionId := Nat
abbrev CogIrBlockId := Nat
abbrev CogIrValueId := Nat
abbrev CogIrSlotId := Nat

-- A pointer to an array together with the number of its elements.
inductive Buffer (α : Type)
  | null (count : Nat)
  | items (items : List α)

namespace Buffer

variable {α : Type}

-- `count && !pointer`
def missing : Buffer α → Bool
  | null count => count ≠ 0
  | items _ => false

def toList : Buffer α → List α
  | null _ => []
  | items xs => xs

def count : Buffer α → Nat
  | null count => count
  | items xs => xs.length

end Buffer

def sourceSpanInvalid : SourceSpan where
  fileId      := 0xFFFFFFFF
  startOffset := 0
  endOffset   := 0
  line        := 0
  column      := 0

structure TypeEntry where
  content : CogIrType
  span    : SourceSpan

inductive CogIrCScalarKind
  | none | char | schar | uchar | short | ushort | int | uint | long | ulong | longlong | ulonglong | size
  | bool | float | double
deriving DecidableEq

inductive CogIrAbiTypeKind
  | semantic | cScalar | pointer | opaquePointer | array | function
deriving DecidableEq

structure CogIrAbiType where
  kind           : CogIrAbiTypeKind
  runtimeType    : CogIrTypeId
  cScalarKind    : CogIrCScalarKind
  elementType    : CogIrAbiTypeId
  parameterTypes : List CogIrAbiTypeId
  returnType     : CogIrAbiTypeId
deriving DecidableEq

inductive CogIrConstant
  | zero (type : CogIrTypeId)
  | bool (type : CogIrTypeId) (value : Bool)
  | integer (type : CogIrTypeId) (bits : BitVec 64)
  | float32 (type : CogIrTypeId) (bits : BitVec 32)
  | float64 (type : CogIrTypeId) (bits : BitVec 64)
  | null (type : CogIrTypeId)
  | array (type : CogIrTypeId) (elements : List CogIrConstId)
  | struct (type : CogIrTypeId) (elements : List CogIrConstId)
deriving DecidableEq

inductive CogIrLinkage
  | internal | external
deriving DecidableEq

inductive CogIrFunctionKind
  | declaration | definition
deriving DecidableEq

structure CogIrGlobal where
  debugName           : String
  span                : SourceSpan
  type                : CogIrTypeId
  abiType             : CogIrAbiTypeId
  linkage             : CogIrLinkage
  isCompilerGenerated : Bool
  isReadonly          : Bool
  staticInitializer   : CogIrConstId

inductive CogIrValueKind
  | functionParameter | blockParameter | instruction
deriving DecidableEq

structure CogIrValue where
  type    : CogIrTypeId
  abiType : CogIrAbiTypeId
  kind    : CogIrValueKind
  block   : CogIrBlockId
  ordinal : Nat
  span    : SourceSpan

inductive CogIrSlotKind
  | sourceLocal | sourceParameter | compilerTemp
deriving DecidableEq

-- The parameter index is present for the slots of parameters.
structure CogIrSlot where
  kind           : CogIrSlotKind
  parameterIndex : Option Nat
  debugName      : String
  span           : SourceSpan
  type           : CogIrTypeId
  abiType        : CogIrAbiTypeId

structure CogIrBlockParam where
  value     : CogIrValueId
  type      : CogIrTypeId
  debugName : String
  span      : SourceSpan

inductive CogIrOp
  | const | functionRef | localAddr | globalAddr | fieldAddr | arrayElemAddr | ptrIndexAddr | load | store
  | makeStruct | makeArray | extractField | extractElement
  | iaddChecked | isubChecked | imulChecked | idivChecked | iremChecked | inegChecked
  | iaddWrap | isubWrap | imulWrap | inegWrap
  | bitAnd | bitOr | bitXor | bitNot | shlCheckedCount | shrSignedCheckedCount | shrUnsignedCheckedCount
  | fadd | fsub | fmul | fdiv | fneg
  | icmpEq | icmpNe | icmpSlt | icmpSle | icmpSgt | icmpSge | icmpUlt | icmpUle | icmpUgt | icmpUge
  | fcmpEq | fcmpNe | fcmpLt | fcmpLe | fcmpGt | fcmpGe
  | ptrEq | ptrNe | boolNot
  | castChecked | intTruncate | ptrReinterpret | ptrQualify | sizeOf | alignOf | cVarargPromote | asm | call

-- What an instruction does with which operands. It is copied as a whole.
inductive CogIrPayload
  | constant (constant : CogIrConstId)
  | functionRef (function : CogIrFunctionId)
  | localAddr (slot : CogIrSlotId)
  | globalAddr (global : CogIrGlobalId)
  | fieldAddr (base : CogIrValueId) (fieldIndex : Nat)
  | indexAddr (base index : CogIrValueId)
  | load (address : CogIrValueId) (isVolatile : Bool)
  | store (address value : CogIrValueId) (isVolatile : Bool)
  | binary (lhs rhs : CogIrValueId)
  | unary (operand : CogIrValueId)
  | conversion (operand : CogIrValueId) (targetType : CogIrTypeId)
  | typeQuery (queriedType : CogIrTypeId)
  | extract (aggregate : CogIrValueId) (index : Nat)
  | aggregate (values : List CogIrValueId)
  | asmStmt (templateText outputConstraint : String) (inputConstraints : List String) (inputs : List CogIrValueId)
      (isVolatile : Bool)
  | call (callee : CogIrValueId) (arguments : List CogIrValueId)

structure CogIrInstruction where
  op                : CogIrOp
  payload           : CogIrPayload
  result            : CogIrValueId
  resultType        : CogIrTypeId
  resultIsDiscarded : Bool
  span              : SourceSpan

structure CogIrBranchEdge where
  target    : CogIrBlockId
  arguments : List CogIrValueId

structure CogIrSwitchCase where
  key  : CogIrConstId
  edge : CogIrBranchEdge

inductive CogIrTrapReason
  | explicit | arithmeticOverflow | divisionByZero | invalidShift | invalidCast

inductive CogIrTerminatorKind
  | none
  | br (edge : CogIrBranchEdge)
  | condBr (condition : CogIrValueId) (ifTrue ifFalse : CogIrBranchEdge)
  | switch (value : CogIrValueId) (cases : Buffer CogIrSwitchCase) (defaultEdge : CogIrBranchEdge)
  | ret (value : Option CogIrValueId)
  | trap (reason : CogIrTrapReason)
  | unreachable

structure CogIrTerminator where
  kind : CogIrTerminatorKind
  span : SourceSpan

structure CogIrBlock where
  debugName    : String
  span         : SourceSpan
  parameters   : GrowArray CogIrBlockParam
  instructions : GrowArray CogIrInstruction
  terminator   : CogIrTerminator

structure CogIrFunctionAbi where
  abi               : CogIrAbiRepresentation
  callingConvention : CogIrCallingConvention
  isVariadic        : Bool
  externalSymbol    : String
  returnAbiType     : CogIrAbiTypeId
  parameterAbiTypes : Buffer CogIrAbiTypeId

structure CogIrFunction where
  debugName           : String
  span                : SourceSpan
  type                : CogIrTypeId
  kind                : CogIrFunctionKind
  linkage             : CogIrLinkage
  isCompilerGenerated : Bool
  abi                 : CogIrFunctionAbi
  values              : GrowArray CogIrValue
  parameters          : List CogIrValueId
  slots               : GrowArray CogIrSlot
  blocks              : GrowArray CogIrBlock
  entryBlock          : CogIrBlockId

structure Module where
  hasArena      : Bool
  types         : GrowArray TypeEntry
  abiTypes      : GrowArray CogIrAbiType
  constants     : GrowArray CogIrConstant
  globals       : GrowArray CogIrGlobal
  functions     : GrowArray CogIrFunction
  entryFunction : CogIrFunctionId
  initFunction  : CogIrFunctionId
  isFrozen      : Bool

-- The functions `cog_ir_get_...` find nothing under the invalid number.
def lookup {α : Type} (items : List α) (id : Nat) : Option α :=
  if id = COG_IR_ID_INVALID then none else items[id]?

theorem getElem?_of_lookup {α : Type} {items : List α} {id : Nat} {x : α} (h : lookup items id = some x) :
    items[id]? = some x := by
  unfold lookup at h
  split at h
  case isTrue => cases h
  case isFalse => exact h

namespace CogIrTerminator

def isNone (terminator : CogIrTerminator) : Bool :=
  match terminator.kind with
  | .none => true
  | _ => false

end CogIrTerminator

namespace CogIrFunction

variable (function : CogIrFunction) (id : Nat)

def getBlock : Option CogIrBlock :=
  lookup function.blocks.items id

def getValue : Option CogIrValue :=
  lookup function.values.items id

def getSlot : Option CogIrSlot :=
  lookup function.slots.items id

def setBlock (block : CogIrBlock) : CogIrFunction :=
  { function with blocks := function.blocks.set id block }

end CogIrFunction

-- The comparisons with the kinds of types.
def isBool : CogIrType → Bool
  | .bool => true
  | _ => false

def isInteger : CogIrType → Bool
  | .integer .. => true
  | _ => false

def isIntegerOrEnum : CogIrType → Bool
  | .integer .. | .nominal .enum .. => true
  | _ => false

def isFloat (bits : Nat) : CogIrType → Bool
  | .float bits' => bits' = bits
  | _ => false

def isPointer : CogIrType → Bool
  | .pointer .. => true
  | _ => false

def isOpaquePointer : CogIrType → Bool
  | .opaquePointer .. => true
  | _ => false

def isNullable : CogIrType → Bool
  | .pointer .. | .opaquePointer .. | .function .. => true
  | _ => false

def isArray : CogIrType → Bool
  | .array .. => true
  | _ => false

def isStruct : CogIrType → Bool
  | .nominal .struct .. => true
  | _ => false

structure FunctionType where
  parameterTypes    : List CogIrTypeId
  abi               : CogIrAbiRepresentation
  callingConvention : CogIrCallingConvention
  isVariadic        : Bool

def functionType : CogIrType → Option FunctionType
  | .function _ parameterTypes abi callingConvention isVariadic =>
    some { parameterTypes, abi, callingConvention, isVariadic }
  | _ => none

namespace Module

variable (m : Module)

def mutable : Bool :=
  m.hasArena && !m.isFrozen

section Lookup

variable (id : Nat)

def getType : Option CogIrType :=
  (lookup m.types.items id).map (·.content)

def getAbiType : Option CogIrAbiType :=
  lookup m.abiTypes.items id

def getConstant : Option CogIrConstant :=
  lookup m.constants.items id

def getFunction : Option CogIrFunction :=
  lookup m.functions.items id

def setFunction (function : CogIrFunction) : Module :=
  { m with functions := m.functions.set id function }

def setType (entry : TypeEntry) : Module :=
  { m with types := m.types.set id entry }

end Lookup

section Types

def appendType (entry : TypeEntry) : Module × Option CogIrTypeId :=
  if !m.mutable || COG_IR_ID_INVALID ≤ m.types.items.length then fail m
  else done { m with types := m.types.push entry } m.types.items.length

-- The search through the table and the addition of a structural type.
def internType (content : CogIrType) : Module × Option CogIrTypeId :=
  match m.types.items.findIdx? (·.content = content) with
  | some id => done m id
  | none => m.appendType ⟨content, sourceSpanInvalid⟩

def typeVoid : Module × Option CogIrTypeId :=
  if !m.mutable then fail m else m.internType .void

def typeBool : Module × Option CogIrTypeId :=
  if !m.mutable then fail m else m.internType .bool

def typeInteger (bits : Nat) (isSigned : Bool) : Module × Option CogIrTypeId :=
  if !m.mutable || (bits ≠ 8 && bits ≠ 16 && bits ≠ 32 && bits ≠ 64) then fail m
  else m.internType (.integer bits isSigned)

def typeFloat (bits : Nat) : Module × Option CogIrTypeId :=
  if !m.mutable || (bits ≠ 32 && bits ≠ 64) then fail m
  else m.internType (.float bits)

def typePointer (pointee : CogIrTypeId) (isReadonly isVolatile : Bool) : Module × Option CogIrTypeId :=
  if !m.mutable || (m.getType pointee).isNone then fail m
  else m.internType (.pointer pointee isReadonly isVolatile)

def typeOpaquePointer (isReadonly isVolatile : Bool) : Module × Option CogIrTypeId :=
  if !m.mutable then fail m else m.internType (.opaquePointer isReadonly isVolatile)

def typeArray (elementType : CogIrTypeId) (length : Nat) : Module × Option CogIrTypeId :=
  if !m.mutable || (m.getType elementType).isNone then fail m
  else m.internType (.array elementType length)

def typeFunction (resultType : CogIrTypeId) (parameterTypes : Buffer CogIrTypeId) (abi : CogIrAbiRepresentation)
    (callingConvention : CogIrCallingConvention) (isVariadic : Bool) : Module × Option CogIrTypeId :=
  if !m.mutable || (m.getType resultType).isNone then fail m
  else if parameterTypes.missing then fail m
  else if parameterTypes.toList.any fun type => (m.getType type).isNone then fail m
  else m.internType (.function resultType parameterTypes.toList abi callingConvention isVariadic)

-- The kinds of nominal types are the only ones that a caller can name.
def declareNominalType (kind : CogIrNominalKind) (debugName : String) (span : SourceSpan) :
    Module × Option CogIrTypeId :=
  if !m.mutable then fail m else m.appendType ⟨.nominal kind debugName .declared, span⟩

-- An aggregate that is neither complete nor marked as incomplete.
def openAggregate (id : CogIrTypeId) : Option (CogIrNominalKind × String × SourceSpan) :=
  match lookup m.types.items id with
  | some ⟨.nominal .struct debugName .declared, span⟩ => some (.struct, debugName, span)
  | some ⟨.nominal .union debugName .declared, span⟩ => some (.union, debugName, span)
  | _ => none

def markIncompleteAggregateType (id : CogIrTypeId) : Module × Option Unit :=
  if !m.mutable then fail m
  else
    match m.openAggregate id with
    | none => fail m
    | some (kind, debugName, span) => done (m.setType id ⟨.nominal kind debugName .incomplete, span⟩) ()

def defineAggregateType (id : CogIrTypeId) (fields : Buffer CogIrAggregateField) (isReprC isPacked : Bool)
    (explicitAlignment : Nat) : Module × Option Unit :=
  if !m.mutable || fields.missing then fail m
  else
    match m.openAggregate id with
    | none => fail m
    | some (kind, debugName, span) =>
      if fields.toList.any fun field => (m.getType field.type).isNone then fail m
      else
        let body := .aggregate fields.toList isReprC isPacked explicitAlignment
        done (m.setType id ⟨.nominal kind debugName body, span⟩) ()

def openEnum (id : CogIrTypeId) : Option (String × SourceSpan) :=
  match lookup m.types.items id with
  | some ⟨.nominal .enum debugName .declared, span⟩ => some (debugName, span)
  | _ => none

def defineEnumType (id backingType : CogIrTypeId) (members : Buffer CogIrEnumMember) (isReprC : Bool)
    (backingAbiType : CogIrAbiTypeId) : Module × Option Unit :=
  if !m.mutable || members.missing then fail m
  else
    match m.openEnum id with
    | none => fail m
    | some (debugName, span) =>
      if !(m.getType backingType).any isInteger then fail m
      else if isReprC && (m.getAbiType backingAbiType).isNone then fail m
      else
        let body := .enumeration backingType members.toList isReprC (some backingAbiType)
        done (m.setType id ⟨.nominal .enum debugName body, span⟩) ()

end Types

section AbiTypes

def appendAbiType (type : CogIrAbiType) : Module × Option CogIrAbiTypeId :=
  if !m.mutable || COG_IR_ID_INVALID ≤ m.abiTypes.items.length then fail m
  else done { m with abiTypes := m.abiTypes.push type } m.abiTypes.items.length

def internAbiType (candidate : CogIrAbiType) : Module × Option CogIrAbiTypeId :=
  match m.abiTypes.items.findIdx? (· = candidate) with
  | some id => done m id
  | none => m.appendAbiType candidate

-- The fields that a kind of type does not use.
def abiTypeOf (kind : CogIrAbiTypeKind) (runtimeType : CogIrTypeId) : CogIrAbiType where
  kind           := kind
  runtimeType    := runtimeType
  cScalarKind    := .none
  elementType    := COG_IR_ID_INVALID
  parameterTypes := []
  returnType     := COG_IR_ID_INVALID

def abiTypeSemantic (runtimeType : CogIrTypeId) : Module × Option CogIrAbiTypeId :=
  if !m.mutable || (m.getType runtimeType).isNone then fail m
  else m.internAbiType (abiTypeOf .semantic runtimeType)

def abiTypeCScalar (runtimeType : CogIrTypeId) (scalar : CogIrCScalarKind) : Module × Option CogIrAbiTypeId :=
  if !m.mutable || (m.getType runtimeType).isNone || scalar = .none then fail m
  else m.internAbiType { abiTypeOf .cScalar runtimeType with cScalarKind := scalar }

def abiTypePointer (runtimeType : CogIrTypeId) (elementType : CogIrAbiTypeId) : Module × Option CogIrAbiTypeId :=
  if !m.mutable || !(m.getType runtimeType).any isPointer || (m.getAbiType elementType).isNone then fail m
  else m.internAbiType { abiTypeOf .pointer runtimeType with elementType := elementType }

def abiTypeOpaquePointer (runtimeType : CogIrTypeId) : Module × Option CogIrAbiTypeId :=
  if !m.mutable || !(m.getType runtimeType).any isOpaquePointer then fail m
  else m.internAbiType (abiTypeOf .opaquePointer runtimeType)

def abiTypeArray (runtimeType : CogIrTypeId) (elementType : CogIrAbiTypeId) : Module × Option CogIrAbiTypeId :=
  if !m.mutable || !(m.getType runtimeType).any isArray || (m.getAbiType elementType).isNone then fail m
  else m.internAbiType { abiTypeOf .array runtimeType with elementType := elementType }

def abiTypeFunction (runtimeType : CogIrTypeId) (returnType : CogIrAbiTypeId)
    (parameterTypes : Buffer CogIrAbiTypeId) : Module × Option CogIrAbiTypeId :=
  match (m.getType runtimeType).bind functionType with
  | none => fail m
  | some type =>
    if !m.mutable || (m.getAbiType returnType).isNone || parameterTypes.count ≠ type.parameterTypes.length ||
        parameterTypes.missing then
      fail m
    else if parameterTypes.toList.any fun type => (m.getAbiType type).isNone then fail m
    else
      m.internAbiType { abiTypeOf .function runtimeType with
        parameterTypes := parameterTypes.toList
        returnType     := returnType }

end AbiTypes

section Constants

def appendConstant (constant : CogIrConstant) : Module × Option CogIrConstId :=
  if !m.mutable || COG_IR_ID_INVALID ≤ m.constants.items.length then fail m
  else done { m with constants := m.constants.push constant } m.constants.items.length

def internScalarConstant (candidate : CogIrConstant) : Module × Option CogIrConstId :=
  match m.constants.items.findIdx? (· = candidate) with
  | some id => done m id
  | none => m.appendConstant candidate

def constZero (type : CogIrTypeId) : Module × Option CogIrConstId :=
  if !m.mutable || (m.getType type).isNone then fail m
  else m.internScalarConstant (.zero type)

def constBool (type : CogIrTypeId) (value : Bool) : Module × Option CogIrConstId :=
  if !m.mutable || !(m.getType type).any isBool then fail m
  else m.internScalarConstant (.bool type value)

def constInteger (type : CogIrTypeId) (bits : BitVec 64) : Module × Option CogIrConstId :=
  if !m.mutable || !(m.getType type).any isIntegerOrEnum then fail m
  else m.internScalarConstant (.integer type bits)

def constFloat32 (type : CogIrTypeId) (bits : BitVec 32) : Module × Option CogIrConstId :=
  if !m.mutable || !(m.getType type).any (isFloat 32) then fail m
  else m.internScalarConstant (.float32 type bits)

def constFloat64 (type : CogIrTypeId) (bits : BitVec 64) : Module × Option CogIrConstId :=
  if !m.mutable || !(m.getType type).any (isFloat 64) then fail m
  else m.internScalarConstant (.float64 type bits)

def constNull (type : CogIrTypeId) : Module × Option CogIrConstId :=
  if !m.mutable || !(m.getType type).any isNullable then fail m
  else m.internScalarConstant (.null type)

def addAggregateConstant (kind : CogIrTypeId → List CogIrConstId → CogIrConstant) (type : CogIrTypeId)
    (elements : Buffer CogIrConstId) : Module × Option CogIrConstId :=
  if !m.mutable || (m.getType type).isNone || elements.missing then fail m
  else if elements.toList.any fun element => (m.getConstant element).isNone then fail m
  else m.appendConstant (kind type elements.toList)

def constArray (type : CogIrTypeId) (elements : Buffer CogIrConstId) : Module × Option CogIrConstId :=
  if !(m.getType type).any isArray then fail m
  else m.addAggregateConstant .array type elements

def constStruct (type : CogIrTypeId) (fields : Buffer CogIrConstId) : Module × Option CogIrConstId :=
  if !(m.getType type).any isStruct then fail m
  else m.addAggregateConstant .struct type fields

end Constants

section Functions

def addGlobal (global : CogIrGlobal) : Module × Option CogIrGlobalId :=
  if !m.mutable || (m.getType global.type).isNone ||
      (global.abiType ≠ COG_IR_ID_INVALID && (m.getAbiType global.abiType).isNone) ||
      (m.getConstant global.staticInitializer).isNone || COG_IR_ID_INVALID ≤ m.globals.items.length then
    fail m
  else
    done { m with globals := m.globals.push global } m.globals.items.length

-- `append_value` adds a value to a function that belongs to the module.
def appendValue (function : CogIrFunction) (type : CogIrTypeId) (kind : CogIrValueKind) (block : CogIrBlockId)
    (ordinal : Nat) (span : SourceSpan) : CogIrFunction × Option CogIrValueId :=
  if (m.getType type).isNone || COG_IR_ID_INVALID ≤ function.values.items.length then fail function
  else
    let value := { type, abiType := COG_IR_ID_INVALID, kind, block, ordinal, span }
    done { function with values := function.values.push value } function.values.items.length

-- The exact spelling is kept for the parameters that are C functions.
def parameterAbi (abi : Option CogIrFunctionAbi) (i : Nat) : CogIrAbiTypeId :=
  match abi.bind (·.parameterAbiTypes.toList[i]?) with
  | none => COG_IR_ID_INVALID
  | some type => if (m.getAbiType type).any (·.kind = .function) then type else COG_IR_ID_INVALID

-- The loop over the parameters of a new function, from the one with the given ordinal.
def appendParameters (abi : Option CogIrFunctionAbi) (span : SourceSpan) (ordinal : Nat) :
    List CogIrTypeId → CogIrFunction → CogIrFunction × Option Unit
  | [], function => done function ()
  | type :: types, function =>
    match m.appendValue function type .functionParameter COG_IR_ID_INVALID ordinal span with
    | (function, none) => fail function
    | (function, some value) =>
      let written := fun (entry : CogIrValue) => { entry with abiType := m.parameterAbi abi ordinal }
      appendParameters abi span (ordinal + 1) types
        { function with
          parameters := function.parameters ++ [value]
          values     := { function.values with items := function.values.items.modify value written } }

def abiMismatch (abi : CogIrFunctionAbi) (type : FunctionType) : Bool :=
  abi.abi ≠ type.abi || abi.callingConvention ≠ type.callingConvention || abi.isVariadic ≠ type.isVariadic ||
    abi.parameterAbiTypes.count ≠ type.parameterTypes.length || abi.parameterAbiTypes.missing

def addFunction (debugName : String) (span : SourceSpan) (functionTypeId : CogIrTypeId) (kind : CogIrFunctionKind)
    (linkage : CogIrLinkage) (isCompilerGenerated : Bool) (abi : Option CogIrFunctionAbi) :
    Module × Option CogIrFunctionId :=
  match (m.getType functionTypeId).bind functionType with
  | none => fail m
  | some type =>
    if !m.mutable || COG_IR_ID_INVALID ≤ m.functions.items.length then fail m
    else if abi.any (abiMismatch · type) then fail m
    else
      let function : CogIrFunction :=
        { debugName, span, type := functionTypeId, kind, linkage, isCompilerGenerated
          abi := abi.getD
            { abi               := type.abi
              callingConvention := type.callingConvention
              isVariadic        := type.isVariadic
              externalSymbol    := ""
              returnAbiType     := COG_IR_ID_INVALID
              parameterAbiTypes := .null 0 }
          values     := .empty
          parameters := []
          slots      := .empty
          blocks     := .empty
          entryBlock := COG_IR_ID_INVALID }
      -- The function is part of the module before its parameters are.
      match m.appendParameters abi span 0 type.parameterTypes function with
      | (function, none) => fail { m with functions := m.functions.push function }
      | (function, some ()) => done { m with functions := m.functions.push function } m.functions.items.length

def beginFunctionDefinition (id : CogIrFunctionId) : Module × Option Unit :=
  if !m.mutable then fail m
  else
    match m.getFunction id with
    | none => fail m
    | some function =>
      if function.kind ≠ .declaration || function.linkage ≠ .internal || function.blocks.items.length ≠ 0 ||
          function.slots.items.length ≠ 0 || function.entryBlock ≠ COG_IR_ID_INVALID then
        fail m
      else done (m.setFunction id { function with kind := .definition }) ()

def setEntryFunction (id : CogIrFunctionId) : Module × Option Unit :=
  if !m.mutable || (m.getFunction id).isNone then fail m
  else done { m with entryFunction := id } ()

def setInitFunction (id : CogIrFunctionId) : Module × Option Unit :=
  if !m.mutable || (m.getFunction id).isNone then fail m
  else done { m with initFunction := id } ()

def addSlot (functionId : CogIrFunctionId) (kind : CogIrSlotKind) (parameterIndex : Option Nat) (debugName : String)
    (span : SourceSpan) (type : CogIrTypeId) : Module × Option CogIrSlotId :=
  if !m.mutable || (m.getType type).isNone || decide (kind = .sourceParameter) ≠ parameterIndex.isSome then fail m
  else
    match m.getFunction functionId with
    | none => fail m
    | some function =>
      if function.kind ≠ .definition || COG_IR_ID_INVALID ≤ function.slots.items.length then fail m
      else
        let slot := { kind, parameterIndex, debugName, span, type, abiType := COG_IR_ID_INVALID }
        done (m.setFunction functionId { function with slots := function.slots.push slot })
          function.slots.items.length

def setSlotAbiType (functionId : CogIrFunctionId) (slotId : CogIrSlotId) (abiType : CogIrAbiTypeId) :
    Module × Option Unit :=
  if !m.mutable then fail m
  else
    match m.getFunction functionId with
    | none => fail m
    | some function =>
      match function.getSlot slotId with
      | none => fail m
      | some slot =>
        if !(m.getAbiType abiType).any (·.runtimeType = slot.type) then fail m
        else
          done (m.setFunction functionId
            { function with slots := function.slots.set slotId { slot with abiType := abiType } }) ()

def setValueAbiType (functionId : CogIrFunctionId) (valueId : CogIrValueId) (abiType : CogIrAbiTypeId) :
    Module × Option Unit :=
  if !m.mutable then fail m
  else
    match m.getFunction functionId with
    | none => fail m
    | some function =>
      match function.getValue valueId with
      | none => fail m
      | some value =>
        if !(m.getAbiType abiType).any (·.runtimeType = value.type) then fail m
        else
          done (m.setFunction functionId
            { function with values := function.values.set valueId { value with abiType := abiType } }) ()

def markValueDiscarded (functionId : CogIrFunctionId) (valueId : CogIrValueId) : Module × Option Unit :=
  if !m.mutable then fail m
  else
    match m.getFunction functionId with
    | none => fail m
    | some function =>
      match function.getValue valueId with
      | none => fail m
      | some value =>
        if value.kind ≠ .instruction then fail m
        else
          match function.getBlock value.block with
          | none => fail m
          | some block =>
            match block.instructions.items[value.ordinal]? with
            | none => fail m
            | some instruction =>
              if instruction.result ≠ valueId || instruction.resultType = COG_IR_ID_INVALID then fail m
              else
                let instruction := { instruction with resultIsDiscarded := true }
                let block := { block with instructions := block.instructions.set value.ordinal instruction }
                done (m.setFunction functionId (function.setBlock value.block block)) ()

def addBlock (functionId : CogIrFunctionId) (debugName : String) (span : SourceSpan) : Module × Option CogIrBlockId :=
  if !m.mutable then fail m
  else
    match m.getFunction functionId with
    | none => fail m
    | some function =>
      if function.kind ≠ .definition || COG_IR_ID_INVALID ≤ function.blocks.items.length then fail m
      else
        let id := function.blocks.items.length
        let block : CogIrBlock :=
          { debugName, span, parameters := .empty, instructions := .empty, terminator := ⟨.none, sourceSpanInvalid⟩ }
        let entryBlock := if function.entryBlock = COG_IR_ID_INVALID then id else function.entryBlock
        done (m.setFunction functionId { function with blocks := function.blocks.push block, entryBlock }) id

def addBlockParameter (functionId : CogIrFunctionId) (blockId : CogIrBlockId) (type : CogIrTypeId)
    (debugName : String) (span : SourceSpan) : Module × Option CogIrValueId :=
  if !m.mutable || (m.getType type).isNone then fail m
  else
    match m.getFunction functionId with
    | none => fail m
    | some function =>
      match function.getBlock blockId with
      | none => fail m
      | some block =>
        let ordinal := block.parameters.items.length
        -- The room for the parameter is there before its value is.
        match m.appendValue (function.setBlock blockId { block with parameters := block.parameters.reserve })
            type .blockParameter blockId ordinal span with
        | (function, none) => fail (m.setFunction functionId function)
        | (function, some value) =>
          let block := { block with parameters := block.parameters.push { value, type, debugName, span } }
          done (m.setFunction functionId (function.setBlock blockId block)) value

def emit (functionId : CogIrFunctionId) (blockId : CogIrBlockId) (input : CogIrInstruction) :
    Module × Option CogIrValueId :=
  if !m.mutable then fail m
  else
    match m.getFunction functionId with
    | none => fail m
    | some function =>
      match function.getBlock blockId with
      | none => fail m
      | some block =>
        if !block.terminator.isNone then fail m
        else
          let ordinal := block.instructions.items.length
          -- The instruction is taken back on a failure, but not the room for it.
          let reserved := function.setBlock blockId { block with instructions := block.instructions.reserve }
          if input.resultType = COG_IR_ID_INVALID then
            let instruction := { input with result := COG_IR_ID_INVALID }
            let block := { block with instructions := block.instructions.push instruction }
            done (m.setFunction functionId (function.setBlock blockId block)) COG_IR_ID_INVALID
          else if (m.getType input.resultType).isNone then fail (m.setFunction functionId reserved)
          else
            match m.appendValue reserved input.resultType .instruction blockId ordinal input.span with
            | (function, none) => fail (m.setFunction functionId function)
            | (function, some value) =>
              let block := { block with instructions := block.instructions.push { input with result := value } }
              done (m.setFunction functionId (function.setBlock blockId block)) value

-- The terminator is written before the cases of a switch are looked at.
def setTerminator (functionId : CogIrFunctionId) (blockId : CogIrBlockId) (input : CogIrTerminator) :
    Module × Option Unit :=
  if !m.mutable || input.isNone then fail m
  else
    match m.getFunction functionId with
    | none => fail m
    | some function =>
      match function.getBlock blockId with
      | none => fail m
      | some block =>
        if !block.terminator.isNone then fail m
        else
          let m := m.setFunction functionId (function.setBlock blockId { block with terminator := input })
          match input.kind with
          | .switch _ cases _ => if cases.missing then fail m else done m ()
          | _ => done m ()

end Functions

end Module

end Coglet.Ir.Builder
