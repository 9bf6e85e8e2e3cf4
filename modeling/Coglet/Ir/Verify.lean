import Coglet.Ir.Builder
import Coglet.Target.Layout

-- The verification of the functions of a module.

namespace Coglet.Ir.Builder

open Ast (SourceSpan)
open Target (TargetInfo)

deriving instance DecidableEq for CogIrOp

def CogIrConstant.type : CogIrConstant → CogIrTypeId
  | zero type | bool type _ | integer type _ | float32 type _ | float64 type _ | null type | array type _
  | struct type _ => type

-- The operands that an instruction reads.
def CogIrPayload.operands : CogIrPayload → List CogIrValueId
  | constant _ | functionRef _ | localAddr _ | globalAddr _ | typeQuery _ => []
  | fieldAddr base _ => [base]
  | indexAddr base index => [base, index]
  | load address _ => [address]
  | store address value _ => [address, value]
  | binary lhs rhs => [lhs, rhs]
  | unary operand => [operand]
  | conversion operand _ => [operand]
  | extract base _ => [base]
  | .aggregate values => values
  | asmStmt _ _ _ inputs _ => inputs
  | call callee arguments => callee :: arguments

def aggregateFields : CogIrNominalBody → List CogIrAggregateField
  | .aggregate fields .. => fields
  | _ => []

def aggregateIsComplete : CogIrNominalBody → Bool
  | .aggregate .. => true
  | _ => false

def asmConstraintIsValidForIr (constraint : String) (isOutput : Bool) : Bool :=
  let characters := constraint.toList
  let offset := if isOutput then 1 else 0
  if constraint = (if isOutput then "=r" else "r") then true
  else if characters.length < offset + 3 then false
  else if isOutput && characters.head? ≠ some '=' then false
  else if characters[offset]? ≠ some '{' || characters.getLast? ≠ some '}' then false
  else (characters.drop (offset + 1)).dropLast.all fun c => c.isAlphanum || c == '_'

-- The greatest number of the type of ordinals stands for the end of a block.
def SIZE_MAX : Nat := 2 ^ 64 - 1

namespace CogIrFunction

variable (function : CogIrFunction)

def valueAvailable (block : CogIrBlockId) (instructionOrdinal : Nat) (valueId : CogIrValueId) : Bool :=
  match function.getValue valueId with
  | none => false
  | some value =>
    match value.kind with
    | .functionParameter => true
    | .blockParameter => value.block = block
    | .instruction =>
      value.block = block && value.ordinal < instructionOrdinal &&
        ((function.blocks.items[value.block]?).bind (·.instructions.items[value.ordinal]?)).any
          (!·.resultIsDiscarded)

def terminatorValueAvailable (block : CogIrBlockId) (valueId : CogIrValueId) : Bool :=
  function.valueAvailable block SIZE_MAX valueId

def valueHasType (type : CogIrTypeId) (valueId : CogIrValueId) : Bool :=
  (function.getValue valueId).any (·.type = type)

def verifyEdge (source : CogIrBlockId) (edge : CogIrBranchEdge) : Bool :=
  (function.getBlock edge.target).any fun target =>
    edge.arguments.length = target.parameters.items.length &&
      (edge.arguments.zip target.parameters.items).all fun pair =>
        function.terminatorValueAvailable source pair.1 && function.valueHasType pair.2.type pair.1

-- The table of values agrees with where the result of an instruction stands.
def verifyResult (block : CogIrBlockId) (ordinal : Nat) (instruction : CogIrInstruction) : Bool :=
  if instruction.resultType = COG_IR_ID_INVALID then
    instruction.result = COG_IR_ID_INVALID && !instruction.resultIsDiscarded
  else
    (function.getValue instruction.result).any fun result =>
      result.type = instruction.resultType && result.kind = .instruction && result.block = block &&
        result.ordinal = ordinal

end CogIrFunction

namespace Module

-- What a module is verified with besides its tables: the target and the lengths of the source files.
variable (target : TargetInfo) (fileLength : Nat → Option Nat) (m : Module) (function : CogIrFunction)

def validSpan (span : SourceSpan) : Bool :=
  if !(span.fileId ≠ 0xFFFFFFFF && 0 < span.line && 0 < span.column) then span.fileId = 0xFFFFFFFF
  else
    (fileLength span.fileId).any fun length => span.startOffset ≤ span.endOffset && span.endOffset ≤ length

def optionalAbiMatchesRuntime (abiType : CogIrAbiTypeId) (runtimeType : CogIrTypeId) : Bool :=
  abiType = COG_IR_ID_INVALID || (m.getAbiType abiType).any (·.runtimeType = runtimeType)

def isIntegerType (id : CogIrTypeId) : Bool :=
  (m.getType id).any isInteger

def isFloatType (id : CogIrTypeId) : Bool :=
  match m.getType id with
  | some (.float _) => true
  | _ => false

def isPointerComparableType (id : CogIrTypeId) : Bool :=
  (m.getType id).any isNullable

def isBoolType (id : CogIrTypeId) : Bool :=
  (m.getType id).any isBool

structure Pointee where
  pointee    : CogIrTypeId
  isReadonly : Bool
  isVolatile : Bool
deriving DecidableEq

def pointerPointee (pointerType : CogIrTypeId) : Option Pointee :=
  match m.getType pointerType with
  | some (.pointer pointee isReadonly isVolatile) => some { pointee, isReadonly, isVolatile }
  | _ => none

def isNativeCIntType : CogIrType → Bool
  | .integer bits isSigned => bits = target.cIntBits && isSigned
  | _ => false

-- The width of an integer type, or of the integers behind a `repr(c)` enumeration.
def cIntegerBits : CogIrType → Option Nat
  | .integer bits _ => some bits
  | .nominal .enum _ (.enumeration backingType _ true _) =>
    match m.getType backingType with
    | some (.integer bits _) => some bits
    | _ => none
  | _ => none

def cVarargPromotionValid (sourceId targetId : CogIrTypeId) : Bool :=
  match m.getType sourceId, m.getType targetId with
  | some source, some destination =>
    sourceId ≠ targetId &&
      match source with
      | .bool => isNativeCIntType target destination
      | .float bits => bits = 32 && destination = .float 64
      | _ => (m.cIntegerBits source).any (· < target.cIntBits) && isNativeCIntType target destination
  | _, _ => false

def cVarargArgumentTypeIsLegal (typeId : CogIrTypeId) : Bool :=
  match m.getType typeId with
  | none => false
  | some type =>
    match type with
    | .integer .. | .nominal .enum .. => (m.cIntegerBits type).any (target.cIntBits ≤ ·)
    | .float bits => bits = 64
    | .pointer .. | .opaquePointer .. => true
    | .function _ _ abi _ _ => abi = .c
    | .void | .bool | .array .. | .nominal .struct .. | .nominal .union .. => false

def typeHasRuntimeObjectLayout : CogIrType → Bool
  | .void => false
  | .function _ _ abi _ _ => abi = .c
  | .nominal .struct _ body | .nominal .union _ body => aggregateIsComplete body
  | .bool | .integer .. | .float _ | .pointer .. | .opaquePointer .. | .array .. | .nominal .enum .. => true

-- The type of a value, as far as there is one.
def valueType (id : CogIrValueId) : Option CogIrType :=
  (function.getValue id).bind fun value => m.getType value.type

section Operations

variable (op : CogIrOp) (resultType : CogIrTypeId)

def verifyTypeQuery (queriedType : CogIrTypeId) : Bool :=
  (m.getType queriedType).any typeHasRuntimeObjectLayout &&
    m.getType resultType = some (.integer target.pointerBits false)

def verifyLoad (address : CogIrValueId) (isVolatile : Bool) : Bool :=
  ((function.getValue address).bind fun value => m.pointerPointee value.type).any fun pointer =>
    pointer.pointee = resultType && (!pointer.isVolatile || isVolatile)

def verifyStore (address value : CogIrValueId) (isVolatile : Bool) : Bool :=
  resultType = COG_IR_ID_INVALID &&
    ((function.getValue address).bind fun value => m.pointerPointee value.type).any fun pointer =>
      !pointer.isReadonly && function.valueHasType pointer.pointee value && (!pointer.isVolatile || isVolatile)

def verifyShift (lhs rhs : CogIrTypeId) : Bool :=
  match m.getType lhs with
  | some (.integer _ isSigned) =>
    m.isIntegerType rhs && lhs = resultType &&
      match op with
      | .shrSignedCheckedCount => isSigned
      | .shrUnsignedCheckedCount => !isSigned
      | _ => true
  | _ => false

def verifyIntegerComparison (lhs rhs : CogIrTypeId) : Bool :=
  lhs = rhs && m.isBoolType resultType &&
    match m.getType lhs with
    | some (.integer _ isSigned) =>
      match op with
      | .icmpSlt | .icmpSle | .icmpSgt | .icmpSge => isSigned
      | .icmpUlt | .icmpUle | .icmpUgt | .icmpUge => !isSigned
      | _ => true
    | some (.nominal .enum ..) | some .bool => true
    | _ => false

def verifyBinary (lhs rhs : CogIrTypeId) : Bool :=
  match op with
  | .iaddChecked | .isubChecked | .imulChecked | .idivChecked | .iremChecked | .iaddWrap | .isubWrap | .imulWrap
  | .bitAnd | .bitOr | .bitXor => m.isIntegerType lhs && lhs = rhs && lhs = resultType
  | .shlCheckedCount | .shrSignedCheckedCount | .shrUnsignedCheckedCount => m.verifyShift op resultType lhs rhs
  | .fadd | .fsub | .fmul | .fdiv => m.isFloatType lhs && lhs = rhs && lhs = resultType
  | .icmpEq | .icmpNe | .icmpSlt | .icmpSle | .icmpSgt | .icmpSge | .icmpUlt | .icmpUle | .icmpUgt | .icmpUge =>
    m.verifyIntegerComparison op resultType lhs rhs
  | .fcmpEq | .fcmpNe | .fcmpLt | .fcmpLe | .fcmpGt | .fcmpGe =>
    m.isFloatType lhs && lhs = rhs && m.isBoolType resultType
  | .ptrEq | .ptrNe => lhs = rhs && m.isPointerComparableType lhs && m.isBoolType resultType
  | _ => false

def verifyUnary (operand : CogIrTypeId) : Bool :=
  match op with
  | .inegChecked | .inegWrap | .bitNot => m.isIntegerType operand && operand = resultType
  | .fneg => m.isFloatType operand && operand = resultType
  | .boolNot => m.isBoolType operand && operand = resultType
  | _ => false

def isNumeric : CogIrType → Bool
  | .integer .. | .float _ => true
  | _ => false

def verifyQualify : CogIrType → CogIrType → Bool
  | .pointer pointee isReadonly isVolatile, .pointer pointee' isReadonly' isVolatile' =>
    pointee = pointee' && (!isReadonly || isReadonly') && (!isVolatile || isVolatile')
  | .opaquePointer isReadonly isVolatile, .opaquePointer isReadonly' isVolatile' =>
    (!isReadonly || isReadonly') && (!isVolatile || isVolatile')
  | _, _ => false

def verifyReinterpret : CogIrType → CogIrType → Bool
  | .pointer _ isReadonly isVolatile, .opaquePointer isReadonly' isVolatile'
  | .opaquePointer isReadonly isVolatile, .pointer _ isReadonly' isVolatile' =>
    (!isReadonly || isReadonly') && (!isVolatile || isVolatile')
  | _, _ => false

def isEnum : CogIrType → Bool
  | .nominal .enum .. => true
  | _ => false

def verifyConversion (operand targetType : CogIrTypeId) : Bool :=
  targetType = resultType &&
    match m.getType operand, m.getType resultType with
    | some source, some destination =>
      match op with
      | .ptrQualify => verifyQualify source destination
      | .castChecked =>
        operand = resultType || isNumeric source && isNumeric destination || isEnum source && isInteger destination
      | .intTruncate => isInteger source && isInteger destination
      | .ptrReinterpret => verifyReinterpret source destination
      | .cVarargPromote => m.cVarargPromotionValid target operand resultType
      | _ => false
    | _, _ => false

def verifyAsm (outputConstraint : String) (inputConstraints : List String) (inputs : List CogIrValueId) : Bool :=
  let isReadWrite := outputConstraint = "+r"
  (isReadWrite || asmConstraintIsValidForIr outputConstraint true) && m.isIntegerType resultType &&
    !(isReadWrite && inputs.isEmpty) &&
    inputs.zipIdx.all fun input =>
      function.valueHasType resultType input.1 &&
        (inputConstraints[input.2]?).any fun constraint =>
          isReadWrite && input.2 = 0 && constraint = "+r" || asmConstraintIsValidForIr constraint false

def verifyArgument (parameterTypes : List CogIrTypeId) (abi : CogIrAbiRepresentation) (isVariadic : Bool) (i : Nat)
    (argument : CogIrTypeId) : Bool :=
  match parameterTypes[i]? with
  | some type => argument = type
  | none => !(isVariadic && abi = .c) || m.cVarargArgumentTypeIsLegal target argument

def verifyCall (callee : CogIrValueId) (arguments : List CogIrValueId) : Bool :=
  (function.getValue callee).any fun value =>
    match m.getType value.type with
    | some (.function result parameterTypes abi _ isVariadic) =>
      (abi ≠ .c || (m.getAbiType value.abiType).any fun type =>
        type.kind = .function && type.runtimeType = value.type) &&
      parameterTypes.length ≤ arguments.length && (isVariadic || arguments.length = parameterTypes.length) &&
      (arguments.zipIdx.all fun argument =>
        (function.getValue argument.1).any (m.verifyArgument target parameterTypes abi isVariadic argument.2 ·.type)) &&
      match m.getType result with
      | none => false
      | some .void => resultType = COG_IR_ID_INVALID
      | some _ => resultType = result
    | _ => false

def verifyFieldAddr (base : CogIrValueId) (fieldIndex : Nat) : Bool :=
  ((function.getValue base).bind fun value => m.pointerPointee value.type).any fun pointer =>
    match m.getType pointer.pointee with
    | some (.nominal .struct _ body) | some (.nominal .union _ body) =>
      ((aggregateFields body)[fieldIndex]?).any fun field =>
        m.pointerPointee resultType = some { pointer with pointee := field.type }
    | _ => false

def verifyArrayElemAddr (base index : CogIrValueId) : Bool :=
  (((function.getValue base).bind fun value => m.pointerPointee value.type).any fun pointer =>
    match m.getType pointer.pointee with
    | some (.array elementType _) => m.pointerPointee resultType = some { pointer with pointee := elementType }
    | _ => false) && (function.getValue index).any (m.isIntegerType ·.type)

def verifyPtrIndexAddr (base index : CogIrValueId) : Bool :=
  function.valueHasType resultType base && (m.pointerPointee resultType).isSome &&
    (function.getValue index).any (m.isIntegerType ·.type)

def verifyMakeStruct (values : List CogIrValueId) : Bool :=
  match m.getType resultType with
  | some (.nominal .struct _ body) =>
    aggregateIsComplete body && values.length = (aggregateFields body).length &&
      (values.zip (aggregateFields body)).all fun value => function.valueHasType value.2.type value.1
  | _ => false

def verifyMakeArray (values : List CogIrValueId) : Bool :=
  match m.getType resultType with
  | some (.array elementType length) => values.length = length && values.all (function.valueHasType elementType)
  | _ => false

def verifyExtractField (aggregate : CogIrValueId) (index : Nat) : Bool :=
  match m.valueType function aggregate with
  | some (.nominal .struct _ body) | some (.nominal .union _ body) =>
    ((aggregateFields body)[index]?).any (·.type = resultType)
  | _ => false

def verifyExtractElement (aggregate : CogIrValueId) (index : Nat) : Bool :=
  match m.valueType function aggregate with
  | some (.array elementType length) => index < length && elementType = resultType
  | _ => false

end Operations

-- The rules for the types of an instruction. An operation has the payload that belongs to it.
def verifyOperation (instruction : CogIrInstruction) : Bool :=
  let op := instruction.op
  let resultType := instruction.resultType
  match instruction.payload with
  | .constant constant =>
    op = .const && resultType ≠ COG_IR_ID_INVALID && (m.getConstant constant).any (·.type = resultType)
  | .functionRef target => op = .functionRef && (m.getFunction target).any (·.type = resultType)
  | .typeQuery queriedType => (op = .sizeOf || op = .alignOf) && m.verifyTypeQuery target resultType queriedType
  | .localAddr slot =>
    op = .localAddr && (function.getSlot slot).any fun slot =>
      (m.pointerPointee resultType).any fun pointer => !pointer.isReadonly && pointer.pointee = slot.type
  | .globalAddr global =>
    op = .globalAddr && (lookup m.globals.items global).any fun global =>
      (m.pointerPointee resultType).any fun pointer =>
        pointer.pointee = global.type && pointer.isReadonly = global.isReadonly
  | .load address isVolatile => op = .load && m.verifyLoad function resultType address isVolatile
  | .store address value isVolatile => op = .store && m.verifyStore function resultType address value isVolatile
  | .binary lhs rhs =>
    (function.getValue lhs).any fun lhs =>
      (function.getValue rhs).any fun rhs => m.verifyBinary op resultType lhs.type rhs.type
  | .unary operand => (function.getValue operand).any fun operand => m.verifyUnary op resultType operand.type
  | .conversion operand targetType =>
    (function.getValue operand).any fun operand => m.verifyConversion target op resultType operand.type targetType
  | .asmStmt _ outputConstraint inputConstraints inputs _ =>
    op = .asm && m.verifyAsm function resultType outputConstraint inputConstraints inputs
  | .call callee arguments => op = .call && m.verifyCall target function resultType callee arguments
  | .fieldAddr base fieldIndex => op = .fieldAddr && m.verifyFieldAddr function resultType base fieldIndex
  | .indexAddr base index =>
    op = .arrayElemAddr && m.verifyArrayElemAddr function resultType base index ||
      op = .ptrIndexAddr && m.verifyPtrIndexAddr function resultType base index
  | .aggregate values =>
    op = .makeStruct && m.verifyMakeStruct function resultType values ||
      op = .makeArray && m.verifyMakeArray function resultType values
  | .extract aggregate index =>
    op = .extractField && m.verifyExtractField function resultType aggregate index ||
      op = .extractElement && m.verifyExtractElement function resultType aggregate index

def verifyInstruction (block : CogIrBlockId) (ordinal : Nat) (instruction : CogIrInstruction) : Bool :=
  validSpan fileLength instruction.span && function.verifyResult block ordinal instruction &&
    instruction.payload.operands.all (function.valueAvailable block ordinal) &&
    m.verifyOperation target function instruction

def verifyBlockParameter (block : CogIrBlockId) (ordinal : Nat) (parameter : CogIrBlockParam) : Bool :=
  ((function.getValue parameter.value).any fun value =>
    value.kind = .blockParameter && value.block = block && value.ordinal = ordinal && value.type = parameter.type) &&
    (m.getType parameter.type).isSome

def verifySwitchCases (source : CogIrBlockId) (value : CogIrValueId) (cases : List CogIrSwitchCase) : Bool :=
  (cases.map (·.key)).Nodup && cases.all fun case =>
    ((m.getConstant case.key).any fun key => function.valueHasType key.type value) &&
      function.verifyEdge source case.edge

def isSwitchable : CogIrType → Bool
  | .integer .. | .bool | .nominal .enum .. => true
  | _ => false

def verifyReturn (resultType : CogIrTypeId) (source : CogIrBlockId) (value : Option CogIrValueId) : Bool :=
  match m.getType resultType with
  | none => false
  | some .void => value.isNone
  | some _ =>
    value.any fun value => function.terminatorValueAvailable source value && function.valueHasType resultType value

def verifyTerminator (resultType : CogIrTypeId) (source : CogIrBlockId) (terminator : CogIrTerminator) : Bool :=
  validSpan fileLength terminator.span &&
    match terminator.kind with
    | .none => false
    | .br edge => function.verifyEdge source edge
    | .condBr condition ifTrue ifFalse =>
      function.terminatorValueAvailable source condition && (m.valueType function condition).any isBool &&
        function.verifyEdge source ifTrue && function.verifyEdge source ifFalse
    | .switch value cases defaultEdge =>
      function.terminatorValueAvailable source value && (m.valueType function value).any isSwitchable &&
        m.verifySwitchCases function source value cases.toList && function.verifyEdge source defaultEdge
    | .ret value => m.verifyReturn function resultType source value
    | .trap _ | .unreachable => true

def verifyBlock (resultType : CogIrTypeId) (id : CogIrBlockId) (block : CogIrBlock) : Bool :=
  validSpan fileLength block.span &&
    (block.parameters.items.zipIdx.all fun parameter => m.verifyBlockParameter function id parameter.2 parameter.1) &&
    (block.instructions.items.zipIdx.all fun instruction =>
      m.verifyInstruction target fileLength function id instruction.2 instruction.1) &&
    m.verifyTerminator fileLength function resultType id block.terminator

def verifySlot (parameterTypes : List CogIrTypeId) (slot : CogIrSlot) : Bool :=
  (if slot.kind = .sourceParameter then slot.parameterIndex.any (parameterTypes[·]? = some slot.type)
    else slot.parameterIndex.isNone) &&
    (m.getType slot.type).isSome && validSpan fileLength slot.span && m.optionalAbiMatchesRuntime slot.abiType slot.type

def verifyParameter (parameterTypes : List CogIrTypeId) (ordinal : Nat) (parameter : CogIrValueId) : Bool :=
  (function.getValue parameter).any fun value =>
    value.kind = .functionParameter && value.ordinal = ordinal && parameterTypes[ordinal]? = some value.type

def verifyBody (resultType : CogIrTypeId) (parameterTypes : List CogIrTypeId) : Bool :=
  (function.getBlock function.entryBlock).isSome &&
    (function.parameters.zipIdx.all fun parameter =>
      verifyParameter function parameterTypes parameter.2 parameter.1) &&
    function.slots.items.all (m.verifySlot fileLength parameterTypes) &&
    function.blocks.items.zipIdx.all fun block => m.verifyBlock target fileLength function resultType block.2 block.1

def verifyFunction : Bool :=
  match m.getType function.type with
  | some (.function resultType parameterTypes abi callingConvention isVariadic) =>
    validSpan fileLength function.span &&
      (function.abi.abi = abi && function.abi.callingConvention = callingConvention &&
        function.abi.isVariadic = isVariadic && function.parameters.length = parameterTypes.length) &&
      !(function.linkage = .external && function.kind ≠ .declaration) &&
      function.values.items.all (fun value => m.optionalAbiMatchesRuntime value.abiType value.type) &&
      match function.kind with
      | .declaration =>
        function.blocks.items.isEmpty && function.slots.items.isEmpty && function.entryBlock = COG_IR_ID_INVALID
      | .definition => m.verifyBody target fileLength function resultType parameterTypes
  | _ => false

section Tables

-- The spans of the fields of aggregates are left out.
def verifyType : CogIrType → Bool
  | .void | .bool | .opaquePointer .. => true
  | .integer bits _ => bits = 8 || bits = 16 || bits = 32 || bits = 64
  | .float bits => bits = 32 || bits = 64
  | .pointer pointee _ _ => (m.getType pointee).isSome
  | .array elementType _ => (m.getType elementType).isSome
  | .nominal .struct _ body | .nominal .union _ body =>
    match body with
    | .incomplete => true
    | .aggregate fields _ _ _ => fields.all fun field => (m.getType field.type).isSome
    | _ => false
  | .nominal .enum _ body =>
    match body with
    | .enumeration backingType _ isReprC backingAbiType =>
      m.isIntegerType backingType && (!isReprC || backingAbiType.any fun type => (m.getAbiType type).isSome)
    | _ => false
  | .function resultType parameterTypes abi callingConvention isVariadic =>
    !(isVariadic && (abi ≠ .c || callingConvention = .stdcall)) && (m.getType resultType).isSome &&
      parameterTypes.all fun type => (m.getType type).any (· ≠ .void)

def integerWidth (id : CogIrTypeId) : Nat :=
  match m.getType id with
  | some (.integer bits _) => bits
  | some (.nominal .enum _ (.enumeration backingType _ _ _)) =>
    match m.getType backingType with
    | some (.integer bits _) => bits
    | _ => 0
  | _ => 0

def constantHasType (type : CogIrTypeId) (id : CogIrConstId) : Bool :=
  (m.getConstant id).any (·.type = type)

def constantMatchesType (constant : CogIrConstant) : Bool :=
  (m.getType constant.type).any fun type =>
    match constant with
    | .zero _ => type ≠ .void
    | .bool _ _ => isBool type
    | .integer id bits => m.integerWidth id ≠ 0 && (64 ≤ m.integerWidth id || bits >>> m.integerWidth id = 0)
    | .float32 _ _ => isFloat 32 type
    | .float64 _ _ => isFloat 64 type
    | .null _ => isNullable type
    | .array _ elements =>
      match type with
      | .array elementType length => elements.length = length && elements.all (m.constantHasType elementType)
      | _ => false
    | .struct _ elements =>
      match type with
      | .nominal .struct _ (.aggregate fields _ _ _) =>
        elements.length = fields.length && (elements.zip fields).all fun element =>
          m.constantHasType element.2.type element.1
      | _ => false

def isZero : CogIrConstant → Bool
  | .zero _ => true
  | _ => false

def verifyGlobal (global : CogIrGlobal) : Bool :=
  (m.getType global.type).isSome &&
    ((m.getConstant global.staticInitializer).any fun initializer =>
      initializer.type = global.type && (global.isCompilerGenerated || isZero initializer)) &&
    validSpan fileLength global.span && m.optionalAbiMatchesRuntime global.abiType global.type

-- The type of a function that takes nothing and has the given result.
def isNullary (type : CogIrTypeId) (result : CogIrType) : Bool :=
  match m.getType type with
  | some (.function resultType [] .coglet .default false) => m.getType resultType = some result
  | _ => false

def verifyEntryFunction : Bool :=
  m.entryFunction = COG_IR_ID_INVALID || (m.getFunction m.entryFunction).any fun entry =>
    entry.kind = .definition && entry.linkage = .internal && !entry.isCompilerGenerated &&
      m.entryFunction ≠ m.initFunction && m.isNullary entry.type (.integer 32 true)

def verifyInitFunction : Bool :=
  m.initFunction = COG_IR_ID_INVALID || (m.getFunction m.initFunction).any fun init =>
    init.kind = .definition && init.linkage = .internal && init.isCompilerGenerated && m.isNullary init.type .void

end Tables

-- The function `cog_ir_verify`
def verify : Bool :=
  m.hasArena && target.validate.isOk &&
    (m.types.items.all fun entry => validSpan fileLength entry.span && m.verifyType entry.content) &&
    (m.abiTypes.items.all fun type => (m.getType type.runtimeType).isSome) &&
    m.constants.items.all m.constantMatchesType && m.globals.items.all (m.verifyGlobal fileLength) &&
    m.functions.items.all (m.verifyFunction target fileLength) && m.verifyEntryFunction && m.verifyInitFunction

end Module

end Coglet.Ir.Builder
