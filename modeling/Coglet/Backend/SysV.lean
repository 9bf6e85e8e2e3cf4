import Coglet.Backend.LlvmLayout
import Coglet.Lib.RegisterPassing

open StructLayout RegisterPassing
open Coglet.Ir (AggregateHeader)
open Coglet.Target (AbiShape ObjectField TargetInfo)

-- How the LLVM backend passes the arguments and results of C functions.

namespace Coglet.Backend.Llvm

inductive SysVClass
  | noClass | integer | sse | memory
deriving DecidableEq, Repr

structure SysVClassification where
  classes   : Nat → SysVClass
  usedBytes : Nat → Nat
  memory    : Bool

def mergeSysvClass (a b : SysVClass) : SysVClass :=
  if a = b then a
  else if a = .noClass then b
  else if b = .noClass then a
  else if a = .memory ∨ b = .memory then .memory
  else if a = .integer ∨ b = .integer then .integer
  else .sse

namespace SysVClassification

def empty : SysVClassification :=
  ⟨fun _ => .noClass, fun _ => 0, false⟩

def toMemory (out : SysVClassification) : SysVClassification :=
  { out with memory := true }

-- A round of the loop in `sysv_mark_range`.
def markChunk (stop : Nat) (cls : SysVClass) (out : SysVClassification) (chunk : Nat) : SysVClassification :=
  if out.memory then
    out
  else if chunk ≥ 2 then
    out.toMemory
  else
    let merged := mergeSysvClass (out.classes chunk) cls
    let out := { out with classes := fun k => if k = chunk then merged else out.classes k }
    if merged = .memory then
      out.toMemory
    else
      let used := (if stop < chunk * 8 + 8 then stop else chunk * 8 + 8) - chunk * 8
      if used > out.usedBytes chunk then
        { out with usedBytes := fun k => if k = chunk then used else out.usedBytes k }
      else
        out

-- `sysv_mark_range`
def markRange (out : SysVClassification) (offset size : Nat) (cls : SysVClass) : SysVClassification :=
  if out.memory ∨ size = 0 then
    out
  else if offset + size > 16 then
    out.toMemory
  else
    (List.range' (offset / 8) ((offset + size - 1) / 8 + 1 - offset / 8)).foldl (markChunk (offset + size) cls) out

end SysVClassification

def isMisaligned (align offset : Nat) : Bool :=
  align ≠ 0 && offset % align ≠ 0

-- The loop over the elements of an array. It is left when the object is known to be passed in memory.
def classifyElements (l : Layout) (base : Nat)
    (classify : Nat → SysVClassification → Option SysVClassification) (index : Nat) :
    Nat → SysVClassification → Option SysVClassification
  | 0, out => some out
  | count + 1, out =>
    if isMisaligned l.align (base + l.size * index) then
      some out.toMemory
    else do
      let out ← classify (base + l.size * index) out
      if out.memory then some out else classifyElements l base classify (index + 1) count out

def isPointerAbi : AbiShape → Bool
  | .pointer | .opaquePointer | .function => true
  | _ => false

def runtimeIsAggregate : Ir.ObjectType → Bool
  | .aggregate .. | .array .. => true
  | _ => false

section Classify

variable (dl : DataLayout) (target : TargetInfo)

def markObject (abi : AbiShape) (runtime : Ir.ObjectType) (base : Nat) (cls : SysVClass) (out : SysVClassification) :
    Option SysVClassification := do
  let storage ← lowerCObjectType dl target abi runtime
  some (out.markRange base (dl.layout storage).size cls)

def scalarClass : Ir.ObjectType → SysVClass
  | .float _ => .sse
  | _ => .integer

-- The check of `llvm_repr_c_field_offset`
def structFieldOffset (header : AggregateHeader) (fields : List (ObjectField Ir.ObjectType)) (index : Nat) : Option Nat :=
  if header.isReprC then reprCFieldOffset dl target header fields index else none

mutual

-- `classify_sysv_object`, with `classify_sysv_runtime_aggregate` in its place
def classifySysvObject (abi : AbiShape) (runtime : Ir.ObjectType) (base : Nat) (out : SysVClassification) :
    Option SysVClassification :=
  match runtime with
  | .array element length =>
    match abi with
    | .array elementAbi => do
      let storage ← lowerCObjectType dl target elementAbi element
      classifyElements (dl.layout storage) base (classifySysvObject elementAbi element) 0 length out
    | .pointer | .opaquePointer | .function => markObject dl target abi (.array element length) base .integer out
    | .semantic | .cScalar _ => do
      let storage ← lowerType dl target (.array element length)
      if (dl.layout storage).size > 16 then some out.toMemory else none
  | .aggregate header fields =>
    match abi with
    | .array _ => none
    | .pointer | .opaquePointer | .function => markObject dl target abi (.aggregate header fields) base .integer out
    | .semantic | .cScalar _ => do
      let storage ← lowerType dl target (.aggregate header fields)
      if (dl.layout storage).size > 16 then some out.toMemory
      else if header.isUnion then classifyUnionFields base fields out
      else classifyStructFields header fields base 0 fields out
  | .enum backing isReprC backingAbi =>
    match abi with
    | .array _ => none
    | .pointer | .opaquePointer | .function =>
      markObject dl target abi (.enum backing isReprC backingAbi) base .integer out
    | .semantic | .cScalar _ =>
      if isReprC then classifySysvObject backingAbi backing base out
      else markObject dl target abi (.enum backing isReprC backingAbi) base .integer out
  | scalar =>
    match abi with
    | .array _ => none
    | .pointer | .opaquePointer | .function => markObject dl target abi scalar base .integer out
    | .semantic | .cScalar _ => markObject dl target abi scalar base (scalarClass scalar) out

def classifySysvField (base : Nat) (out : SysVClassification) : ObjectField Ir.ObjectType → Option SysVClassification
  | ⟨type, abi⟩ => classifySysvObject abi type base out

def classifyStructFields (header : AggregateHeader) (all : List (ObjectField Ir.ObjectType)) (base index : Nat) :
    List (ObjectField Ir.ObjectType) → SysVClassification → Option SysVClassification
  | [], out => some out
  | field :: fields, out => do
    let storage ← lowerCObjectType dl target field.abi field.type
    let offset ← structFieldOffset dl target header all index
    if isMisaligned (dl.layout storage).align (base + offset) then
      some out.toMemory
    else do
      let out ← classifySysvField (base + offset) out field
      if out.memory then some out else classifyStructFields header all base (index + 1) fields out

def classifyUnionFields (base : Nat) :
    List (ObjectField Ir.ObjectType) → SysVClassification → Option SysVClassification
  | [], out => some out
  | field :: fields, out => do
    let storage ← lowerCObjectType dl target field.abi field.type
    if isMisaligned (dl.layout storage).align base then
      some out.toMemory
    else do
      let out ← classifySysvField base out field
      if out.memory then some out else classifyUnionFields base fields out

end

end Classify

inductive LlvmCAbiPassKind
  | direct | coerce | indirect
deriving DecidableEq, Repr

structure LlvmCAbiValuePlan where
  kind               : LlvmCAbiPassKind
  storageType        : Option LlvmType
  components         : List LlvmType
  alignment          : Nat
  llvmParameterStart : Nat
  isAggregate        : Bool
  isSret             : Bool
  isByval            : Bool

structure LlvmCAbiSignature where
  result             : LlvmCAbiValuePlan
  parameters         : List LlvmCAbiValuePlan
  llvmParameterCount : Nat

inductive CallingConvention
  | default | cdecl | stdcall | sysv64 | win64
deriving DecidableEq, Repr

-- What `target_is_x86_family` tells of the target triple.
structure Triple where
  isX86_64  : Bool
  isWindows : Bool
deriving DecidableEq, Repr

-- The register that an eightbyte is coerced to.
def sysvComponent (cls : SysVClass) (used : Nat) : Option LlvmType :=
  match cls with
  | .integer => some (.int (used * 8))
  | .sse => some (if used ≤ 4 then .float else .double)
  | .noClass | .memory => none

def sysvComponents (out : SysVClassification) : List Nat → Option (List LlvmType)
  | [] => some []
  | i :: is =>
    if out.classes i = .noClass ∨ out.usedBytes i = 0 then
      sysvComponents out is
    else do
      let component ← sysvComponent (out.classes i) (out.usedBytes i)
      let components ← sysvComponents out is
      some (component :: components)

section Plan

variable (dl : DataLayout) (target : TargetInfo)

def indirectPlan (storage : LlvmType) (alignment : Nat) (isSret isByval : Bool) : LlvmCAbiValuePlan :=
  ⟨.indirect, some storage, [.ptr], alignment, 0, true, isSret, isByval⟩

def coercePlan (storage : LlvmType) (alignment : Nat) (components : List LlvmType) : LlvmCAbiValuePlan :=
  ⟨.coerce, some storage, components, alignment, 0, true, false, false⟩

def sysvClassification (abi : AbiShape) (runtime : Ir.ObjectType) (size : Nat) : Option SysVClassification :=
  if size > 16 then some SysVClassification.empty.toMemory else classifySysvObject dl target abi runtime 0 .empty

def classifySysvAggregate (abi : AbiShape) (runtime : Ir.ObjectType) (isReturn : Bool) : Option LlvmCAbiValuePlan := do
  let storage ← lowerCObjectType dl target abi runtime
  let cls ← sysvClassification dl target abi runtime (dl.layout storage).size
  if cls.memory then
    some (indirectPlan storage (dl.layout storage).align isReturn !isReturn)
  else do
    let components ← sysvComponents cls [0, 1]
    if components.isEmpty then none else some (coercePlan storage (dl.layout storage).align components)

def classifyWin64Aggregate (abi : AbiShape) (runtime : Ir.ObjectType) (isReturn : Bool) : Option LlvmCAbiValuePlan := do
  let storage ← lowerCObjectType dl target abi runtime
  let l := dl.layout storage
  if l.size = 1 ∨ l.size = 2 ∨ l.size = 4 ∨ l.size = 8 then
    some (coercePlan storage l.align [.int (l.size * 8)])
  else
    some (indirectPlan storage l.align isReturn false)

def aggregateAbiIsWin64 (triple : Triple) (convention : CallingConvention) : Option Bool :=
  if !triple.isX86_64 then none
  else match convention with
    | .sysv64 => some false
    | .win64 => some true
    | .default | .cdecl => some triple.isWindows
    | .stdcall => none

-- `lower_scalar_c_abi_value_type`
def lowerScalarCAbiValueType (abi : AbiShape) (runtime : Ir.ObjectType) : Option LlvmType :=
  match abi with
  | .semantic | .cScalar _ => if runtimeIsAggregate runtime then none else lowerType dl target runtime
  | .pointer | .opaquePointer | .function => some .ptr
  | .array _ => none

def isCompleteReprC : Ir.ObjectType → Bool
  | .aggregate header _ => header.isReprC && !header.isIncomplete
  | _ => false

def buildValuePlan (triple : Triple) (convention : CallingConvention) (abi : AbiShape) (runtime : Ir.ObjectType)
    (isReturn : Bool) : Option LlvmCAbiValuePlan :=
  if !runtimeIsAggregate runtime then do
    let direct ← lowerScalarCAbiValueType dl target abi runtime
    some ⟨.direct, none, [direct], 0, 0, false, false, false⟩
  else if !isCompleteReprC runtime then
    none
  else do
    let win64 ← aggregateAbiIsWin64 triple convention
    if win64 then classifyWin64Aggregate dl target abi runtime isReturn
    else classifySysvAggregate dl target abi runtime isReturn

def buildParameters (triple : Triple) (convention : CallingConvention) (count : Nat) :
    List (ObjectField Ir.ObjectType) → Option (List LlvmCAbiValuePlan × Nat)
  | [] => some ([], count)
  | ⟨runtime, abi⟩ :: parameters => do
    let plan ← buildValuePlan dl target triple convention abi runtime false
    let (plans, count') ← buildParameters triple convention (count + plan.components.length) parameters
    some ({ plan with llvmParameterStart := count } :: plans, count')

def buildSignature (triple : Triple) (convention : CallingConvention) (result : ObjectField Ir.ObjectType)
    (parameters : List (ObjectField Ir.ObjectType)) : Option LlvmCAbiSignature := do
  let result ← buildValuePlan dl target triple convention result.abi result.type true
  let (parameters, count) ← buildParameters dl target triple convention (if result.isSret then 1 else 0) parameters
  some ⟨result, parameters, count⟩

end Plan

namespace LlvmCAbiSignature

variable (signature : LlvmCAbiSignature)

-- The parameters of the LLVM function.
def llvmParameters : List LlvmType :=
  (if signature.result.isSret then [.ptr] else []) ++ signature.parameters.flatMap (·.components)

-- `aggregate_return_type`
def llvmResult : LlvmType :=
  if signature.result.kind = .indirect then .void
  else match signature.result.components with
    | [component] => component
    | components => .struct false components

-- The type and the alignment of the `byval` attribute of a parameter, as `apply_value_parameter_attributes` sets them.
def byvalAttribute (index : Nat) : Option (LlvmType × Nat) := do
  let plan ← signature.parameters.find? fun plan => plan.isByval && plan.llvmParameterStart == index
  let storage ← plan.storageType
  some (storage, if plan.alignment < 8 then 8 else plan.alignment)

end LlvmCAbiSignature
end Coglet.Backend.Llvm
