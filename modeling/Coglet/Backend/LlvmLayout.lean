import Coglet.Ir.ObjectType

open StructLayout
open Coglet.Ir (AggregateHeader)
open Coglet.Target (AbiShape ObjectField TargetInfo)

-- The types that the LLVM backend builds, and the memory that LLVM gives them.

namespace Coglet.Backend.Llvm

inductive LlvmType
  | void
  | int (bits : Nat)
  | float | double
  | ptr
  -- A vector of bytes.
  | vector (count : Nat)
  | array (element : LlvmType) (length : Nat)
  | struct (isPacked : Bool) (fields : List LlvmType)

structure DataLayout where
  pointerSize  : Nat
  pointerAlign : Nat
  integerAlign : Nat → Nat
  floatAlign   : Nat
  doubleAlign  : Nat
  vectorAlign  : Nat → Nat

namespace DataLayout

variable (dl : DataLayout)

mutual

-- The allocation size and the ABI alignment.
def layout : LlvmType → Layout
  | .void => ⟨0, 1⟩
  | .int bits => .padded ((bits + 7) / 8) (dl.integerAlign bits)
  | .float => .padded 4 dl.floatAlign
  | .double => .padded 8 dl.doubleAlign
  | .ptr => .padded dl.pointerSize dl.pointerAlign
  | .vector count => .padded count (dl.vectorAlign count)
  | .array element length => .padded (length * (layout element).size) (layout element).align
  | .struct isPacked fields => StructLayout.struct isPacked (layouts fields)

def layouts : List LlvmType → List Layout
  | [] => []
  | type :: types => layout type :: layouts types

end

-- `LLVMOffsetOfElement`
def offsetOfElement (isPacked : Bool) (fields : List LlvmType) (index : Nat) : Option Nat :=
  (offsets isPacked 0 (dl.layouts fields))[index]?

end DataLayout

section Lowering

variable (dl : DataLayout) (target : TargetInfo)

def cBoolStorageType : Option LlvmType :=
  if target.cBoolBits = 0 then none else some (.int target.cBoolBits)

def alignmentMarkerType (alignment : Nat) : Option LlvmType :=
  if alignment ≤ 1 then some (.array (.int 8) 0)
  else if (dl.layout (.vector alignment)).align ≠ alignment then none
  else some (.array (.vector alignment) 0)

def wrapExplicitAlignment (header : AggregateHeader) (inner : LlvmType) : Option LlvmType :=
  if header.explicitAlignment = 0 then some inner
  else (alignmentMarkerType dl header.explicitAlignment).map fun marker => .struct false [inner, marker]

structure UnionScan where
  maxSize  : Nat
  maxAlign : Nat
  carrier  : Option LlvmType

def UnionScan.add (scan : UnionScan) (field : LlvmType) : UnionScan where
  maxSize  := if (dl.layout field).size > scan.maxSize then (dl.layout field).size else scan.maxSize
  maxAlign := if (dl.layout field).align > scan.maxAlign then (dl.layout field).align else scan.maxAlign
  carrier  := if (dl.layout field).align > scan.maxAlign then some field else scan.carrier.or (some field)

def UnionScan.body (scan : UnionScan) (isPacked : Bool) : Option LlvmType :=
  if isPacked then
    some (.struct true [.array (.int 8) scan.maxSize])
  else
    -- The size of a missing carrier is undefined.
    scan.carrier.map fun carrier =>
      if (dl.layout carrier).size < scan.maxSize then
        .struct false [carrier, .array (.int 8) (scan.maxSize - (dl.layout carrier).size)]
      else
        .struct false [carrier]

def lowerReprCUnion (header : AggregateHeader) (fields : List LlvmType) : Option LlvmType := do
  let inner ← (fields.foldl (UnionScan.add dl) ⟨0, 1, none⟩).body dl header.isPacked
  wrapExplicitAlignment dl header inner

def lowerReprCStruct (header : AggregateHeader) (fields : List LlvmType) : Option LlvmType :=
  wrapExplicitAlignment dl header (.struct header.isPacked fields)

mutual

-- `llvm_lower_type`
def lowerType : Ir.ObjectType → Option LlvmType
  | .void => some .void
  | .bool => some (.int 1)
  | .integer bits _ => some (.int bits)
  | .float bits => if bits = 32 then some .float else if bits = 64 then some .double else none
  | .pointer | .opaquePointer => some .ptr
  | .array element length => (lowerType element).map (.array · length)
  | .function => some .ptr
  | .enum backing _ _ => lowerType backing
  | .aggregate header fields =>
    if header.isReprC then
      if !header.isComplete || header.isIncomplete then none
      else do
        let types ← lowerCFields fields
        if header.isUnion then lowerReprCUnion dl header types else lowerReprCStruct dl header types
    else if header.isUnion then none
    else if !header.isComplete || header.isIncomplete then none
    else (lowerFields fields).map (.struct false)
termination_by type => (sizeOf type, 0)

-- `llvm_lower_c_object_type`
def lowerCObjectType (abi : AbiShape) (runtime : Ir.ObjectType) : Option LlvmType :=
  match abi, runtime with
  | .cScalar .bool, _ => cBoolStorageType target
  | .cScalar _, runtime => lowerType runtime
  | .semantic, .bool => cBoolStorageType target
  | .semantic, .enum backing true backingAbi => lowerCObjectType backingAbi backing
  | .semantic, runtime => lowerType runtime
  | .pointer, _ | .opaquePointer, _ | .function, _ => some .ptr
  | .array element, .array runtime length => (lowerCObjectType element runtime).map (.array · length)
  | .array _, _ => none
termination_by (sizeOf runtime, 1)

def lowerFields : List (ObjectField Ir.ObjectType) → Option (List LlvmType)
  | [] => some []
  | ⟨type, _⟩ :: fields => do
    let type ← lowerType type
    let types ← lowerFields fields
    some (type :: types)
termination_by fields => (sizeOf fields, 0)

def lowerCFields : List (ObjectField Ir.ObjectType) → Option (List LlvmType)
  | [] => some []
  | ⟨type, abi⟩ :: fields => do
    let type ← lowerCObjectType abi type
    let types ← lowerCFields fields
    some (type :: types)
termination_by fields => (sizeOf fields, 0)

end

-- `llvm_repr_c_field_offset`
def reprCFieldOffset (header : AggregateHeader) (fields : List (ObjectField Ir.ObjectType)) (index : Nat) : Option Nat := do
  let types ← lowerCFields dl target fields
  dl.offsetOfElement header.isPacked types index

end Lowering
end Coglet.Backend.Llvm
