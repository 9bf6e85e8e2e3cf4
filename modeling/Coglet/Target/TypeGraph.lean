import Coglet.Target.Layout
import Mathlib.Data.BitVec

open StructLayout

-- The layouts of types that refer to each other by pointers, in the arithmetic of `uint64_t`.

namespace Coglet.Target

structure TargetLayout where
  size  : BitVec 64
  align : BitVec 64
deriving DecidableEq, Repr

def TargetLayout.toLayout (l : TargetLayout) : Layout :=
  ⟨l.size.toNat, l.align.toNat⟩

inductive ScalarKind
  | bool
  | s8 | s16 | s32 | s64
  | u8 | u16 | u32 | u64
  | f32 | f64
deriving DecidableEq, Repr

def ScalarKind.bits : ScalarKind → Nat
  | bool | s8 | u8 => 8
  | s16 | u16 => 16
  | s32 | u32 | f32 => 32
  | s64 | u64 | f64 => 64

-- A struct or union without its fields. The explicit alignment is zero if there is none.
structure RecordHeader where
  isPacked     : Bool
  isUnion      : Bool
  isIncomplete : Bool
  align        : BitVec 32
  alignPower   : align = 0#32 ∨ 0 < align.toInt ∧ align.toNat.isPowerOfTwo

-- A type whose parts are pointers to types.
inductive TypeNode (τ : Type)
  | scalar (kind : ScalarKind)
  | pointer | opaquePointer
  | function (abi : FunctionAbi)
  -- The size is negative if it is unspecified.
  | array (element : Option τ) (size : BitVec 32)
  | slice
  | enum (backing : Option ScalarKind)
  | struct (header : RecordHeader) (fields : List (Option τ))
  -- The types without objects.
  | other

abbrev TypeGraph (τ : Type) := τ → TypeNode τ

def UINT64_MAX : BitVec 64 := 0xffffffffffffffff#64

def roundUp64 (value align : BitVec 64) : Option (BitVec 64) :=
  if align = 0#64 ∨ UINT64_MAX - (align - 1#64) < value then none
  else some ((value + align - 1#64) / align * align)

namespace TypeGraph

variable {τ : Type} [DecidableEq τ] (target : TargetInfo) (graph : TypeGraph τ)

def scalarLayout (kind : ScalarKind) : TargetLayout :=
  ⟨BitVec.ofNat 64 (kind.bits / 8), BitVec.ofNat 64 (target.scalarAlign kind.bits)⟩

def pointerLayout : TargetLayout :=
  ⟨BitVec.ofNat 64 (target.pointerBits / 8), BitVec.ofNat 64 target.pointerAlignBytes⟩

def sliceLayout : Except String TargetLayout :=
  let pointer := pointerLayout target
  let length : TargetLayout :=
    ⟨BitVec.ofNat 64 (target.pointerBits / 8), BitVec.ofNat 64 (target.scalarAlign target.pointerBits)⟩
  match roundUp64 pointer.size length.align with
  | none => .error "slice layout size overflows"
  | some offset =>
    if UINT64_MAX - length.size < offset then .error "slice layout size overflows"
    else
      let align := if length.align < pointer.align then pointer.align else length.align
      match roundUp64 (offset + length.size) align with
      | none => .error "slice layout size overflows"
      | some size => .ok ⟨size, align⟩

-- The end of the `TYPE_STRUCT` case.
def finishStruct (header : RecordHeader) (size maxAlign : BitVec 64) : Except String TargetLayout :=
  let maxAlign := if header.isPacked then 1#64 else maxAlign
  let maxAlign :=
    if 0 < header.align.toInt ∧ maxAlign < header.align.signExtend 64 then header.align.signExtend 64 else maxAlign
  match roundUp64 size maxAlign with
  | none => .error "struct layout size overflows"
  | some size => .ok ⟨size, maxAlign⟩

section Fields

variable (layout : Option τ → Except String TargetLayout)

def layoutUnionFields : BitVec 64 → BitVec 64 → List (Option τ) → Except String (BitVec 64 × BitVec 64)
  | size, maxAlign, [] => .ok (size, maxAlign)
  | size, maxAlign, type :: fields => do
    let field ← layout type
    layoutUnionFields (if size < field.size then field.size else size)
      (if maxAlign < field.align then field.align else maxAlign) fields

def layoutStructFields (isPacked : Bool) :
    BitVec 64 → BitVec 64 → List (Option τ) → Except String (BitVec 64 × BitVec 64)
  | size, maxAlign, [] => .ok (size, maxAlign)
  | size, maxAlign, type :: fields => do
    let field ← layout type
    let fieldAlign := if isPacked then 1#64 else field.align
    match roundUp64 size fieldAlign with
    | none => .error "struct layout size overflows"
    | some offset =>
      if UINT64_MAX - field.size < offset then .error "struct layout size overflows"
      else layoutStructFields isPacked (offset + field.size) (if maxAlign < fieldAlign then fieldAlign else maxAlign) fields

end Fields

-- The stack has the types around this one, and there is room for some more of them. The backing type of an enum is an
-- integer, which the check of the stack cannot meet.
def layoutImpl : Nat → List τ → Option τ → Except String TargetLayout
  | _, _, none => .error "layout type is null"
  | 0, _, some _ => .error "recursive type layout is too deep"
  | room + 1, stack, some type =>
    if type ∈ stack then .error "recursive by-value type has no finite layout"
    else match graph type with
      | .scalar kind => .ok (scalarLayout target kind)
      | .pointer | .opaquePointer => .ok (pointerLayout target)
      | .function abi =>
        if abi ≠ .c then .error "ordinary Coglet function has no object layout" else .ok (pointerLayout target)
      | .array element size =>
        if size.toInt < 0 then .error "unsized array has no object layout"
        else do
          let l ← layoutImpl room (type :: stack) element
          let count := size.signExtend 64
          if count ≠ 0#64 ∧ UINT64_MAX / count < l.size then .error "array layout size overflows"
          else .ok ⟨l.size * count, l.align⟩
      | .slice => sliceLayout target
      | .enum none => .error "enum backing type is unavailable"
      | .enum (some kind) => .ok (scalarLayout target kind)
      | .struct header fields =>
        if header.isIncomplete then .error "incomplete struct has no object layout"
        else if header.isUnion then do
          let (size, maxAlign) ← layoutUnionFields (layoutImpl room (type :: stack)) 0#64 1#64 fields
          finishStruct header size maxAlign
        else do
          let (size, maxAlign) ← layoutStructFields (layoutImpl room (type :: stack)) header.isPacked 0#64 1#64 fields
          finishStruct header size maxAlign
      | .other => .error "type has no concrete object layout"

def layoutOfType (type : Option τ) : Except String TargetLayout :=
  match target.validate with
  | .error message => .error ("invalid target layout: " ++ message)
  | .ok () => layoutImpl target graph 256 [] type

end TypeGraph

end Coglet.Target
