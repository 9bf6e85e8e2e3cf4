import Mathlib.Logic.Basic

namespace Coglet

inductive TypeKind
  | void | bool
  | s8 | s16 | s32 | s64
  | u8 | u16 | u32 | u64
  | f32 | f64
  | untypedInt | untypedFloat
  | null
  | pointer | opaquePointer
  | array | slice
  | struct | enum
  | function
deriving DecidableEq, Repr

inductive PointerAccess
  | mutable
  | readonly
deriving DecidableEq, Repr

inductive FunctionAbi
  | coglet
  | c
deriving DecidableEq, Repr

inductive CCallingConvention
  | default | cdecl | stdcall | sysv64 | win64
deriving DecidableEq, Repr

abbrev StructId := Nat

abbrev EnumId := Nat

-- A resolved semantic type. Struct and enum types are nominal, so they are represented by the
-- identity of their declaration; everything else is structural.
inductive Ty
  | void | bool
  | s8 | s16 | s32 | s64
  | u8 | u16 | u32 | u64
  | f32 | f64
  | untypedInt | untypedFloat
  | null
  | pointer (access : PointerAccess) (isVolatile : Bool) (element : Ty)
  | opaquePointer (access : PointerAccess) (isVolatile : Bool)
  -- The size is `-1` if it is unspecified.
  | array (size : Int) (element : Ty)
  | slice (access : PointerAccess) (element : Ty)
  | struct (id : StructId)
  | enum (id : EnumId)
  | function (abi : FunctionAbi) (callConv : CCallingConvention) (isVariadic : Bool)
      (parameters : List Ty) (returnType : Ty)
deriving Repr

namespace Ty

def kind : Ty → TypeKind
  | void => .void | bool => .bool
  | s8 => .s8 | s16 => .s16 | s32 => .s32 | s64 => .s64
  | u8 => .u8 | u16 => .u16 | u32 => .u32 | u64 => .u64
  | f32 => .f32 | f64 => .f64
  | untypedInt => .untypedInt | untypedFloat => .untypedFloat
  | null => .null
  | pointer .. => .pointer | opaquePointer .. => .opaquePointer
  | array .. => .array | slice .. => .slice
  | struct _ => .struct | enum _ => .enum
  | function .. => .function

mutual

def typeEqual : Ty → Ty → Bool
  | void, void | bool, bool
  | s8, s8 | s16, s16 | s32, s32 | s64, s64
  | u8, u8 | u16, u16 | u32, u32 | u64, u64
  | f32, f32 | f64, f64
  | untypedInt, untypedInt | untypedFloat, untypedFloat
  | null, null => true
  | opaquePointer a v, opaquePointer a' v' => a = a' && v = v'
  | pointer a v e, pointer a' v' e' => a = a' && v = v' && typeEqual e e'
  | array n e, array n' e' => n = n' && typeEqual e e'
  | slice a e, slice a' e' => a = a' && typeEqual e e'
  | function abi c v ps r, function abi' c' v' ps' r' =>
    abi = abi' && c = c' && v = v' && parametersEqual ps ps' && typeEqual r r'
  | struct i, struct i' => i = i'
  | enum i, enum i' => i = i'
  | _, _ => false

def parametersEqual : List Ty → List Ty → Bool
  | [], [] => true
  | p :: ps, p' :: ps' => typeEqual p p' && parametersEqual ps ps'
  | _, _ => false

end

mutual

theorem typeEqual_refl : (t : Ty) → typeEqual t t
  | void | bool | s8 | s16 | s32 | s64 | u8 | u16 | u32 | u64 | f32 | f64
  | untypedInt | untypedFloat | null | opaquePointer .. | struct _ | enum _ => by simp [typeEqual]
  | pointer _ _ e | array _ e | slice _ e => by simp [typeEqual, e.typeEqual_refl]
  | function _ _ _ ps r => by simp [typeEqual, parametersEqual_refl ps, r.typeEqual_refl]

theorem parametersEqual_refl : (ps : List Ty) → parametersEqual ps ps
  | []      => rfl
  | p :: ps => by simp [parametersEqual, p.typeEqual_refl, parametersEqual_refl ps]

end

mutual

theorem eq_of_typeEqual {a b : Ty} (h : typeEqual a b) : a = b := by
  cases a <;> cases b <;> simp [typeEqual] at h <;> try rfl
  case pointer.pointer     => simp [h.left, eq_of_typeEqual h.right]
  case opaquePointer.opaquePointer => simp [h]
  case array.array         => simp [h.left, eq_of_typeEqual h.right]
  case slice.slice         => simp [h.left, eq_of_typeEqual h.right]
  case struct.struct       => simp [h]
  case enum.enum           => simp [h]
  case function.function   =>
    obtain ⟨⟨⟨⟨rfl, rfl⟩, rfl⟩, hp⟩, hr⟩ := h
    simp [eq_of_parametersEqual hp, eq_of_typeEqual hr]

theorem eq_of_parametersEqual {ps qs : List Ty} (h : parametersEqual ps qs) : ps = qs := by
  cases ps <;> cases qs <;> simp [parametersEqual] at h <;> try rfl
  case cons.cons => simp [eq_of_typeEqual h.left, eq_of_parametersEqual h.right]

end

theorem typeEqual_iff {a b : Ty} : typeEqual a b ↔ a = b where
  mp  := eq_of_typeEqual
  mpr := (· ▸ typeEqual_refl a)

instance : DecidableEq Ty :=
  fun _ _ => decidable_of_iff _ typeEqual_iff

end Ty
end Coglet
