import Coglet.Integer.Representation
import Mathlib.Data.Int.ModEq

open TwosComplement

-- The addresses that are denoted by index expressions, in the source and in both backends.

namespace Coglet.Backend

-- An object that can be indexed, as a run-time value. An array is indexed in its place.
inductive IndexedObject (p : Nat)
  | array (address : BitVec p) (count : Nat)
  | pointer (value : BitVec p)
  | slice (data : BitVec p) (length : BitVec p)

-- The value of an index has the width and signedness of its type.
structure Index where
  type  : IntegerTypeInfo
  value : BitVec type.bitWidth

namespace Index

def toInt (index : Index) : Int :=
  decode index.type.isSigned index.value

end Index

inductive IndexInstruction (p : Nat)
  | arrayElemAddr (base : BitVec p) (count : Nat) (index : Index)
  | ptrIndexAddr (base : BitVec p) (index : Index)

namespace IndexedObject

variable {p : Nat}

def base : IndexedObject p → BitVec p
  | array address _ => address
  | pointer value   => value
  | slice data _    => data

-- The index keeps its type.
def lowerIndex (index : Index) : IndexedObject p → IndexInstruction p
  | array address count => .arrayElemAddr address count index
  | pointer value       => .ptrIndexAddr value index
  | slice data _        => .ptrIndexAddr data index

-- The address of an element according to the source.
def elementAddress (object : IndexedObject p) (size : Nat) (index : Index) : Int :=
  object.base.toNat + index.toInt * size

end IndexedObject

namespace C

-- The expressions that are emitted for addresses. Pointers know the size of what they point to, where an array
-- consists of a number of elements.
inductive Place
  | object (address : Int) (size : Nat)
  | array (address : Int) (count size : Nat)

inductive Pointer
  | to (place : Place)

def Pointer.deref : Pointer → Place
  | .to place => place

-- An array that is not the operand of `&` becomes a pointer to its first element.
def Place.decay : Place → Pointer
  | .array address _ size => .to (.object address size)
  | place                 => .to place

-- The sum of a pointer and an integer counts elements. It depends on the value of the integer only, not on its type.
def Pointer.add : Pointer → Int → Pointer
  | .to (.object address size), n      => .to (.object (address + n * size) size)
  | .to (.array address count size), n => .to (.array (address + n * (count * size)) count size)

-- By definition, `pointer[n]` is `*(pointer + n)`.
def Pointer.subscript (pointer : Pointer) (n : Int) : Place :=
  (pointer.add n).deref

def Place.addressOf : Place → Int
  | .object address _ | .array address _ _ => address

end C

namespace LLVM

-- Each index is extended by its sign or truncated to the width of pointers.
def getelementptr (base : BitVec p) : List (Nat × Σ w, BitVec w) → BitVec p
  | []                           => base
  | (stride, ⟨_, index⟩) :: rest =>
    getelementptr (base + index.signExtend p * BitVec.ofNat p stride) rest

end LLVM

namespace IndexInstruction

variable {p : Nat}

-- The expressions `&((*base)[index])` and `&((base)[index])`.
def emitC (size : Nat) : IndexInstruction p → C.Place
  | arrayElemAddr base count index =>
    (C.Pointer.to (.array base.toNat count size)).deref.decay.subscript index.toInt
  | ptrIndexAddr base index => (C.Pointer.to (.object base.toNat size)).subscript index.toInt

def lowerLLVM (size : Nat) : IndexInstruction p → BitVec p
  | arrayElemAddr base count index =>
    LLVM.getelementptr base [(count * size, ⟨32, 0⟩), (size, ⟨index.type.bitWidth, index.value⟩)]
  | ptrIndexAddr base index => LLVM.getelementptr base [(size, ⟨index.type.bitWidth, index.value⟩)]

theorem emitC_addressOf (object : IndexedObject p) (index : Index) :
    ((object.lowerIndex index).emitC size).addressOf = object.elementAddress size index := by
  cases object <;> rfl

theorem lowerLLVM_eq (object : IndexedObject p) (index : Index) :
    (object.lowerIndex index).lowerLLVM size =
      object.base + index.value.signExtend p * BitVec.ofNat p size := by
  have hz : (0#32).signExtend p = 0#p := by simp [BitVec.signExtend]
  cases object <;> simp [IndexedObject.lowerIndex, lowerLLVM, LLVM.getelementptr, IndexedObject.base, hz]

end IndexInstruction

namespace Index

variable {p : Nat} {index : Index}

-- The index that the backend uses is not the one of the source.
def SignExtended (index : Index) : Prop :=
  index.type.isSigned = false ∧ 2 ^ index.type.bitWidth ≤ 2 * index.value.toNat

theorem toInt_sub (index : Index) :
    (index.SignExtended → index.toInt - index.value.toInt = 2 ^ index.type.bitWidth) ∧
    (¬index.SignExtended → index.toInt - index.value.toInt = 0) := by
  have hs : index.value.toInt = if 2 * index.value.toNat < 2 ^ index.type.bitWidth then
      (index.value.toNat : Int) else index.value.toNat - (2 ^ index.type.bitWidth : Nat) :=
    BitVec.toInt_eq_toNat_cond index.value
  unfold SignExtended toInt decode
  cases index.type.isSigned
  case true => simp
  case false =>
    refine ⟨fun h => ?_, fun h => ?_⟩
    case refine_1 =>
      rw [hs, if_neg (Nat.not_lt.mpr h.right)]
      push_cast
      simp
    case refine_2 =>
      have h : 2 * index.value.toNat < 2 ^ index.type.bitWidth := by
        simpa using h
      rw [hs, if_pos h]
      simp

end Index

-- An element that lies within the object does not leave the address space.
def IndexedObject.Contains (object : IndexedObject p) (size : Nat) (index : Index) : Prop :=
  0 ≤ object.elementAddress size index ∧ object.elementAddress size index < 2 ^ p

instance {object : IndexedObject p} : Decidable (object.Contains size index) :=
  inferInstanceAs (Decidable (_ ∧ _))

-- Both backends compute the address of the source.
def AddressesAgree (object : IndexedObject p) (size : Nat) (index : Index) : Prop :=
  ((object.lowerIndex index).emitC size).addressOf = object.elementAddress size index ∧
  (((object.lowerIndex index).lowerLLVM size).toNat : Int) = object.elementAddress size index

theorem lowerLLVM_toNat (object : IndexedObject p) (size : Nat) (index : Index) :
    (((object.lowerIndex index).lowerLLVM size).toNat : Int) =
      (object.base.toNat + index.value.toInt * size) % 2 ^ p := by
  have h : (object.lowerIndex index).lowerLLVM size =
      BitVec.ofInt p (object.base.toNat + index.value.toInt * size) := by
    rw [IndexInstruction.lowerLLVM_eq, BitVec.ofInt_add, BitVec.ofInt_mul]
    simp [BitVec.signExtend]
  rw [h, BitVec.toNat_ofInt]
  have hp : (0 : Int) < (2 ^ p : Nat) := by positivity
  rw [Int.toNat_of_nonneg (Int.emod_nonneg _ (ne_of_gt hp))]
  push_cast
  rfl

-- The addresses agree unless an unsigned index that is narrower than a pointer is in the upper half of its range.
theorem addressesAgree_iff (object : IndexedObject p) (size : Nat) (index : Index)
    (hc : object.Contains size index) :
    AddressesAgree object size index ↔
      (index.SignExtended → (2 ^ p : Int) ∣ 2 ^ index.type.bitWidth * size) := by
  have hp : (0 : Int) < 2 ^ p := by positivity
  have hd : object.elementAddress size index - (object.base.toNat + index.value.toInt * size) =
      (index.toInt - index.value.toInt) * size := by
    unfold IndexedObject.elementAddress
    ring
  have hl : AddressesAgree object size index ↔ (2 ^ p : Int) ∣ (index.toInt - index.value.toInt) * size := by
    unfold AddressesAgree
    rw [lowerLLVM_toNat, ← hd, ← Int.modEq_iff_dvd, Int.ModEq, Int.emod_eq_of_lt hc.left hc.right]
    exact and_iff_right (IndexInstruction.emitC_addressOf object index)
  rw [hl]
  by_cases hs : index.SignExtended
  case pos => simp [hs, (index.toInt_sub).left hs]
  case neg => simp [hs, (index.toInt_sub).right hs]

-- A negative offset from an interior pointer.
theorem addressesAgree_negative :
    AddressesAgree (.pointer 1000#64) 4 ⟨⟨8, true⟩, -3#8⟩ :=
  (addressesAgree_iff (.pointer 1000#64) 4 ⟨⟨8, true⟩, -3#8⟩ (by decide)).mpr fun h => absurd h.left (by decide)

-- An index of type `u8`, in the upper half of its range.
theorem not_addressesAgree_u8 :
    IndexedObject.Contains (.array 4096#64 256) 4 ⟨⟨8, false⟩, 200#8⟩ ∧
    ¬AddressesAgree (.array 4096#64 256) 4 ⟨⟨8, false⟩, 200#8⟩ := by
  refine ⟨by decide, fun h => ?_⟩
  exact absurd h.right (by decide)

end Coglet.Backend
