import Coglet.Stdlib.Allocator

open ByteRepresentation

namespace Coglet.Stdlib

open Runtime (Memory Uintptr SizeT)

variable {σ α : Type}

structure Array (σ : Type) where
  data      : Uintptr
  len       : SizeT
  capacity  : SizeT
  allocator : Allocator σ

namespace Array

def new (allocator : Allocator σ) : Array σ where
  data     := 0#64
  len      := 0#64
  capacity := 0#64
  allocator

def withCapacity (t : ByteRepresentation 64 α) (allocator : Allocator σ) (world : World σ) (capacity : SizeT) :
    Run (Array σ × World σ) :=
  if capacity ≠ 0#64 then do
    let (data, world) ← Mem.alloc t allocator world capacity
    return ({ new allocator with data, capacity }, world)
  else .ok (new allocator, world)

def deinit (t : ByteRepresentation 64 α) (self : Array σ) (world : World σ) : Run (Array σ × World σ) := do
  let world ← Mem.free t self.allocator world self.data self.capacity
  return ({ self with data := 0#64, len := 0#64, capacity := 0#64 }, world)

def clear (self : Array σ) : Array σ :=
  { self with len := 0#64 }

-- The loop that doubles the capacity.
def double : Nat → SizeT → SizeT → Run SizeT
  | 0, _, _ => .error .outOfFuel
  | fuel + 1, nextCapacity, required =>
    if nextCapacity < required then do
      let nextCapacity ← checked .star nextCapacity 2#64
      double fuel nextCapacity required
    else .ok nextCapacity

def nextCapacity (capacity required : SizeT) : Run SizeT :=
  double 64 (if capacity < 8#64 then 8#64 else capacity) required

def reserve (t : ByteRepresentation 64 α) (self : Array σ) (world : World σ) (additional : SizeT) :
    Run (Array σ × World σ) := do
  let required ← checked .plus self.len additional
  if required ≤ self.capacity then .ok (self, world)
  else
    let capacity ← nextCapacity self.capacity required
    let (data, world) ← Mem.resize t self.allocator world self.data self.capacity capacity
    return ({ self with data, capacity }, world)

def push (t : ByteRepresentation 64 α) (self : Array σ) (world : World σ) (value : α) : Run (Array σ × World σ) := do
  let (self, world) ← self.reserve t world 1#64
  let memory := t.store world.memory (t.element self.data self.len) value
  let len ← checked .plus self.len 1#64
  return ({ self with len }, { world with memory })

def pop (t : ByteRepresentation 64 α) (self : Array σ) (world : World σ) : Run (α × Array σ) := do
  let len ← checked .minus self.len 1#64
  return (t.load world.memory (t.element self.data len), { self with len })

-- The elements of the slice.
def asSlice (t : ByteRepresentation 64 α) (self : Array σ) (world : World σ) : List α :=
  t.elements world.memory self.data self.len.toNat

section Capacity

variable {capacity required result : SizeT}

theorem double_cases {fuel : Nat} (h : 2 ^ 64 ≤ capacity.toNat * 2 ^ fuel) :
    (∃ result, double fuel capacity required = .ok result ∧ required ≤ result ∧ capacity ≤ result) ∨
    double fuel capacity required = .error .trap := by
  induction fuel generalizing capacity
  case zero =>
    have := capacity.isLt
    omega
  case succ fuel hi =>
    rw [double]
    split
    case isTrue =>
      rw [checked_star, show (2#64).toNat = 2 from rfl]
      split
      case isTrue hl =>
        rw [Run.ok_bind]
        have hd : (capacity * 2#64).toNat = capacity.toNat * 2 := by
          rw [BitVec.toNat_mul, show (2#64).toNat = 2 from rfl, Nat.mod_eq_of_lt hl]
        have hle : capacity ≤ capacity * 2#64 := BitVec.le_def.mpr (by omega)
        refine (hi ?_).imp (fun ⟨result, hr, hreq, hc⟩ => ⟨result, hr, hreq, BitVec.le_trans hle hc⟩) id
        rw [hd, Nat.mul_assoc, ← Nat.pow_succ']
        exact h
      case isFalse =>
        rw [Run.error_bind]
        exact .inr rfl
    case isFalse hn => exact .inl ⟨capacity, rfl, BitVec.not_lt.mp hn, BitVec.le_refl _⟩

theorem nextCapacity_cases : (∃ result, nextCapacity capacity required = .ok result ∧ required ≤ result ∧ capacity ≤ result) ∨
    nextCapacity capacity required = .error .trap := by
  have h8 : (8#64).toNat = 8 := rfl
  rw [nextCapacity]
  split
  case isTrue h =>
    refine (double_cases (by rw [h8]; decide)).imp (fun ⟨result, hr, hreq, hc⟩ => ⟨result, hr, hreq, ?_⟩) id
    exact BitVec.le_trans (BitVec.le_of_lt h) hc
  case isFalse h =>
    rw [BitVec.not_lt, BitVec.le_def, h8] at h
    exact double_cases (by omega)

end Capacity

end Array

end Coglet.Stdlib
