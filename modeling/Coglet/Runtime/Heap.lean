import Coglet.Runtime.Memory

open StructLayout Alignment

namespace Coglet.Runtime

-- The header in front of a user pointer.
structure AllocationHeader where
  base : Uintptr
  size : SizeT
deriving DecidableEq, Repr

-- The headers of the allocations with their user pointers.
structure Heap where
  headers : List (Uintptr × AllocationHeader)
deriving DecidableEq, Repr

-- What the function `malloc` of the system returns.
abbrev Malloc := Heap → SizeT → Uintptr

def sizeofAllocationHeader : SizeT := 16#64

namespace Heap

def header (heap : Heap) (pointer : Uintptr) : Option AllocationHeader :=
  (heap.headers.find? (·.1 = pointer)).map (·.2)

-- The result `none` is a call of `abort`.
def allocateImpl (heap : Heap) (malloc : Malloc) (size alignment : SizeT) : Option (Uintptr × Heap) :=
  if size = 0#64 then some (0#64, heap)
  else if SIZE_MAX - sizeofAllocationHeader < size ∨ SIZE_MAX - (alignment - 1#64) < size + sizeofAllocationHeader then none
  else
    let total := size + sizeofAllocationHeader + alignment - 1#64
    let base := malloc heap total
    if base = 0#64 then none
    else
      let aligned := alignUp (base + sizeofAllocationHeader) alignment
      some (aligned, { headers := (aligned, ⟨base, size⟩) :: heap.headers })

def alloc (heap : Heap) (malloc : Malloc) (size alignment : SizeT) : Option (Uintptr × Heap) := do
  let alignment ← checkedAlignment alignment
  heap.allocateImpl malloc size alignment

def free (heap : Heap) (pointer : Uintptr) : Heap :=
  if pointer = 0#64 then heap
  else { headers := heap.headers.eraseP (·.1 = pointer) }

-- A pointer without a header is no pointer of this allocator.
def resize (heap : Heap) (malloc : Malloc) (memory : Memory) (pointer : Uintptr) (size alignment : SizeT) :
    Option (Uintptr × Heap × Memory) := do
  let alignment ← checkedAlignment alignment
  if pointer = 0#64 then
    let (result, heap) ← heap.allocateImpl malloc size alignment
    return (result, heap, memory)
  else if size = 0#64 then return (0#64, heap.free pointer, memory)
  else
    let oldHeader ← heap.header pointer
    let (resized, heap) ← heap.allocateImpl malloc size alignment
    let memory := memcpy memory resized pointer (if oldHeader.size < size then oldHeader.size else size)
    return (resized, heap.free pointer, memory)

-- A new block contains no pointer that is in use.
def HonestMalloc (malloc : Malloc) : Prop :=
  ∀ heap total, malloc heap total ≠ 0#64 → (malloc heap total).toNat + total.toNat ≤ 2 ^ 64 ∧
    ∀ entry ∈ heap.headers, ¬(region (malloc heap total) total).Contains entry.1.toNat

-- A block with a known size. The null pointer is a block without bytes.
def Owns (heap : Heap) (pointer : Uintptr) (size : SizeT) : Prop :=
  pointer = 0#64 ∧ size = 0#64 ∨ pointer ≠ 0#64 ∧ ∃ header, heap.header pointer = some header ∧ header.size = size

variable {heap heap' : Heap} {malloc : Malloc} {size alignment : SizeT} {pointer result : Uintptr}

theorem allocateImpl_eq_some (hm : HonestMalloc malloc) (ha : alignment.toNat.isPowerOfTwo)
    (h : heap.allocateImpl malloc size alignment = some (result, heap')) :
    size = 0#64 ∧ result = 0#64 ∧ heap' = heap ∨
    result ≠ 0#64 ∧ ∃ base, heap'.headers = (result, ⟨base, size⟩) :: heap.headers ∧ ∀ entry ∈ heap.headers, entry.1 ≠ result := by
  by_cases hs : size = 0#64
  case pos =>
    rw [allocateImpl, if_pos hs] at h
    cases h
    exact .inl ⟨hs, rfl, rfl⟩
  case neg =>
    have h16 : sizeofAllocationHeader.toNat = 16 := rfl
    have hmax : SIZE_MAX.toNat = 2 ^ 64 - 1 := rfl
    have hp := Nat.pos_of_isPowerOfTwo ha
    have hsub := toNat_sub_one hp
    have hz := toNat_pos_of_ne hs
    rw [allocateImpl, if_neg hs] at h
    simp only [Option.ite_none_left_eq_some, not_or, BitVec.not_lt, BitVec.le_def, Option.some_inj, Prod.mk_inj] at h
    obtain ⟨⟨h₁, h₂⟩, hne, rfl, rfl⟩ := h
    rw [BitVec.toNat_sub_of_le (by decide), hmax, h16] at h₁
    have hadd : (size + sizeofAllocationHeader).toNat = size.toNat + 16 := by
      rw [BitVec.toNat_add, h16]
      omega
    rw [BitVec.toNat_sub_of_le (BitVec.le_def.mpr (by rw [hmax]; omega)), hmax, hsub, hadd] at h₂
    have htotal : (size + sizeofAllocationHeader + alignment - 1#64).toNat = size.toNat + 16 + (alignment.toNat - 1) := by
      rw [BitVec.toNat_sub, BitVec.toNat_add, hadd, show (1#64).toNat = 1 from rfl]
      omega
    generalize size + sizeofAllocationHeader + alignment - 1#64 = total at *
    obtain ⟨hstop, hfresh⟩ := hm heap total hne
    have hfirst : (malloc heap total + sizeofAllocationHeader).toNat = (malloc heap total).toNat + 16 := by
      rw [BitVec.toNat_add, h16]
      omega
    have hround : roundUp (malloc heap total + sizeofAllocationHeader).toNat alignment.toNat ≤
        (malloc heap total + sizeofAllocationHeader).toNat + alignment.toNat - 1 := Nat.div_mul_le_self _ _
    have hle : (malloc heap total + sizeofAllocationHeader).toNat ≤
        roundUp (malloc heap total + sizeofAllocationHeader).toNat alignment.toNat := le_roundUp hp
    have hr := toNat_alignUp_of_lt ha (Nat.lt_of_le_of_lt hround (by omega))
    refine .inr ⟨fun heq => ?_, _, rfl, fun entry he heq => hfresh entry he ?_⟩
    case refine_1 =>
      have := congrArg BitVec.toNat heq
      rw [BitVec.toNat_zero] at this
      omega
    case refine_2 =>
      have hregion : (region (malloc heap total) total).stop = (malloc heap total).toNat + total.toNat := rfl
      have hstart : (region (malloc heap total) total).start = (malloc heap total).toNat := rfl
      rw [heq]
      constructor <;> omega

theorem owns_cons {base : Uintptr} {headers : List (Uintptr × AllocationHeader)} (hne : result ≠ 0#64)
    (h : heap.headers = (result, ⟨base, size⟩) :: headers) : heap.Owns result size := by
  refine .inr ⟨hne, ⟨base, size⟩, ?_, rfl⟩
  simp [header, h]

theorem Owns.allocateImpl (hm : HonestMalloc malloc) (ha : alignment.toNat.isPowerOfTwo)
    (h : heap.allocateImpl malloc size alignment = some (result, heap')) : heap'.Owns result size := by
  rcases allocateImpl_eq_some hm ha h with ⟨rfl, rfl, rfl⟩ | ⟨hne, base, hh, -⟩
  case inl => exact .inl ⟨rfl, rfl⟩
  case inr => exact owns_cons hne hh

theorem Owns.alloc (hm : HonestMalloc malloc) (h : heap.alloc malloc size alignment = some (result, heap')) :
    heap'.Owns result size := by
  obtain ⟨alignment', hc, h⟩ := Option.bind_eq_some_iff.mp h
  exact .allocateImpl hm (dvd_of_checkedAlignment hc).1 h

-- The release of another block does not change a new one.
theorem owns_free {base : Uintptr} {headers : List (Uintptr × AllocationHeader)} (hne : result ≠ 0#64) (hp : result ≠ pointer)
    (h : heap.headers = (result, ⟨base, size⟩) :: headers) : (heap.free pointer).Owns result size := by
  rw [free]
  split
  case isTrue => exact owns_cons hne h
  case isFalse => exact @owns_cons _ _ _ base (headers.eraseP (·.1 = pointer)) hne (by simp [h, hp])

-- A resized block keeps its bytes, and the header of the old block goes away.
theorem Owns.resize {memory memory' : Memory} {oldSize : SizeT} (hm : HonestMalloc malloc)
    (ho : heap.Owns pointer oldSize ∨ pointer = 0#64 ∧ oldSize = 0#64)
    (h : heap.resize malloc memory pointer size alignment = some (result, heap', memory')) :
    heap'.Owns result size ∧ ∀ i < min oldSize.toNat size.toNat,
      memory' (result + BitVec.ofNat 64 i) = memory (pointer + BitVec.ofNat 64 i) := by
  obtain ⟨alignment', hc, h⟩ := Option.bind_eq_some_iff.mp h
  have ha := (dvd_of_checkedAlignment hc).1
  by_cases hz : pointer = 0#64
  case pos =>
    simp only [hz, ite_true] at h
    obtain ⟨⟨resized, next⟩, hi, h⟩ := Option.bind_eq_some_iff.mp h
    cases h
    have hold : oldSize = 0#64 := by
      rcases ho with (⟨-, ho⟩ | ⟨hne, -⟩) | ⟨-, ho⟩
      · exact ho
      · exact absurd hz hne
      · exact ho
    refine ⟨.allocateImpl hm ha hi, fun i hlt => ?_⟩
    rw [hold, BitVec.toNat_zero, Nat.zero_min] at hlt
    cases hlt
  case neg =>
    simp only [hz, ite_false] at h
    split at h
    case isTrue hs =>
      cases h
      refine ⟨.inl ⟨rfl, hs⟩, fun i hlt => ?_⟩
      rw [hs, BitVec.toNat_zero, Nat.min_zero] at hlt
      cases hlt
    case isFalse hs =>
      obtain ⟨oldHeader, hh, h⟩ := Option.bind_eq_some_iff.mp h
      obtain ⟨⟨resized, next⟩, hi, h⟩ := Option.bind_eq_some_iff.mp h
      cases h
      obtain ⟨header, hh', hold⟩ : ∃ header, heap.header pointer = some header ∧ header.size = oldSize := by
        rcases ho with (⟨ho, -⟩ | ⟨-, ho⟩) | ⟨ho, -⟩
        · exact absurd ho hz
        · exact ho
        · exact absurd ho hz
      cases hh.symm.trans hh'
      rcases allocateImpl_eq_some hm ha hi with ⟨hs', -⟩ | ⟨hne, base, hheaders, hfresh⟩
      case inl => exact absurd hs' hs
      case inr =>
        have hp : resized ≠ pointer := fun he => by
          obtain ⟨entry, hf, -⟩ := Option.map_eq_some_iff.mp hh
          have hpointer := List.find?_some hf
          exact hfresh entry (List.mem_of_find?_eq_some hf) ((of_decide_eq_true hpointer).trans he.symm)
        refine ⟨owns_free hne hp hheaders, fun i hlt => memcpy_add ?_⟩
        have := Nat.lt_min.mp hlt
        split
        case isTrue => exact hold.symm ▸ this.1
        case isFalse => exact this.2

end Heap

end Coglet.Runtime
