import Mathlib.Data.Nat.Init

-- Bytes that are read from one memory and written to another in chunks at a fixed distance.
namespace ByteChunks

variable {β : Type}

-- A byte that is not defined is `none`.
abbrev Bytes (β : Type) := Nat → Option β

def read (memory : Bytes β) (offset size : Nat) : List (Option β) :=
  (List.range size).map fun i => memory (offset + i)

def write (memory : Bytes β) (offset : Nat) (bytes : List (Option β)) : Bytes β :=
  fun k => if offset ≤ k ∧ k < offset + bytes.length then bytes[k - offset]?.join else memory k

variable (stride : Nat)

-- Chunk `i` lies at `stride * i`.
def readEach (memory : Bytes β) (i : Nat) : List Nat → List (List (Option β))
  | [] => []
  | size :: sizes => read memory (stride * i) size :: readEach memory (i + 1) sizes

def writeEach (memory : Bytes β) (i : Nat) : List (List (Option β)) → Bytes β
  | [] => memory
  | bytes :: chunks => writeEach (write memory (stride * i) bytes) (i + 1) chunks

variable {stride} {source target : Bytes β} {offset size i k : Nat} {sizes : List Nat}

theorem read_length : (read source offset size).length = size := by
  rw [read, List.length_map, List.length_range]

theorem write_read : write target offset (read source offset size) k =
    if offset ≤ k ∧ k < offset + size then source k else target k := by
  rw [write, read_length]
  split
  case isFalse => rfl
  case isTrue h =>
    have hk : k - offset < size := by omega
    rw [read, List.getElem?_map, List.getElem?_range hk]
    exact congrArg source (by omega : offset + (k - offset) = k)

theorem write_read_of_eq (h : target k = source k) : write target offset (read source offset size) k = source k := by
  rw [write_read]
  split
  case isTrue => rfl
  case isFalse => exact h

-- What is copied already stays as it is.
theorem writeEach_readEach_of_eq (h : target k = source k) :
    writeEach stride target i (readEach stride source i sizes) k = source k := by
  induction sizes generalizing i target
  case nil => exact h
  case cons ih => exact ih (write_read_of_eq h)

-- The bytes in the chunks are copied.
theorem writeEach_readEach {j : Nat} (hj : sizes[j]? = some size) (hl : stride * (i + j) ≤ k)
    (hr : k < stride * (i + j) + size) : writeEach stride target i (readEach stride source i sizes) k = source k := by
  induction sizes generalizing i j target
  case nil => cases hj
  case cons first sizes ih =>
    cases j
    case zero =>
      cases hj
      have hw : write target (stride * i) (read source (stride * i) size) k = source k := by
        rw [write_read, if_pos ⟨hl, hr⟩]
      exact writeEach_readEach_of_eq (i := i + 1) hw
    case succ j =>
      have hi : i + 1 + j = i + (j + 1) := by omega
      exact ih hj (hi ▸ hl) (hi ▸ hr)

end ByteChunks
