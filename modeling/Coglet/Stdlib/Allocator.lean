import Coglet.Lib.Elements
import Coglet.Runtime.Memory
import Coglet.Stdlib.Checked

namespace Coglet.Stdlib

open Runtime (Memory Uintptr SizeT)

-- The state of an allocator and the memory of the program.
structure World (σ : Type) where
  state  : σ
  memory : Memory

-- The functions of an allocator. Their faults are failures of the allocation.
structure Allocator (σ : Type) where
  allocate : World σ → SizeT → SizeT → Run (Uintptr × World σ)
  resize   : World σ → Uintptr → SizeT → SizeT → SizeT → Run (Uintptr × World σ)
  free     : World σ → Uintptr → SizeT → SizeT → Run (World σ)

variable {σ α : Type}

namespace Mem

-- The type argument of these functions is its representation.
def alloc (t : ByteRepresentation 64 α) (allocator : Allocator σ) (world : World σ) (count : SizeT) :
    Run (Uintptr × World σ) :=
  if count = 0#64 then .ok (0#64, world)
  else do
    let bytes ← checked .star count t.size
    allocator.allocate world bytes t.alignment

def free (t : ByteRepresentation 64 α) (allocator : Allocator σ) (world : World σ) (pointer : Uintptr) (count : SizeT) :
    Run (World σ) :=
  if pointer = 0#64 then .ok world
  else do
    let bytes ← checked .star count t.size
    allocator.free world pointer bytes t.alignment

def resize (t : ByteRepresentation 64 α) (allocator : Allocator σ) (world : World σ) (pointer : Uintptr)
    (oldCount newCount : SizeT) : Run (Uintptr × World σ) :=
  if newCount = 0#64 then do
    let world ← free t allocator world pointer oldCount
    return (0#64, world)
  else do
    let oldBytes ← checked .star oldCount t.size
    let newBytes ← checked .star newCount t.size
    allocator.resize world pointer oldBytes newBytes t.alignment

end Mem

-- What a caller knows about an allocator: `resize` keeps the bytes of the blocks that it owns.
structure Allocator.Contract (allocator : Allocator σ) (Owns : σ → Uintptr → SizeT → Prop) : Prop where
  allocate : ∀ {world world' size alignment pointer}, allocator.allocate world size alignment = .ok (pointer, world') →
    Owns world'.state pointer size
  resize   : ∀ {world world' pointer oldSize newSize alignment result},
    Owns world.state pointer oldSize ∨ pointer = 0#64 ∧ oldSize = 0#64 →
    allocator.resize world pointer oldSize newSize alignment = .ok (result, world') →
    Owns world'.state result newSize ∧ ∀ i < min oldSize.toNat newSize.toNat,
      world'.memory (result + BitVec.ofNat 64 i) = world.memory (pointer + BitVec.ofNat 64 i)

end Coglet.Stdlib
