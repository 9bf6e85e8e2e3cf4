import Coglet.Runtime.Heap
import Coglet.Stdlib.Allocator

namespace Coglet.Stdlib

open Runtime (Heap Malloc)

def Run.ofOption {α : Type} : Option α → Run α
  | some x => .ok x
  | none => .error .trap

@[simp]
theorem Run.ofOption_eq_ok {α : Type} {x : Option α} {y : α} : Run.ofOption x = .ok y ↔ x = some y := by
  cases x <;> simp [Run.ofOption]

-- The allocator of the C runtime does not use the old size of a block.
def heap (malloc : Malloc) : Allocator Heap where
  allocate world size alignment := Run.ofOption <|
    (world.state.alloc malloc size alignment).map fun (pointer, state) => (pointer, { world with state })
  resize world pointer _ newSize alignment := Run.ofOption <|
    (world.state.resize malloc world.memory pointer newSize alignment).map fun (pointer, state, memory) =>
      (pointer, { state, memory })
  free world pointer _ _ := .ok { world with state := world.state.free pointer }

theorem heap_contract {malloc : Malloc} (hm : Heap.HonestMalloc malloc) : (heap malloc).Contract Heap.Owns where
  allocate h := by
    obtain ⟨⟨pointer, state⟩, ha, he⟩ := Option.map_eq_some_iff.mp (Run.ofOption_eq_ok.mp h)
    cases he
    exact .alloc hm ha
  resize ho h := by
    obtain ⟨⟨pointer, state, memory⟩, hr, he⟩ := Option.map_eq_some_iff.mp (Run.ofOption_eq_ok.mp h)
    cases he
    exact Heap.Owns.resize hm ho hr

end Coglet.Stdlib
