import Coglet.Runtime.Memory
import Mathlib.Data.List.TakeWhile

open StructLayout Alignment

namespace Coglet.Runtime

-- The header of a block. Its payload follows it.
structure ArenaBlock where
  address        : Uintptr
  allocationSize : SizeT
  capacity       : SizeT
  used           : SizeT
deriving DecidableEq, Repr

-- The blocks are in the order of the linked list, and the null pointer is zero.
structure Arena where
  blockSize : SizeT
  blocks    : List ArenaBlock
  current   : Uintptr
deriving DecidableEq, Repr

def sizeofArenaBlock : SizeT := 32#64

namespace ArenaBlock

def base (block : ArenaBlock) : Uintptr :=
  block.address + sizeofArenaBlock

def region (block : ArenaBlock) : Region :=
  Runtime.region block.address block.allocationSize

def payload (block : ArenaBlock) : Region :=
  Runtime.region block.base block.capacity

end ArenaBlock

namespace Arena

def create (allocate : Allocate) (blockSize : SizeT) : Option Arena :=
  if allocate 56#64 sizeofPointer = 0#64 then none
  else some { blockSize := if blockSize = 0#64 then 65536#64 else blockSize, blocks := [], current := 0#64 }

def neededPayload (minimumPayload requestedAlignment : SizeT) : Option SizeT :=
  if 1#64 < requestedAlignment then
    if SIZE_MAX - (requestedAlignment - 1#64) < minimumPayload then none
    else some (minimumPayload + (requestedAlignment - 1#64))
  else some minimumPayload

def newBlock (arena : Arena) (allocate : Allocate) (minimumPayload requestedAlignment : SizeT) : Option ArenaBlock := do
  let needed ← neededPayload minimumPayload requestedAlignment
  let payload := if arena.blockSize < needed then needed else arena.blockSize
  if SIZE_MAX - sizeofArenaBlock < payload then none
  else
    let total := sizeofArenaBlock + payload
    let address := allocate total sizeofPointer
    if address = 0#64 then none
    else some { address, allocationSize := total, capacity := payload, used := 0#64 }

-- The walk through the blocks, with the result, the block it is in and the changed blocks.
def place (size alignment : SizeT) : List ArenaBlock → Option (Uintptr × Uintptr × List ArenaBlock)
  | [] => none
  | block :: next =>
    let aligned := alignUp (block.base + block.used) alignment
    if block.base ≤ aligned ∧ size ≤ block.capacity ∧ aligned - block.base ≤ block.capacity - size then
      some (aligned, block.address, { block with used := aligned - block.base + size } :: next)
    else
      (place size alignment next).map fun (result, current, next) => (result, current, block :: next)

-- The blocks in front of a block, and the list that starts with it.
def skipped (arena : Arena) (address : Uintptr) : List ArenaBlock :=
  arena.blocks.takeWhile (·.address ≠ address)

def onwards (arena : Arena) (address : Uintptr) : List ArenaBlock :=
  arena.blocks.dropWhile (·.address ≠ address)

-- The search for space starts with the current block, or with the first one.
def split (arena : Arena) : List ArenaBlock × List ArenaBlock :=
  if arena.current = 0#64 then ([], arena.blocks)
  else (arena.skipped arena.current, arena.onwards arena.current)

def alloc (arena : Arena) (allocate : Allocate) (size alignment : SizeT) : Option (Uintptr × Arena) :=
  if size = 0#64 then some (0#64, arena)
  else do
    let alignment ← checkedAlignment alignment
    match place size alignment arena.split.2 with
    | some (result, current, blocks) => some (result, { arena with blocks := arena.split.1 ++ blocks, current })
    | none =>
      let block ← arena.newBlock allocate size alignment
      let aligned := alignUp block.base alignment
      let block := { block with used := aligned - block.base + size }
      some (aligned, { arena with blocks := arena.blocks ++ [block], current := block.address })

def resize (arena : Arena) (allocate : Allocate) (memory : Memory) (pointer : Uintptr) (oldSize newSize alignment : SizeT) :
    Option (Uintptr × Arena × Memory) :=
  if pointer = 0#64 then
    (arena.alloc allocate newSize alignment).map fun (result, arena) => (result, arena, memory)
  else if newSize = 0#64 then some (0#64, arena, memory)
  else
    (arena.alloc allocate newSize alignment).map fun (resized, arena) =>
      (resized, arena, memcpy memory resized pointer (if oldSize < newSize then oldSize else newSize))

-- Individual frees do nothing.
def free (arena : Arena) (_pointer : Uintptr) (_size _alignment : SizeT) : Arena :=
  arena

def emptied (blocks : List ArenaBlock) : List ArenaBlock :=
  blocks.map fun block => { block with used := 0#64 }

def head (arena : Arena) : Uintptr :=
  arena.blocks.head?.elim 0#64 (·.address)

def reset (arena : Arena) : Arena :=
  { arena with blocks := emptied arena.blocks, current := arena.head }

def mark (arena : Arena) : Uintptr × SizeT :=
  match arena.split.2 with
  | [] => (0#64, 0#64)
  | block :: _ => (block.address, block.used)

def rewind (arena : Arena) (markBlock : Uintptr) (markUsed : SizeT) : Option Arena :=
  if markBlock = 0#64 then some arena.reset
  else
    match arena.onwards markBlock with
    | [] => none
    | block :: later =>
      if block.capacity < markUsed then none
      else some { arena with
        blocks  := arena.skipped markBlock ++ { block with used := markUsed } :: emptied later
        current := block.address }

end Arena

end Coglet.Runtime
