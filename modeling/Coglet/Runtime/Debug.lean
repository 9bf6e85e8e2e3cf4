import Coglet.Runtime.Memory

open Alignment

namespace Coglet.Runtime

def debugGuardSize : SizeT := 16#64

def debugGuardByte : BitVec 8 := 0xA5#8

def debugAllocByte : BitVec 8 := 0xCD#8

def debugFreeByte : BitVec 8 := 0xDD#8

def sizeofDebugBlock : SizeT := 56#64

-- The header of an allocation, at its address.
structure DebugBlock where
  address         : Uintptr
  user            : Uintptr
  size            : SizeT
  alignment       : SizeT
  totalSize       : SizeT
  parentAlignment : SizeT
  id              : BitVec 64
deriving DecidableEq, Repr

-- The blocks are in the order of the linked list.
structure DebugAllocator where
  blocks           : List DebugBlock
  nextId           : BitVec 64
  liveAllocations  : BitVec 64
  liveBytes        : BitVec 64
  totalAllocations : BitVec 64
  totalBytes       : BitVec 64
  errorCount       : BitVec 64
deriving DecidableEq, Repr

-- The messages on the standard error stream.
inductive DebugReport
  | corruption (id : BitVec 64) (frontOk backOk : Bool) (size : SizeT) (user : Uintptr)
  | invalidFree (pointer : Uintptr)
  | mismatchedFree (id : BitVec 64) (size alignment givenSize givenAlignment : SizeT)
  | invalidResize (pointer : Uintptr)
  | mismatchedResize (id : BitVec 64) (size givenSize : SizeT)
deriving DecidableEq, Repr

-- A call of the `free` function of the parent allocator.
structure ParentFree where
  pointer   : Uintptr
  size      : SizeT
  alignment : SizeT
deriving DecidableEq, Repr

-- The allocator with its surroundings. The latest entries of the logs are the first ones.
structure DebugState where
  debug  : DebugAllocator
  memory : Memory
  stderr : List DebugReport
  freed  : List ParentFree

namespace DebugBlock

def frontGuard (block : DebugBlock) : Uintptr :=
  block.user - debugGuardSize

def backGuard (block : DebugBlock) : Uintptr :=
  block.user + block.size

def headerRegion (block : DebugBlock) : Region :=
  region block.address sizeofDebugBlock

def frontRegion (block : DebugBlock) : Region :=
  region block.frontGuard debugGuardSize

def userRegion (block : DebugBlock) : Region :=
  region block.user block.size

def backRegion (block : DebugBlock) : Region :=
  region block.backGuard debugGuardSize

-- What the parent allocator has returned for the block.
def region (block : DebugBlock) : Region :=
  Runtime.region block.address block.totalSize

def guardIntact (memory : Memory) (guard : Uintptr) : Bool :=
  (List.range debugGuardSize.toNat).all fun i => memory (guard + BitVec.ofNat 64 i) = debugGuardByte

def intact (block : DebugBlock) (memory : Memory) : Bool :=
  guardIntact memory block.frontGuard && guardIntact memory block.backGuard

end DebugBlock

namespace DebugAllocator

-- The block with the previous one.
def find (pointer : Uintptr) : Option DebugBlock → List DebugBlock → Option (Option DebugBlock × DebugBlock)
  | _, [] => none
  | previous, block :: next => if block.user = pointer then some (previous, block) else find pointer (some block) next

-- The links go around the block that follows `previous`, or around the head.
def unlink : Option DebugBlock → List DebugBlock → List DebugBlock
  | none, blocks => blocks.tail
  | some _, [] => []
  | some previous, block :: next =>
    if block.address = previous.address then block :: next.tail else block :: unlink (some previous) next

def total (size alignment : SizeT) : Option SizeT :=
  let leading := sizeofDebugBlock + debugGuardSize
  if SIZE_MAX - (alignment - 1#64) < leading ∨ SIZE_MAX - size < leading + alignment - 1#64 ∨
      SIZE_MAX - debugGuardSize < leading + alignment - 1#64 + size then none
  else some (leading + alignment - 1#64 + size + debugGuardSize)

def create (allocate : Allocate) : Option DebugAllocator :=
  if allocate 88#64 sizeofPointer = 0#64 then none
  else some
    { blocks := [], nextId := 1#64, liveAllocations := 0#64, liveBytes := 0#64, totalAllocations := 0#64,
      totalBytes := 0#64, errorCount := 0#64 }

def check (debug : DebugAllocator) (memory : Memory) : Bool :=
  debug.blocks.all (·.intact memory)

end DebugAllocator

namespace DebugState

def report (state : DebugState) (report : DebugReport) : DebugState :=
  { state with
    debug  := { state.debug with errorCount := state.debug.errorCount + 1#64 }
    stderr := report :: state.stderr }

def reportCorruption (state : DebugState) (block : DebugBlock) : DebugState :=
  let frontOk := DebugBlock.guardIntact state.memory block.frontGuard
  let backOk := DebugBlock.guardIntact state.memory block.backGuard
  if frontOk && backOk then state
  else state.report (.corruption block.id frontOk backOk block.size block.user)

def push (state : DebugState) (block : DebugBlock) : DebugState :=
  let memory := memset state.memory (block.user - debugGuardSize) debugGuardByte debugGuardSize
  let memory := memset memory block.user debugAllocByte block.size
  let memory := memset memory (block.user + block.size) debugGuardByte debugGuardSize
  { state with
    debug := { state.debug with
      blocks           := block :: state.debug.blocks
      nextId           := state.debug.nextId + 1#64
      liveAllocations  := state.debug.liveAllocations + 1#64
      liveBytes        := state.debug.liveBytes + block.size
      totalAllocations := state.debug.totalAllocations + 1#64
      totalBytes       := state.debug.totalBytes + block.size }
    memory }

-- The result `none` is a call of `abort`.
def allocateInternal (state : DebugState) (allocate : Allocate) (size alignment : SizeT) : Option (Uintptr × DebugState) :=
  if size = 0#64 then some (0#64, state)
  else do
    let alignment ← checkedAlignment alignment
    let total ← DebugAllocator.total size alignment
    let raw := allocate total sizeofPointer
    if raw = 0#64 then none
    else
      let user := alignUp (raw + sizeofDebugBlock + debugGuardSize) alignment
      some (user, state.push
        { address := raw, user, size, alignment, totalSize := total, parentAlignment := sizeofPointer,
          id := state.debug.nextId })

def alloc (state : DebugState) (allocate : Allocate) (size alignment : SizeT) : Option (Uintptr × DebugState) :=
  state.allocateInternal allocate size alignment

-- The bookkeeping after the layout check.
def release (state : DebugState) (previous : Option DebugBlock) (block : DebugBlock) : DebugState :=
  let state := state.reportCorruption block
  { state with
    debug := { state.debug with
      blocks          := DebugAllocator.unlink previous state.debug.blocks
      liveAllocations := state.debug.liveAllocations - 1#64
      liveBytes       := state.debug.liveBytes - block.size }
    memory := memset state.memory block.user debugFreeByte block.size
    freed  := ⟨block.address, block.totalSize, block.parentAlignment⟩ :: state.freed }

def free (state : DebugState) (pointer : Uintptr) (size alignment : SizeT) : Option DebugState :=
  if pointer = 0#64 then some state
  else
    match DebugAllocator.find pointer none state.debug.blocks with
    | none => some (state.report (.invalidFree pointer))
    | some (previous, block) =>
      if size ≠ block.size then
        some ((state.report (.mismatchedFree block.id block.size block.alignment size alignment)).release previous block)
      else do
        let checked ← checkedAlignment alignment
        if checked ≠ block.alignment then
          some ((state.report (.mismatchedFree block.id block.size block.alignment size alignment)).release previous block)
        else some (state.release previous block)

def resize (state : DebugState) (allocate : Allocate) (pointer : Uintptr) (oldSize newSize alignment : SizeT) :
    Option (Uintptr × DebugState) :=
  if pointer = 0#64 then state.allocateInternal allocate newSize alignment
  else if newSize = 0#64 then (state.free pointer oldSize alignment).map fun state => (0#64, state)
  else
    match DebugAllocator.find pointer none state.debug.blocks with
    | none => some (0#64, state.report (.invalidResize pointer))
    | some (_, block) => do
      let state := if oldSize ≠ block.size then state.report (.mismatchedResize block.id block.size oldSize) else state
      let (resized, state) ← state.allocateInternal allocate newSize alignment
      if resized = 0#64 then some (0#64, state)
      else
        let memory := memcpy state.memory resized pointer (if block.size < newSize then block.size else newSize)
        let state ← { state with memory }.free pointer block.size block.alignment
        some (resized, state)

end DebugState

end Coglet.Runtime
