import Coglet.Lib.FreeList
import Coglet.Stdlib.Checked

namespace Coglet.Stdlib

abbrev Usize := BitVec 64

section Access

variable {α : Type} {xs ys : List α} {x y : α} {i : Usize}

-- The accesses to an array that belongs to an allocation with a known number of elements.
def read (xs : List α) (i : Usize) : Run α :=
  match xs[i.toNat]? with
  | some x => .ok x
  | none => .error .outOfBounds

def write (xs : List α) (i : Usize) (x : α) : Run (List α) :=
  if i.toNat < xs.length then .ok (xs.set i.toNat x) else .error .outOfBounds

theorem read_eq (h : xs[i.toNat]? = some x) : read xs i = .ok x := by
  rw [read, h]

theorem write_eq (h : i.toNat < xs.length) : write xs i x = .ok (xs.set i.toNat x) :=
  if_pos h

theorem read_append (h : i.toNat = xs.length) : read (xs ++ x :: ys) i = .ok x := by
  refine read_eq ?_
  rw [h, List.getElem?_append_right (Nat.le_refl _), Nat.sub_self]
  rfl

theorem write_append (h : i.toNat = xs.length) : write (xs ++ x :: ys) i y = .ok (xs ++ y :: ys) := by
  rw [write_eq (by simp [h]), h, List.set_append_right _ _ (Nat.le_refl _), Nat.sub_self, List.set_cons_zero]

end Access

def poolInvalidIndex : Usize := 0xffffffffffffffff#64

def poolLiveIndex : Usize := 0xfffffffffffffffe#64

structure PoolHandle where
  index      : Usize
  generation : Usize
deriving DecidableEq, Repr

def PoolHandle.invalid : PoolHandle where
  index      := poolInvalidIndex
  generation := 0#64

-- A slot without a value has not been written since its allocation.
structure Pool (α : Type) where
  data        : List (Option α)
  nextFree    : List Usize
  generations : List Usize
  capacity    : Usize
  freeHead    : Usize
  liveCount   : Usize
deriving DecidableEq, Repr

namespace Pool

variable {α : Type}

-- The loop that gives each slot a generation and links all slots in their order.
def relink (renew : Usize → Run Usize) (capacity : Usize) :
    Nat → Usize → List Usize → List Usize → Run (List Usize × List Usize)
  | 0, _, _, _ => .error .outOfFuel
  | fuel + 1, i, nextFree, generations =>
    if i < capacity then do
      let generation ← read generations i
      let renewed ← renew generation
      let generations ← write generations i renewed
      let next ← checked .plus i 1#64
      let nextFree ← write nextFree i (if next < capacity then next else poolInvalidIndex)
      relink renew capacity fuel next nextFree generations
    else .ok (nextFree, generations)

-- The allocated arrays have arbitrary contents at first.
def withCapacity (nextFree generations : List Usize) (capacity : Usize) : Run (Pool α) :=
  if capacity = 0#64 then
    .ok { data := [], nextFree := [], generations := [], capacity, freeHead := poolInvalidIndex, liveCount := 0#64 }
  else do
    let (nextFree, generations) ← relink (fun _ => .ok 1#64) capacity (capacity.toNat + 1) 0#64 nextFree generations
    return { data := List.replicate capacity.toNat none, nextFree, generations, capacity, freeHead := 0#64,
             liveCount := 0#64 }

def contains (self : Pool α) (handle : PoolHandle) : Run Bool :=
  if self.capacity ≤ handle.index then .ok false
  else do
    let next ← read self.nextFree handle.index
    if next ≠ poolLiveIndex then .ok false
    else
      let generation ← read self.generations handle.index
      return generation = handle.generation

def insert (self : Pool α) (value : α) : Run (PoolHandle × Pool α) :=
  if self.freeHead = poolInvalidIndex then .ok (.invalid, self)
  else do
    let index := self.freeHead
    let freeHead ← read self.nextFree index
    let nextFree ← write self.nextFree index poolLiveIndex
    let data ← write self.data index (some value)
    let liveCount ← checked .plus self.liveCount 1#64
    let generation ← read self.generations index
    return (⟨index, generation⟩, { self with data, nextFree, freeHead, liveCount })

-- A pointer to a slot is the index of the slot, and `none` is the null pointer.
def get (self : Pool α) (handle : PoolHandle) : Run (Option Usize) := do
  let known ← self.contains handle
  return if known then some handle.index else none

def nextGeneration (generation : Usize) : Run Usize :=
  if generation = 0xffffffffffffffff#64 then .ok 1#64 else checked .plus generation 1#64

def remove (self : Pool α) (handle : PoolHandle) : Run (Bool × Pool α) := do
  let known ← self.contains handle
  if known then
    let index := handle.index
    let generation ← read self.generations index
    let renewed ← nextGeneration generation
    let generations ← write self.generations index renewed
    let nextFree ← write self.nextFree index self.freeHead
    let liveCount ← checked .minus self.liveCount 1#64
    return (true, { self with nextFree, generations, freeHead := index, liveCount })
  else return (false, self)

def clear (self : Pool α) : Run (Pool α) := do
  let (nextFree, generations) ←
    relink nextGeneration self.capacity (self.capacity.toNat + 1) 0#64 self.nextFree self.generations
  return { self with nextFree, generations, freeHead := if self.capacity = 0#64 then poolInvalidIndex else 0#64,
                     liveCount := 0#64 }

section Relink

variable {renew : Usize → Run Usize} {f : Usize → Usize} {capacity : Usize} {fuel : Nat}

-- The link of the slot at a position when all slots are free.
def link (capacity : Usize) (i : Nat) : Usize :=
  if i + 1 < capacity.toNat then BitVec.ofNat 64 (i + 1) else poolInvalidIndex

-- The loop has handled the slots in front of `rest` already.
theorem relink_append (hr : ∀ g, renew g = .ok (f g)) {done rest done' rest' : List Usize}
    (hd : done.length = done'.length) (hl : rest.length = rest'.length)
    (hc : done.length + rest.length = capacity.toNat) (hf : rest.length < fuel) :
    relink renew capacity fuel (BitVec.ofNat 64 done.length) (done ++ rest) (done' ++ rest') =
      .ok (done ++ (List.range' done.length rest.length).map (link capacity), done' ++ rest'.map f) := by
  have hlt := capacity.isLt
  induction rest generalizing done rest' done' fuel
  case nil =>
    obtain ⟨fuel, rfl⟩ := Nat.exists_eq_add_of_lt hf
    cases rest'
    case cons => cases hl
    case nil =>
      have hn : ¬BitVec.ofNat 64 done.length < capacity := by
        rw [BitVec.lt_def, BitVec.toNat_ofNat]
        simp only [List.length_nil] at hc
        omega
      rw [relink, if_neg hn]
      simp
  case cons x rest hi =>
    obtain ⟨fuel, rfl⟩ := Nat.exists_eq_add_of_lt hf
    cases rest'
    case nil => cases hl
    case cons y rest' =>
      simp only [List.length_cons] at hl hc hf
      have hn : (BitVec.ofNat 64 done.length).toNat = done.length := by
        rw [BitVec.toNat_ofNat]
        omega
      have hlt' : BitVec.ofNat 64 done.length < capacity := by
        rw [BitVec.lt_def, hn]
        omega
      have hnext : checked .plus (BitVec.ofNat 64 done.length) 1#64 = .ok (BitVec.ofNat 64 (done.length + 1)) := by
        rw [checked_plus, hn, if_pos (by rw [show (1#64).toNat = 1 from rfl]; omega), BitVec.ofNat_add]
      have hlink : (if BitVec.ofNat 64 (done.length + 1) < capacity then BitVec.ofNat 64 (done.length + 1)
          else poolInvalidIndex) = link capacity done.length := by
        refine if_congr ?_ rfl rfl
        rw [BitVec.lt_def, BitVec.toNat_ofNat, Nat.mod_eq_of_lt (by omega)]
      rw [relink, if_pos hlt', read_append (hn.trans hd), Run.ok_bind, hr, Run.ok_bind, write_append (hn.trans hd),
        Run.ok_bind, hnext, Run.ok_bind, hlink, write_append hn, Run.ok_bind]
      have := @hi (rest.length + 1 + fuel) (done ++ [link capacity done.length]) (done' ++ [f y]) rest' (by simp [hd])
        (Nat.succ.inj hl) (by simp; omega) (by omega)
      simpa [List.range'_succ] using this

theorem relink_eq (hr : ∀ g, renew g = .ok (f g)) {nextFree generations : List Usize}
    (hn : nextFree.length = capacity.toNat) (hg : generations.length = capacity.toNat) :
    relink renew capacity (capacity.toNat + 1) 0#64 nextFree generations =
      .ok ((List.range capacity.toNat).map (link capacity), generations.map f) := by
  have h := @relink_append renew f capacity (capacity.toNat + 1) hr [] nextFree [] generations rfl (hn.trans hg.symm)
    (by simpa using hn) (by omega)
  simpa [hn, List.range_eq_range'] using h

end Relink

end Pool

end Coglet.Stdlib
