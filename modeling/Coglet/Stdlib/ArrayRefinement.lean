import Coglet.Stdlib.Array
import Coglet.Stdlib.HeapAllocator

open ByteRepresentation

namespace Coglet.Stdlib

open Runtime (Memory Uintptr SizeT)

variable {σ α : Type} {t : ByteRepresentation 64 α} {allocator : Allocator σ} {Owns : σ → Uintptr → SizeT → Prop}
  {world world' : World σ}

namespace Array

variable {array array' : Array σ} {xs : List α} {x : α} {additional capacity : SizeT}

-- The array holds the elements of a list.
structure Represents (t : ByteRepresentation 64 α) (allocator : Allocator σ) (Owns : σ → Uintptr → SizeT → Prop)
    (array : Array σ) (world : World σ) (xs : List α) : Prop where
  allocator : array.allocator = allocator
  len       : array.len.toNat = xs.length
  le        : array.len ≤ array.capacity
  bytes     : array.capacity.toNat * t.size.toNat < 2 ^ 64
  owned     : Owns world.state array.data (array.capacity * t.size) ∨ array.data = 0#64 ∧ array.capacity = 0#64
  stores    : t.Stores world.memory array.data xs

theorem toNat_bytes (h : capacity.toNat * t.size.toNat < 2 ^ 64) :
    (capacity * t.size).toNat = capacity.toNat * t.size.toNat := by
  rw [BitVec.toNat_mul, Nat.mod_eq_of_lt h]

theorem Represents.new : Represents t allocator Owns (.new allocator) world [] where
  allocator := rfl
  len       := rfl
  le        := BitVec.le_refl _
  bytes     := by
    rw [show (Array.new allocator).capacity.toNat = 0 from rfl, Nat.zero_mul]
    exact Nat.two_pow_pos 64
  owned     := .inr ⟨rfl, rfl⟩
  stores    := .nil

theorem Represents.withCapacity (hc : allocator.Contract Owns)
    (h : withCapacity t allocator world capacity = .ok (array, world')) : Represents t allocator Owns array world' [] := by
  rw [Array.withCapacity] at h
  split at h
  case isTrue hne =>
    obtain ⟨⟨data, _⟩, ha, h⟩ := Run.bind_eq_ok.mp h
    cases h
    rw [Mem.alloc, if_neg hne] at ha
    obtain ⟨bytes, hb, ha⟩ := Run.bind_eq_ok.mp ha
    obtain ⟨hlt, rfl⟩ := checked_star_eq_ok.mp hb
    exact ⟨rfl, rfl, BitVec.le_def.mpr (Nat.zero_le _), hlt, .inl (hc.allocate ha), .nil⟩
  case isFalse =>
    cases h
    exact .new

theorem Represents.reserve (hc : allocator.Contract Owns) (h : Represents t allocator Owns array world xs)
    (hr : array.reserve t world additional = .ok (array', world')) :
    Represents t allocator Owns array' world' xs ∧ array'.len = array.len ∧ array.capacity ≤ array'.capacity ∧
    array.len.toNat + additional.toNat ≤ array'.capacity.toNat := by
  obtain ⟨required, hreq, hr⟩ := Run.bind_eq_ok.mp hr
  obtain ⟨hlt, rfl⟩ := checked_plus_eq_ok.mp hreq
  have hsum : (array.len + additional).toNat = array.len.toNat + additional.toNat := by
    rw [BitVec.toNat_add, Nat.mod_eq_of_lt hlt]
  split at hr
  case isTrue hle =>
    cases hr
    exact ⟨h, rfl, BitVec.le_refl _, hsum ▸ BitVec.le_def.mp hle⟩
  case isFalse hgt =>
    obtain ⟨capacity, hn, hr⟩ := Run.bind_eq_ok.mp hr
    obtain ⟨⟨data, next⟩, hm, hr⟩ := Run.bind_eq_ok.mp hr
    cases hr
    obtain ⟨hreq, hcap⟩ : array.len + additional ≤ capacity ∧ array.capacity ≤ capacity := by
      rcases nextCapacity_cases with ⟨result, hok, hle⟩ | htrap
      · cases hok.symm.trans hn
        exact hle
      · cases htrap.symm.trans hn
    have hpos : capacity ≠ 0#64 := by
      rintro rfl
      exact hgt (BitVec.le_trans hreq (BitVec.le_def.mpr (Nat.zero_le _)))
    rw [Mem.resize, if_neg hpos] at hm
    obtain ⟨oldBytes, hold, hm⟩ := Run.bind_eq_ok.mp hm
    obtain ⟨newBytes, hnew, hm⟩ := Run.bind_eq_ok.mp hm
    obtain ⟨-, rfl⟩ := checked_star_eq_ok.mp hold
    obtain ⟨hbytes, rfl⟩ := checked_star_eq_ok.mp hnew
    rw [h.allocator] at hm
    have howned : Owns world.state array.data (array.capacity * t.size) ∨
        array.data = 0#64 ∧ array.capacity * t.size = 0#64 :=
      h.owned.imp id fun ⟨hd, hz⟩ => ⟨hd, by rw [hz, BitVec.zero_mul]⟩
    obtain ⟨howns, hcopy⟩ := hc.resize howned hm
    rw [toNat_bytes h.bytes, toNat_bytes hbytes] at hcopy
    have hlen := h.len ▸ BitVec.le_def.mp h.le
    have hcap' := BitVec.le_def.mp hcap
    refine ⟨⟨h.allocator, h.len, BitVec.le_trans h.le hcap, hbytes, .inl howns, h.stores.copy fun i hi => hcopy i ?_⟩,
      rfl, hcap, hsum ▸ BitVec.le_def.mp hreq⟩
    exact Nat.lt_min.mpr ⟨Nat.lt_of_lt_of_le hi (Nat.mul_le_mul_right _ hlen),
      Nat.lt_of_lt_of_le hi (Nat.mul_le_mul_right _ (hlen.trans hcap'))⟩

theorem Represents.push (hc : allocator.Contract Owns) (h : Represents t allocator Owns array world xs)
    (hp : array.push t world x = .ok (array', world')) : Represents t allocator Owns array' world' (xs ++ [x]) := by
  obtain ⟨⟨reserved, next⟩, hr, hp⟩ := Run.bind_eq_ok.mp hp
  obtain ⟨hrep, heq, -, hle⟩ := h.reserve hc hr
  obtain ⟨len, hl, hp⟩ := Run.bind_eq_ok.mp hp
  obtain ⟨hlt, rfl⟩ := checked_plus_eq_ok.mp hl
  cases hp
  have hlen := hrep.len
  have hsum : (reserved.len + 1#64).toNat = xs.length + 1 := by rw [BitVec.toNat_add, Nat.mod_eq_of_lt hlt, hlen]; rfl
  have hcap : xs.length + 1 ≤ reserved.capacity.toNat := by
    rw [← heq, hlen] at hle
    exact hle
  exact ⟨hrep.allocator, hsum.trans (by simp), BitVec.le_def.mpr (hsum ▸ hcap), hrep.bytes, hrep.owned,
    hrep.stores.store hlen ((Nat.mul_le_mul_right _ hcap).trans (Nat.le_of_lt hrep.bytes))⟩

theorem Represents.pop (h : Represents t allocator Owns array world xs) (hp : array.pop t world = .ok (x, array')) :
    ∃ ys, xs = ys ++ [x] ∧ Represents t allocator Owns array' world ys := by
  obtain ⟨len, hl, hp⟩ := Run.bind_eq_ok.mp hp
  obtain ⟨hle, rfl⟩ := checked_minus_eq_ok.mp hl
  cases hp
  have hsub : (array.len - 1#64).toNat = xs.length - 1 := by rw [BitVec.toNat_sub_of_le hle, h.len]; rfl
  have hpos : 1 ≤ xs.length := h.len ▸ BitVec.le_def.mp hle
  rcases List.eq_nil_or_concat xs with rfl | ⟨ys, y, rfl⟩
  case inl => cases hpos
  case inr =>
    have hlen : (array.len - 1#64).toNat = ys.length := by
      rw [hsub, List.concat_eq_append, List.length_append]
      exact Nat.add_sub_cancel _ _
    rw [List.concat_eq_append] at h ⊢
    have hload : t.load world.memory (t.element array.data (array.len - 1#64)) = y :=
      h.stores.load (by rw [hlen, List.getElem?_append_right (Nat.le_refl _), Nat.sub_self]; rfl)
    refine ⟨ys, by rw [hload], h.allocator, hlen, ?_, h.bytes, h.owned, h.stores.of_append⟩
    have hcap := h.len ▸ BitVec.le_def.mp h.le
    rw [List.length_append] at hcap
    exact BitVec.le_def.mpr (hlen ▸ (Nat.le_add_right _ _).trans hcap)

theorem Represents.clear (h : Represents t allocator Owns array world xs) :
    Represents t allocator Owns array.clear world [] :=
  ⟨h.allocator, rfl, BitVec.le_def.mpr (Nat.zero_le _), h.bytes, h.owned, .nil⟩

theorem Represents.deinit (h : Represents t allocator Owns array world xs)
    (hd : array.deinit t world = .ok (array', world')) : Represents t allocator Owns array' world' [] := by
  obtain ⟨next, -, hd⟩ := Run.bind_eq_ok.mp hd
  cases hd
  have hnew := @Represents.new _ _ t allocator Owns world'
  rw [← h.allocator] at hnew ⊢
  exact hnew

section History

inductive Operation (α : Type)
  | reserve (additional : SizeT)
  | push (value : α)
  | pop
  | clear
  | deinit

-- An array with the values that `pop` has returned, the latest one first.
structure History (σ α : Type) where
  array   : Array σ
  world   : World σ
  outputs : List α

def step (t : ByteRepresentation 64 α) (history : History σ α) : Operation α → Run (History σ α)
  | .reserve additional => do
    let (array, world) ← history.array.reserve t history.world additional
    return { history with array, world }
  | .push value => do
    let (array, world) ← history.array.push t history.world value
    return { history with array, world }
  | .pop => do
    let (value, array) ← history.array.pop t history.world
    return { history with array, outputs := value :: history.outputs }
  | .clear => .ok { history with array := history.array.clear }
  | .deinit => do
    let (array, world) ← history.array.deinit t history.world
    return { history with array, world }

def run (t : ByteRepresentation 64 α) (history : History σ α) (operations : List (Operation α)) : Run (History σ α) :=
  operations.foldlM (step t) history

-- The same operations on a list.
def listStep (state : List α × List α) : Operation α → List α × List α
  | .reserve _ => state
  | .push value => (state.1 ++ [value], state.2)
  | .pop => (state.1.dropLast, state.1.getLast?.toList ++ state.2)
  | .clear => ([], state.2)
  | .deinit => ([], state.2)

def listRun (operations : List (Operation α)) : List α × List α :=
  operations.foldl listStep ([], [])

variable {history history' : History σ α} {operation : Operation α} {operations : List (Operation α)} {state : List α × List α}

-- The array holds the list, and both have returned the same values.
structure Simulates (t : ByteRepresentation 64 α) (allocator : Allocator σ) (Owns : σ → Uintptr → SizeT → Prop)
    (history : History σ α) (state : List α × List α) : Prop where
  represents : Represents t allocator Owns history.array history.world state.1
  outputs    : history.outputs = state.2

theorem Simulates.step (hc : allocator.Contract Owns) (h : Simulates t allocator Owns history state)
    (hs : step t history operation = .ok history') : Simulates t allocator Owns history' (listStep state operation) := by
  cases operation
  case reserve =>
    obtain ⟨⟨array, world⟩, hr, hs⟩ := Run.bind_eq_ok.mp hs
    cases hs
    exact ⟨(h.represents.reserve hc hr).1, h.outputs⟩
  case push =>
    obtain ⟨⟨array, world⟩, hp, hs⟩ := Run.bind_eq_ok.mp hs
    cases hs
    exact ⟨h.represents.push hc hp, h.outputs⟩
  case pop =>
    obtain ⟨⟨value, array⟩, hp, hs⟩ := Run.bind_eq_ok.mp hs
    cases hs
    obtain ⟨ys, hy, hrep⟩ := h.represents.pop hp
    constructor
    · rw [listStep, hy, List.dropLast_concat]
      exact hrep
    · rw [listStep, hy, List.getLast?_concat, h.outputs]
      rfl
  case clear =>
    cases hs
    exact ⟨h.represents.clear, h.outputs⟩
  case deinit =>
    obtain ⟨⟨array, world⟩, hd, hs⟩ := Run.bind_eq_ok.mp hs
    cases hs
    exact ⟨h.represents.deinit hd, h.outputs⟩

theorem Simulates.run (hc : allocator.Contract Owns) (h : Simulates t allocator Owns history state)
    (hr : run t history operations = .ok history') :
    Simulates t allocator Owns history' (operations.foldl listStep state) := by
  induction operations generalizing history state
  case nil =>
    cases hr
    exact h
  case cons operation operations hi =>
    obtain ⟨next, hs, hn⟩ := Run.bind_eq_ok.mp hr
    exact hi (h.step hc hs) hn

theorem Represents.asSlice (h : Represents t allocator Owns array world xs) : array.asSlice t world = xs := by
  rw [Array.asSlice, h.len]
  exact h.stores.elements (h.len ▸ Nat.le_of_lt array.len.isLt)

theorem run_refines (hc : allocator.Contract Owns)
    (hs : array = .new allocator ∨ ∃ start capacity, withCapacity t allocator start capacity = .ok (array, world))
    (hr : run t ⟨array, world, []⟩ operations = .ok history) :
    history.array.len ≤ history.array.capacity ∧
    history.array.asSlice t history.world = (listRun operations).1 ∧ history.outputs = (listRun operations).2 ∧
    (∀ additional array' world', history.array.reserve t history.world additional = .ok (array', world') →
      history.array.len.toNat + additional.toNat ≤ array'.capacity.toNat ∧ history.array.capacity ≤ array'.capacity) ∧
    ∀ capacity required, (∃ result, nextCapacity capacity required = .ok result ∧ required ≤ result) ∨
      nextCapacity capacity required = .error .trap := by
  have hstart : Simulates t allocator Owns ⟨array, world, []⟩ ([], []) := by
    rcases hs with rfl | ⟨start, capacity, hw⟩
    · exact ⟨.new, rfl⟩
    · exact ⟨.withCapacity hc hw, rfl⟩
  have h := hstart.run hc hr
  refine ⟨h.represents.le, h.represents.asSlice, h.outputs, fun additional array' world' hr => ?_, fun capacity required => ?_⟩
  case refine_1 =>
    obtain ⟨-, -, hcap, hle⟩ := h.represents.reserve hc hr
    exact ⟨hle, hcap⟩
  case refine_2 => exact nextCapacity_cases.imp (fun ⟨result, hok, hreq, _⟩ => ⟨result, hok, hreq⟩) id

-- Elements of one byte, and a system that has one block.
def byte : ByteRepresentation 64 (BitVec 8) where
  size          := 1#64
  alignment     := 1#64
  encode x _    := x
  decode bytes  := bytes 0
  decode_encode _ _ h := h 0 (by decide)

def oneBlock : Runtime.Malloc := fun heap total =>
  if heap.headers = [] ∧ total ≤ 64#64 then 4096#64 else 0#64

theorem oneBlock_honest : Runtime.Heap.HonestMalloc oneBlock := by
  intro heap total hne
  have hfirst : heap.headers = [] ∧ total ≤ 64#64 := Decidable.not_not.mp fun hn => hne (if_neg hn)
  rw [oneBlock, if_pos hfirst, hfirst.1]
  refine ⟨?_, fun _ he => absurd he List.not_mem_nil⟩
  have := BitVec.le_def.mp hfirst.2
  rw [show (64#64).toNat = 64 from rfl] at this
  rw [show (4096#64).toNat = 4096 from rfl]
  omega

theorem push_byte : ∃ history, run byte ⟨.new (heap oneBlock), ⟨⟨[]⟩, fun _ => 0#8⟩, []⟩ [.push 5#8, .pop] = .ok history := by
  have h₁ : checked .plus 0#64 1#64 = .ok 1#64 := by
    rw [checked_plus]
    rfl
  have h₂ : checked .minus 1#64 1#64 = .ok 0#64 := by
    rw [checked_minus]
    rfl
  have h₃ : checked .star 0#64 1#64 = .ok 0#64 := by
    rw [checked_star]
    rfl
  have h₄ : checked .star 8#64 1#64 = .ok 8#64 := by
    rw [checked_star]
    rfl
  have h₅ : nextCapacity 0#64 1#64 = .ok 8#64 := rfl
  have hr : (Array.new (heap oneBlock)).reserve byte ⟨⟨[]⟩, fun _ => 0#8⟩ 1#64 =
      .ok ({ Array.new (heap oneBlock) with data := 4112#64, capacity := 8#64 }, ⟨⟨[(4112#64, ⟨4096#64, 8#64⟩)]⟩, fun _ => 0#8⟩) := by
    simp only [reserve, Array.new, h₁, h₅, Mem.resize, byte, h₃, h₄, Run.ok_bind]
    rfl
  simp only [Array.new] at hr
  simp only [run, List.foldlM, step, push, hr, Run.ok_bind, Array.new, h₁, pop, h₂, pure, Except.pure]
  exact ⟨_, rfl⟩

theorem run_refines_byte : ∃ history, run byte ⟨.new (heap oneBlock), ⟨⟨[]⟩, fun _ => 0#8⟩, []⟩ [.push 5#8, .pop] = .ok history ∧
    history.outputs = [5#8] := by
  obtain ⟨history, hr⟩ := push_byte
  exact ⟨history, hr, (run_refines (heap_contract oneBlock_honest) (.inl rfl) hr).2.2.1⟩

end History

end Array

end Coglet.Stdlib
