import Coglet.Stdlib.Pool
import Mathlib.Data.List.Perm.Subperm

open FreeList

namespace Coglet.Stdlib.Pool

variable {α : Type} {pool pool' : Pool α} {chain : List Usize} {handle : PoolHandle} {value : α} {i : Usize}

def next (pool : Pool α) (i : Usize) : Option Usize :=
  pool.nextFree[i.toNat]?

def generation (pool : Pool α) (i : Usize) : Option Usize :=
  pool.generations[i.toNat]?

-- The slots that are marked as live.
def liveSlots (pool : Pool α) : List Nat :=
  (List.range pool.capacity.toNat).filter fun i => pool.nextFree[i]? = some poolLiveIndex

-- The free slots form the list `chain`.
structure Valid (pool : Pool α) (chain : List Usize) : Prop where
  data        : pool.data.length = pool.capacity.toNat
  nextFree    : pool.nextFree.length = pool.capacity.toNat
  generations : pool.generations.length = pool.capacity.toNat
  bound       : pool.capacity < poolLiveIndex
  links       : Links pool.next poolInvalidIndex pool.freeHead chain
  nodup       : chain.Nodup
  mem_iff     : ∀ i, i ∈ chain ↔ i < pool.capacity ∧ pool.next i ≠ some poolLiveIndex
  count       : pool.liveCount.toNat + chain.length = pool.capacity.toNat

namespace Valid

theorem getElem?_isSome {β : Type} {xs : List β} (h : xs.length = pool.capacity.toNat) (hi : i < pool.capacity) :
    ∃ x, xs[i.toNat]? = some x :=
  ⟨_, List.getElem?_eq_getElem (h ▸ hi)⟩

theorem next_eq (h : pool.Valid chain) (hi : i < pool.capacity) : ∃ x, pool.next i = some x :=
  getElem?_isSome h.nextFree hi

theorem generation_eq (h : pool.Valid chain) (hi : i < pool.capacity) : ∃ g, pool.generation i = some g :=
  getElem?_isSome h.generations hi

theorem ne_invalid (h : pool.Valid chain) (hi : i < pool.capacity) : i ≠ poolInvalidIndex := by
  rintro rfl
  have := BitVec.lt_def.mp hi
  have := BitVec.lt_def.mp h.bound
  have h₁ : poolInvalidIndex.toNat = 0xffffffffffffffff := rfl
  have h₂ : poolLiveIndex.toNat = 0xfffffffffffffffe := rfl
  omega

theorem ne_live (h : pool.Valid chain) (hi : i < pool.capacity) : i ≠ poolLiveIndex := by
  rintro rfl
  have := BitVec.lt_def.mp hi
  have := BitVec.lt_def.mp h.bound
  omega

-- The first link is not the mark of a live slot.
theorem freeHead_ne_live (h : pool.Valid chain) : pool.freeHead ≠ poolLiveIndex := by
  cases chain
  case nil =>
    rw [h.links.eq_nil_iff.mp rfl]
    decide
  case cons i is =>
    obtain ⟨he, -⟩ := h.links.pop
    exact he ▸ h.ne_live ((h.mem_iff i).mp List.mem_cons_self).1

theorem length_liveSlots (h : pool.Valid chain) : pool.liveCount.toNat = pool.liveSlots.length := by
  have hperm : (chain.map BitVec.toNat).Perm
      ((List.range pool.capacity.toNat).filter fun i => !decide (pool.nextFree[i]? = some poolLiveIndex)) := by
    refine (List.perm_ext_iff_of_nodup ?_ (List.nodup_range.filter _)).mpr fun n => ?_
    case refine_1 => exact h.nodup.map_on fun _ _ _ _ he => BitVec.eq_of_toNat_eq he
    case refine_2 =>
      simp only [List.mem_map, h.mem_iff, List.mem_filter, List.mem_range, next]
      constructor
      case mp =>
        rintro ⟨i, ⟨hi, hn⟩, rfl⟩
        exact ⟨hi, by simpa using hn⟩
      case mpr =>
        rintro ⟨hi, hn⟩
        have hl := pool.capacity.isLt
        have he : (BitVec.ofNat 64 n).toNat = n := Nat.mod_eq_of_lt (Nat.lt_trans hi hl)
        exact ⟨BitVec.ofNat 64 n, ⟨by rw [BitVec.lt_def, he]; exact hi, by rw [he]; simpa using hn⟩, he⟩
  have hs := List.length_eq_length_filter_add (l := List.range pool.capacity.toNat)
    fun i => decide (pool.nextFree[i]? = some poolLiveIndex)
  have hc := h.count
  rw [← hperm.length_eq, List.length_map, List.length_range] at hs
  rw [liveSlots]
  omega

theorem full_iff (h : pool.Valid chain) : pool.freeHead = poolInvalidIndex ↔ pool.liveCount = pool.capacity := by
  have hc := h.count
  rw [← h.links.eq_nil_iff, ← List.length_eq_zero_iff, ← BitVec.toNat_inj]
  omega

end Valid

theorem getElem?_set_toNat {β : Type} {xs : List β} {x : β} {i k : Usize} (h : i.toNat < xs.length) :
    (xs.set i.toNat x)[k.toNat]? = if k = i then some x else xs[k.toNat]? := by
  rw [List.getElem?_set]
  by_cases hk : k = i
  case pos => simp [hk, h]
  case neg =>
    have hn : i.toNat ≠ k.toNat := fun he => hk (BitVec.eq_of_toNat_eq he.symm)
    simp [hk, hn]

theorem contains_eq (h : pool.Valid chain) : pool.contains handle =
    .ok (decide (pool.next handle.index = some poolLiveIndex ∧ pool.generation handle.index = some handle.generation)) := by
  rw [contains]
  by_cases hi : handle.index < pool.capacity
  case neg =>
    have hn : pool.next handle.index = none :=
      List.getElem?_eq_none (h.nextFree ▸ Nat.le_of_not_lt fun hl => hi hl)
    rw [if_pos (BitVec.not_lt.mp hi), hn]
    rfl
  case pos =>
    obtain ⟨x, hx⟩ := h.next_eq hi
    obtain ⟨g, hg⟩ := h.generation_eq hi
    rw [if_neg (BitVec.not_le.mpr hi), read_eq hx, Run.ok_bind, read_eq hg, Run.ok_bind, hx, hg]
    by_cases hl : x = poolLiveIndex <;> simp [hl, pure, Except.pure]

theorem write_of_lt {β : Type} {xs : List β} {x : β} (h : xs.length = pool.capacity.toNat) (hi : i < pool.capacity) :
    write xs i x = .ok (xs.set i.toNat x) :=
  write_eq (Nat.lt_of_lt_of_eq hi h.symm)

section Insert

variable {j : Usize} {is : List Usize}

def occupy (pool : Pool α) (i j : Usize) (value : α) : Pool α :=
  { pool with
    data      := pool.data.set i.toNat (some value)
    nextFree  := pool.nextFree.set i.toNat poolLiveIndex
    freeHead  := j
    liveCount := pool.liveCount + 1#64 }

@[simp]
theorem occupy_capacity : (pool.occupy i j value).capacity = pool.capacity :=
  rfl

theorem occupy_next (h : pool.Valid chain) (hi : i < pool.capacity) (k : Usize) :
    (pool.occupy i j value).next k = if k = i then some poolLiveIndex else pool.next k :=
  getElem?_set_toNat (h.nextFree ▸ hi)

theorem insert_invalid (h : pool.freeHead = poolInvalidIndex) : pool.insert value = .ok (.invalid, pool) :=
  if_pos h

theorem liveCount_add (h : pool.Valid (i :: is)) : (pool.liveCount + 1#64).toNat = pool.liveCount.toNat + 1 := by
  have hc := h.count
  have hl := pool.capacity.isLt
  rw [List.length_cons] at hc
  rw [BitVec.toNat_add, show (1#64).toNat = 1 from rfl]
  omega

theorem insert_eq (h : pool.Valid (i :: is)) (value : α) : ∃ g j, pool.generation i = some g ∧
    pool.insert value = .ok (⟨i, g⟩, pool.occupy i j value) ∧ (pool.occupy i j value).Valid is := by
  obtain ⟨he, hne, j, hj, hl⟩ := h.links.pop
  obtain ⟨hi, -⟩ := (h.mem_iff i).mp List.mem_cons_self
  obtain ⟨g, hg⟩ := h.generation_eq hi
  obtain ⟨hnot, hnodup⟩ := List.nodup_cons.mp h.nodup
  have hcount := liveCount_add h
  have hlive := h.count
  rw [List.length_cons] at hlive
  refine ⟨g, j, hg, ?_, ?_⟩
  case refine_1 =>
    have hc : checked .plus pool.liveCount 1#64 = .ok (pool.liveCount + 1#64) := by
      have := pool.capacity.isLt
      rw [checked_plus, if_pos (by rw [show (1#64).toNat = 1 from rfl]; omega)]
    rw [he] at hne hj
    simp only [insert, he, if_neg hne, read_eq hj, write_of_lt h.nextFree hi, write_of_lt h.data hi, hc, read_eq hg,
      Run.ok_bind]
    rfl
  case refine_2 =>
    refine ⟨?_, ?_, h.generations, h.bound, hl.congr fun k hk => ?_, hnodup, fun k => ?_, ?_⟩
    · rw [occupy, List.length_set, h.data]
    · rw [occupy, List.length_set, h.nextFree]
    · have hki : k ≠ i := fun he => hnot (he ▸ hk)
      rw [occupy_next h hi, if_neg hki]
    · rw [occupy_next h hi, occupy_capacity]
      have hk := h.mem_iff k
      rw [List.mem_cons] at hk
      by_cases hki : k = i
      case pos => simp [hki, hnot]
      case neg => simpa [hki] using hk
    · rw [occupy_capacity, occupy, hcount]
      omega

end Insert

section Remove

variable {g : Usize}

def renewed (g : Usize) : Usize :=
  if g = 0xffffffffffffffff#64 then 1#64 else g + 1#64

theorem nextGeneration_eq (g : Usize) : nextGeneration g = .ok (renewed g) := by
  rw [nextGeneration, renewed]
  split
  case isTrue => rfl
  case isFalse h =>
    have hl := g.isLt
    have hn : g.toNat ≠ 0xffffffffffffffff := fun he => h (BitVec.eq_of_toNat_eq he)
    rw [checked_plus, if_pos (by rw [show (1#64).toNat = 1 from rfl]; omega)]

theorem toNat_renewed (h : g ≠ 0xffffffffffffffff#64) : (renewed g).toNat = g.toNat + 1 := by
  have hl := g.isLt
  have hn : g.toNat ≠ 0xffffffffffffffff := fun he => h (BitVec.eq_of_toNat_eq he)
  rw [renewed, if_neg h, BitVec.toNat_add, show (1#64).toNat = 1 from rfl]
  omega

def vacate (pool : Pool α) (i g : Usize) : Pool α :=
  { pool with
    nextFree    := pool.nextFree.set i.toNat pool.freeHead
    generations := pool.generations.set i.toNat (renewed g)
    freeHead    := i
    liveCount   := pool.liveCount - 1#64 }

@[simp]
theorem vacate_capacity : (pool.vacate i g).capacity = pool.capacity :=
  rfl

theorem vacate_next (h : pool.Valid chain) (hi : i < pool.capacity) (k : Usize) :
    (pool.vacate i g).next k = if k = i then some pool.freeHead else pool.next k :=
  getElem?_set_toNat (h.nextFree ▸ hi)

theorem vacate_generation (h : pool.Valid chain) (hi : i < pool.capacity) (k : Usize) :
    (pool.vacate i g).generation k = if k = i then some (renewed g) else pool.generation k :=
  getElem?_set_toNat (h.generations ▸ hi)

theorem Valid.lt_capacity (h : pool.Valid chain) {x : Usize} (hn : pool.next i = some x) : i < pool.capacity := by
  have hl := (List.getElem?_eq_some_iff.mp hn).1
  rw [h.nextFree] at hl
  exact hl

theorem liveCount_pos (h : pool.Valid chain) (hl : pool.next i = some poolLiveIndex) : 0 < pool.liveCount.toNat := by
  have hi := BitVec.lt_def.mp (h.lt_capacity hl)
  have hm : i.toNat ∈ pool.liveSlots :=
    List.mem_filter.mpr ⟨List.mem_range.mpr hi, decide_eq_true hl⟩
  rw [h.length_liveSlots]
  exact List.length_pos_of_mem hm

theorem remove_unknown (h : pool.Valid chain)
    (hk : ¬(pool.next handle.index = some poolLiveIndex ∧ pool.generation handle.index = some handle.generation)) :
    pool.remove handle = .ok (false, pool) := by
  simp only [remove, contains_eq h, hk, decide_false, Run.ok_bind]
  rfl

theorem remove_eq (h : pool.Valid chain) (hl : pool.next handle.index = some poolLiveIndex)
    (hg : pool.generation handle.index = some handle.generation) :
    pool.remove handle = .ok (true, pool.vacate handle.index handle.generation) ∧
    (pool.vacate handle.index handle.generation).Valid (handle.index :: chain) := by
  have hi := h.lt_capacity hl
  have hpos := liveCount_pos h hl
  have hle : 1#64 ≤ pool.liveCount := hpos
  have hsub : (pool.liveCount - 1#64).toNat = pool.liveCount.toNat - 1 := BitVec.toNat_sub_of_le hle
  have hnot : handle.index ∉ chain := fun hm => ((h.mem_iff _).mp hm).2 hl
  constructor
  case left =>
    have hc : checked .minus pool.liveCount 1#64 = .ok (pool.liveCount - 1#64) := by
      rw [checked_minus, if_pos hle]
    simp only [remove, contains_eq h, hl, hg, and_self, decide_true, ite_true, Run.ok_bind, read_eq hg, nextGeneration_eq,
      write_of_lt h.generations hi, write_of_lt h.nextFree hi, hc]
    rfl
  case right =>
    refine ⟨h.data, ?_, ?_, h.bound, ?_, List.nodup_cons.mpr ⟨hnot, h.nodup⟩, fun k => ?_, ?_⟩
    · rw [vacate, List.length_set, h.nextFree]
    · rw [vacate, List.length_set, h.generations]
    · refine h.links.push (h.ne_invalid hi) ?_ fun k hk => ?_
      · rw [vacate_next h hi]
        exact if_pos rfl
      · have hki : k ≠ handle.index := fun he => hnot (he ▸ hk)
        rw [vacate_next h hi, if_neg hki]
    · have hk := h.mem_iff k
      rw [vacate_next h hi, vacate_capacity, List.mem_cons]
      by_cases hki : k = handle.index
      case pos => simp [hki, hi, h.freeHead_ne_live]
      case neg => simpa [hki] using hk
    · have hc := h.count
      rw [vacate_capacity, vacate, List.length_cons]
      simp only [hsub]
      omega

end Remove

section Clear

variable {nextFree generations : List Usize} {capacity : Usize}

def slot (capacity : Usize) (n : Nat) : Usize :=
  if n < capacity.toNat then BitVec.ofNat 64 n else poolInvalidIndex

theorem slot_zero : slot capacity 0 = if capacity = 0#64 then poolInvalidIndex else 0#64 := by
  have hz : capacity = 0#64 ↔ ¬0 < capacity.toNat := by
    rw [← BitVec.toNat_inj, BitVec.toNat_ofNat]
    omega
  simp only [hz, slot, ite_not]

-- A pool whose slots are all free, in their order.
def vacant (data : List (Option α)) (generations : List Usize) (capacity : Usize) : Pool α where
  data
  nextFree    := (List.range capacity.toNat).map (link capacity)
  generations
  capacity
  freeHead    := slot capacity 0
  liveCount   := 0#64

theorem vacant_next {data : List (Option α)} {n : Nat} (h : n < capacity.toNat) :
    (vacant data generations capacity).next (BitVec.ofNat 64 n) = some (slot capacity (n + 1)) := by
  have hl := capacity.isLt
  have hn : (BitVec.ofNat 64 n).toNat = n := Nat.mod_eq_of_lt (Nat.lt_trans h hl)
  rw [next, vacant, hn, List.getElem?_map, List.getElem?_range h]
  rfl

theorem vacant_links {data : List (Option α)} {n m : Nat} (hc : capacity < poolLiveIndex) (h : n + m = capacity.toNat) :
    Links (vacant data generations capacity).next poolInvalidIndex (slot capacity n)
      ((List.range' n m).map (BitVec.ofNat 64)) := by
  induction m generalizing n
  case zero =>
    rw [slot, if_neg (by omega)]
    exact .nil
  case succ m hi =>
    rw [slot, if_pos (by omega)]
    refine .cons ?_ (vacant_next (by omega)) (hi (by omega))
    intro he
    have hl := BitVec.lt_def.mp hc
    have h₁ : poolInvalidIndex.toNat = 0xffffffffffffffff := rfl
    have h₂ : poolLiveIndex.toNat = 0xfffffffffffffffe := rfl
    have h₃ := congrArg BitVec.toNat he
    rw [BitVec.toNat_ofNat] at h₃
    omega

theorem link_ne_live (hc : capacity < poolLiveIndex) (n : Nat) : link capacity n ≠ poolLiveIndex := by
  rw [link]
  split
  case isFalse => decide
  case isTrue hn =>
    intro he
    have hl := BitVec.lt_def.mp hc
    have h₂ : poolLiveIndex.toNat = 0xfffffffffffffffe := rfl
    have h₃ := congrArg BitVec.toNat he
    rw [BitVec.toNat_ofNat] at h₃
    omega

theorem vacant_next_ne_live {data : List (Option α)} (hc : capacity < poolLiveIndex) (i : Usize) :
    (vacant data generations capacity).next i ≠ some poolLiveIndex := by
  rw [next, vacant, List.getElem?_map]
  cases (List.range capacity.toNat)[i.toNat]?
  case none => exact fun he => nomatch he
  case some n => exact fun he => link_ne_live hc n (Option.some.inj he)

theorem vacant_valid {data : List (Option α)} (hc : capacity < poolLiveIndex) (hd : data.length = capacity.toNat)
    (hg : generations.length = capacity.toNat) :
    (vacant data generations capacity).Valid ((List.range' 0 capacity.toNat).map (BitVec.ofNat 64)) where
  data        := hd
  nextFree    := by rw [vacant, List.length_map, List.length_range]
  generations := hg
  bound       := hc
  links       := vacant_links hc (Nat.zero_add _)
  nodup       := by
    refine (List.nodup_range').map_on fun n hn m hm he => ?_
    have hl := capacity.isLt
    have he' := congrArg BitVec.toNat he
    rw [List.mem_range'_1] at hn hm
    rw [BitVec.toNat_ofNat, BitVec.toNat_ofNat] at he'
    omega
  mem_iff i   := by
    have hi : (i ∈ (List.range' 0 capacity.toNat).map (BitVec.ofNat 64)) ↔ i < capacity := by
      simp only [List.mem_map, List.mem_range'_1, Nat.zero_le, Nat.zero_add, true_and]
      constructor
      case mp =>
        rintro ⟨n, hn, rfl⟩
        rw [BitVec.lt_def, BitVec.toNat_ofNat]
        exact Nat.lt_of_le_of_lt (Nat.mod_le _ _) hn
      case mpr => exact fun hi => ⟨i.toNat, hi, by rw [BitVec.ofNat_toNat, BitVec.setWidth_eq]⟩
    rw [hi]
    exact ⟨fun h => ⟨h, vacant_next_ne_live hc i⟩, And.left⟩
  count       := by
    rw [List.length_map, List.length_range']
    exact Nat.zero_add _

theorem clear_eq (h : pool.Valid chain) :
    pool.clear = .ok (vacant pool.data (pool.generations.map renewed) pool.capacity) := by
  rw [clear, relink_eq nextGeneration_eq h.nextFree h.generations, Run.ok_bind, vacant, slot_zero]
  rfl

theorem withCapacity_eq (hn : nextFree.length = capacity.toNat) (hg : generations.length = capacity.toNat) :
    withCapacity nextFree generations capacity =
      .ok (vacant (α := α) (List.replicate capacity.toNat none) (List.replicate capacity.toNat 1#64) capacity) := by
  rw [withCapacity]
  split
  case isTrue hz =>
    subst hz
    rfl
  case isFalse hz =>
    have hm : generations.map (fun _ => 1#64) = List.replicate capacity.toNat 1#64 := by
      rw [List.map_const', hg]
    rw [relink_eq (f := fun _ => 1#64) (fun _ => rfl) hn hg, Run.ok_bind, hm, vacant, slot_zero, if_neg hz]
    rfl

end Clear

section Run

inductive Operation (α : Type)
  | insert (value : α)
  | remove (handle : PoolHandle)
  | clear

structure History (α : Type) where
  pool     : Pool α
  -- The handles of all insertions.
  returned : List PoolHandle
  -- The insertions that have not been removed or cleared.
  live     : List (PoolHandle × α)

def step (history : History α) : Operation α → Run (History α)
  | .insert value => do
    let (handle, pool) ← history.pool.insert value
    return if handle = .invalid then { history with pool }
           else { pool, returned := handle :: history.returned, live := (handle, value) :: history.live }
  | .remove handle => do
    let (_, pool) ← history.pool.remove handle
    return { history with pool, live := history.live.filter fun entry => entry.1 ≠ handle }
  | .clear => do
    let pool ← history.pool.clear
    return { history with pool, live := [] }

-- The operation moves the generation of a slot from the greatest number to the first one.
def Wraps (pool : Pool α) : Operation α → Prop
  | .insert _ => False
  | .remove handle => pool.contains handle = .ok true ∧ pool.generation handle.index = some 0xffffffffffffffff#64
  | .clear => 0xffffffffffffffff#64 ∈ pool.generations

inductive Reaches (start : History α) : History α → Prop
  | refl : Reaches start start
  | step {history history' : History α} {operation : Operation α} : Reaches start history →
    ¬Wraps history.pool operation → step history operation = .ok history' → Reaches start history'

variable {history history' : History α} {operation : Operation α}

-- A handle is at most as new as its slot, and the handle of a free slot is older.
structure Tracks (history : History α) : Prop where
  issued   : ∀ k ∈ history.returned, ∃ g, history.pool.generation k.index = some g ∧ k.generation.toNat ≤ g.toNat ∧
    (k.generation = g → history.pool.next k.index = some poolLiveIndex)
  returned : ∀ entry ∈ history.live, entry.1 ∈ history.returned
  current  : ∀ entry ∈ history.live, history.pool.next entry.1.index = some poolLiveIndex ∧
    history.pool.generation entry.1.index = some entry.1.generation ∧
    history.pool.data[entry.1.index.toNat]? = some (some entry.2)
  occupied : ∀ i, history.pool.next i = some poolLiveIndex → ∃ entry ∈ history.live, entry.1.index = i

theorem Tracks.live_iff (h : Tracks history) :
    (∃ entry ∈ history.live, entry.1 = handle) ↔
      history.pool.next handle.index = some poolLiveIndex ∧
      history.pool.generation handle.index = some handle.generation := by
  constructor
  case mp =>
    rintro ⟨entry, he, rfl⟩
    obtain ⟨hn, hg, -⟩ := h.current entry he
    exact ⟨hn, hg⟩
  case mpr =>
    rintro ⟨hn, hg⟩
    obtain ⟨⟨⟨i, g⟩, value⟩, he, hi⟩ := h.occupied _ hn
    obtain ⟨-, hg', -⟩ := h.current _ he
    obtain ⟨i', g'⟩ := handle
    cases hi
    cases hg'.symm.trans hg
    exact ⟨_, he, rfl⟩

section Insert

variable {j g : Usize} {is : List Usize}

theorem Tracks.fresh (h : Tracks history) (hv : history.pool.Valid (i :: is)) (hg : history.pool.generation i = some g) :
    ⟨i, g⟩ ∉ history.returned := by
  intro hm
  obtain ⟨g', hg', -, hlive⟩ := h.issued _ hm
  exact ((hv.mem_iff i).mp List.mem_cons_self).2 (hlive (Option.some.inj (hg.symm.trans hg')))

theorem Tracks.insert (h : Tracks history) (hv : history.pool.Valid (i :: is)) (hg : history.pool.generation i = some g)
    (value : α) :
    Tracks ⟨history.pool.occupy i j value, ⟨i, g⟩ :: history.returned, (⟨i, g⟩, value) :: history.live⟩ := by
  obtain ⟨hi, hfree⟩ := (hv.mem_iff i).mp List.mem_cons_self
  have hnext (k : Usize) : (history.pool.occupy i j value).next k =
      if k = i then some poolLiveIndex else history.pool.next k := occupy_next hv hi k
  have hdata (k : Usize) : (history.pool.occupy i j value).data[k.toNat]? =
      if k = i then some (some value) else history.pool.data[k.toNat]? := getElem?_set_toNat (hv.data ▸ hi)
  constructor
  case issued =>
    refine List.forall_mem_cons.mpr ⟨⟨g, hg, Nat.le_refl _, fun _ => by rw [hnext, if_pos rfl]⟩, fun k hk => ?_⟩
    obtain ⟨g', hg', hle, hlive⟩ := h.issued k hk
    refine ⟨g', hg', hle, fun he => ?_⟩
    rw [hnext]
    split
    case isTrue => rfl
    case isFalse => exact hlive he
  case returned =>
    exact List.forall_mem_cons.mpr ⟨List.mem_cons_self, fun entry he => List.mem_cons_of_mem _ (h.returned entry he)⟩
  case current =>
    refine List.forall_mem_cons.mpr ⟨⟨?_, hg, ?_⟩, fun entry he => ?_⟩
    · rw [hnext, if_pos rfl]
    · rw [hdata, if_pos rfl]
    · obtain ⟨hl, hgen, hd⟩ := h.current entry he
      have hne : entry.1.index ≠ i := fun he => hfree (he ▸ hl)
      rw [hnext, hdata, if_neg hne, if_neg hne]
      exact ⟨hl, hgen, hd⟩
  case occupied =>
    intro k hk
    rw [hnext] at hk
    split at hk
    case isTrue he => exact ⟨_, List.mem_cons_self, he.symm⟩
    case isFalse =>
      obtain ⟨entry, hm, he⟩ := h.occupied k hk
      exact ⟨entry, List.mem_cons_of_mem _ hm, he⟩

end Insert

theorem Tracks.remove (h : Tracks history) {chain : List Usize} (hv : history.pool.Valid chain)
    (hl : history.pool.next handle.index = some poolLiveIndex)
    (hg : history.pool.generation handle.index = some handle.generation)
    (hw : handle.generation ≠ 0xffffffffffffffff#64) :
    Tracks { history with
      pool := history.pool.vacate handle.index handle.generation
      live := history.live.filter fun entry => entry.1 ≠ handle } := by
  have hi := hv.lt_capacity hl
  have hnext := vacate_next (g := handle.generation) hv hi
  have hgeneration := vacate_generation (g := handle.generation) hv hi
  have hrenewed := toNat_renewed hw
  constructor
  case issued =>
    intro k hk
    obtain ⟨g, hg', hle, hlive⟩ := h.issued k hk
    by_cases hki : k.index = handle.index
    case pos =>
      have hgg : g = handle.generation := Option.some.inj (hg'.symm.trans (hki ▸ hg))
      refine ⟨renewed handle.generation, by rw [hgeneration, if_pos hki], by rw [hrenewed, ← hgg]; omega, fun he => ?_⟩
      have := congrArg BitVec.toNat he
      rw [hrenewed, ← hgg] at this
      omega
    case neg => exact ⟨g, by rw [hgeneration, if_neg hki, hg'], hle, fun he => by rw [hnext, if_neg hki, hlive he]⟩
  case returned => exact fun entry he => h.returned entry (List.mem_filter.mp he).1
  case current =>
    intro entry he
    obtain ⟨hm, hne⟩ := List.mem_filter.mp he
    obtain ⟨hl', hg', hd⟩ := h.current entry hm
    have hni : entry.1.index ≠ handle.index := by
      intro hi
      apply of_decide_eq_true hne
      have hgg := Option.some.inj (hg'.symm.trans (hi ▸ hg))
      cases he : entry.1
      cases handle
      simp_all
    exact ⟨by rw [hnext, if_neg hni, hl'], by rw [hgeneration, if_neg hni, hg'], hd⟩
  case occupied =>
    intro k hk
    rw [hnext] at hk
    split at hk
    case isTrue => exact absurd (Option.some.inj hk) hv.freeHead_ne_live
    case isFalse hne =>
      obtain ⟨entry, hm, he⟩ := h.occupied k hk
      refine ⟨entry, List.mem_filter.mpr ⟨hm, decide_eq_true fun hh => ?_⟩, he⟩
      exact hne (he ▸ hh ▸ rfl)

theorem Tracks.clear (h : Tracks history) {chain : List Usize} (hv : history.pool.Valid chain)
    (hw : 0xffffffffffffffff#64 ∉ history.pool.generations) :
    Tracks { history with
      pool := vacant history.pool.data (history.pool.generations.map renewed) history.pool.capacity
      live := [] } := by
  constructor
  case issued =>
    intro k hk
    obtain ⟨g, hg, hle, -⟩ := h.issued k hk
    have hrenewed := toNat_renewed fun he => hw (he ▸ List.mem_of_getElem? hg)
    refine ⟨renewed g, ?_, by omega, fun he => ?_⟩
    · rw [generation, vacant, List.getElem?_map, show history.pool.generations[k.index.toNat]? = some g from hg]
      rfl
    · have := congrArg BitVec.toNat he
      omega
  case returned => exact fun _ he => absurd he List.not_mem_nil
  case current => exact fun _ he => absurd he List.not_mem_nil
  case occupied => exact fun i hi => absurd hi (vacant_next_ne_live hv.bound i)

def Safe (capacity : Usize) (history : History α) : Prop :=
  ∃ chain, history.pool.Valid chain ∧ Tracks history ∧ history.pool.capacity = capacity

variable {capacity : Usize} {nextFree generations : List Usize}

theorem step_insert (h : history.pool.insert value = .ok (handle, pool)) : step history (.insert value) =
    .ok (if handle = .invalid then { history with pool }
      else { pool, returned := handle :: history.returned, live := (handle, value) :: history.live }) := by
  rw [step, h]
  rfl

theorem Safe.step (h : Safe capacity history) (hw : ¬Wraps history.pool operation) :
    ∃ history', step history operation = .ok history' ∧ Safe capacity history' := by
  obtain ⟨chain, hv, ht, hc⟩ := h
  cases operation
  case insert value =>
    cases chain
    case nil =>
      rw [step_insert (insert_invalid (hv.links.eq_nil_iff.mp rfl)), if_pos rfl]
      exact ⟨_, rfl, [], hv, ht, hc⟩
    case cons i is =>
      obtain ⟨g, j, hg, hi, hv'⟩ := insert_eq hv value
      have hne : (⟨i, g⟩ : PoolHandle) ≠ .invalid := fun he =>
        hv.ne_invalid ((hv.mem_iff i).mp List.mem_cons_self).1 (congrArg PoolHandle.index he)
      rw [step_insert hi, if_neg hne]
      exact ⟨_, rfl, is, hv', ht.insert hv hg value, hc⟩
  case remove handle =>
    rw [Pool.step]
    by_cases hk : history.pool.next handle.index = some poolLiveIndex ∧
      history.pool.generation handle.index = some handle.generation
    case pos =>
      have hcontains : history.pool.contains handle = .ok true := by rw [contains_eq hv, decide_eq_true hk]
      have hmax : handle.generation ≠ 0xffffffffffffffff#64 := fun he => hw ⟨hcontains, he ▸ hk.2⟩
      obtain ⟨hr, hv'⟩ := remove_eq hv hk.1 hk.2
      rw [hr, Run.ok_bind]
      exact ⟨_, rfl, _, hv', ht.remove hv hk.1 hk.2 hmax, hc⟩
    case neg =>
      have hlive : history.live.filter (fun entry => entry.1 ≠ handle) = history.live :=
        List.filter_eq_self.mpr fun entry hm => decide_eq_true fun he => hk (ht.live_iff.mp ⟨entry, hm, he⟩)
      rw [remove_unknown hv hk, Run.ok_bind, hlive]
      exact ⟨_, rfl, chain, hv, ht, hc⟩
  case clear =>
    rw [Pool.step, clear_eq hv, Run.ok_bind]
    refine ⟨_, rfl, _, vacant_valid hv.bound hv.data ?_, ht.clear hv hw, hc⟩
    rw [List.length_map, hv.generations]

theorem Safe.start (hc : capacity < poolLiveIndex) : Safe capacity
    ⟨vacant (α := α) (List.replicate capacity.toNat none) (List.replicate capacity.toNat 1#64) capacity, [], []⟩ :=
  ⟨_, vacant_valid hc List.length_replicate List.length_replicate,
    { issued   := fun _ he => absurd he List.not_mem_nil
      returned := fun _ he => absurd he List.not_mem_nil
      current  := fun _ he => absurd he List.not_mem_nil
      occupied := fun i hi => absurd hi (vacant_next_ne_live hc i) }, rfl⟩

theorem Safe.reaches {start : History α} (hs : Safe capacity start) (h : Reaches start history) : Safe capacity history := by
  induction h
  case refl => exact hs
  case step hw hn hi =>
    obtain ⟨next, hn', hs'⟩ := hi.step hw
    cases hn.symm.trans hn'
    exact hs'

theorem Safe.insert (h : Safe capacity history) (value : α) : ∃ handle pool',
    history.pool.insert value = .ok (handle, pool') ∧
    (handle = .invalid ↔ history.pool.liveCount = capacity) ∧ (handle ≠ .invalid → handle ∉ history.returned) := by
  obtain ⟨chain, hv, ht, rfl⟩ := h
  rw [← hv.full_iff]
  cases chain
  case nil =>
    have he := hv.links.eq_nil_iff.mp rfl
    exact ⟨.invalid, _, insert_invalid he, by simp [he], fun hne => absurd rfl hne⟩
  case cons i is =>
    obtain ⟨g, j, hg, hi, -⟩ := insert_eq hv value
    have hne : i ≠ poolInvalidIndex := hv.ne_invalid ((hv.mem_iff i).mp List.mem_cons_self).1
    refine ⟨⟨i, g⟩, _, hi, ?_, fun _ => ht.fresh hv hg⟩
    rw [hv.links.pop.1]
    exact ⟨congrArg PoolHandle.index, fun he => absurd he hne⟩

theorem Safe.get (h : Safe capacity history) (handle : PoolHandle) : history.pool.get handle =
    .ok (if ∃ entry ∈ history.live, entry.1 = handle then some handle.index else none) := by
  obtain ⟨chain, hv, ht, -⟩ := h
  rw [Pool.get, contains_eq hv, Run.ok_bind]
  simp only [ht.live_iff, decide_eq_true_eq]
  rfl

theorem reaches_safe (hn : nextFree.length = capacity.toNat) (hg : generations.length = capacity.toNat)
    (hc : capacity < poolLiveIndex) (hp : withCapacity nextFree generations capacity = .ok pool)
    (h : Reaches ⟨pool, [], []⟩ history) :
    (∃ chain, Links history.pool.next poolInvalidIndex history.pool.freeHead chain ∧ chain.Nodup ∧
      (∀ i, i ∈ chain ↔ i < capacity ∧ history.pool.next i ≠ some poolLiveIndex) ∧
      history.pool.liveCount.toNat = history.pool.liveSlots.length ∧
      history.pool.liveCount.toNat + chain.length = capacity.toNat) ∧
    (∀ value : α, ∃ handle pool', history.pool.insert value = .ok (handle, pool') ∧
      (handle = .invalid ↔ history.pool.liveCount = capacity) ∧ (handle ≠ .invalid → handle ∉ history.returned)) ∧
    (∀ handle, history.pool.contains handle = .ok (decide (∃ entry ∈ history.live, entry.1 = handle)) ∧
      history.pool.get handle = .ok (if ∃ entry ∈ history.live, entry.1 = handle then some handle.index else none)) ∧
    (∀ entry ∈ history.live, history.pool.data[entry.1.index.toNat]? = some (some entry.2)) ∧
    ∀ operation, ¬Wraps history.pool operation → ∃ history', step history operation = .ok history' := by
  rw [withCapacity_eq hn hg] at hp
  cases hp
  have hs : Safe capacity history := (Safe.start hc).reaches h
  obtain ⟨chain, hv, ht, rfl⟩ := id hs
  refine ⟨⟨chain, hv.links, hv.nodup, hv.mem_iff, hv.length_liveSlots, hv.count⟩, hs.insert,
    fun handle => ⟨?_, hs.get handle⟩, fun entry he => (ht.current entry he).2.2, fun operation hw => ?_⟩
  case refine_1 => simp only [contains_eq hv, ht.live_iff]
  case refine_2 =>
    obtain ⟨history', hn, -⟩ := hs.step hw
    exact ⟨history', hn⟩

theorem reaches_safe_pair : ∃ pool history, withCapacity (α := Nat) [0#64, 0#64] [0#64, 0#64] 2#64 = .ok pool ∧
    Reaches ⟨pool, [], []⟩ history ∧ history.live = [(⟨0#64, 1#64⟩, 7)] ∧
    history.pool.get ⟨0#64, 1#64⟩ = .ok (some 0#64) := by
  have hr : Reaches ⟨vacant [none, none] [1#64, 1#64] 2#64, [], []⟩
      ⟨(vacant [none, none] [1#64, 1#64] 2#64).occupy 0#64 1#64 7, [⟨0#64, 1#64⟩], [(⟨0#64, 1#64⟩, 7)]⟩ :=
    @Reaches.step Nat _ _ _ (.insert 7) .refl id rfl
  have hp : withCapacity (α := Nat) [0#64, 0#64] [0#64, 0#64] 2#64 =
      .ok (vacant [none, none] [1#64, 1#64] 2#64) := rfl
  have hget := (reaches_safe rfl rfl (by decide) hp hr).2.2.1 ⟨0#64, 1#64⟩
  exact ⟨_, _, hp, hr, rfl, hget.2⟩

end Run

end Coglet.Stdlib.Pool
