import Coglet.Runtime.Memory

open StructLayout Alignment

namespace Coglet.Runtime

-- The state of the arena lies in the buffer, in front of the data.
structure FixedArena where
  address  : Uintptr
  data     : Uintptr
  capacity : SizeT
  used     : SizeT
deriving DecidableEq, Repr

namespace FixedArena

def sizeofState : SizeT := 24#64

def stateAlignment : SizeT := 8#64

def create (buffer : Uintptr) (bufferSize : SizeT) : Option FixedArena :=
  if buffer = 0#64 ∨ bufferSize = 0#64 then none
  else if SIZE_MAX - bufferSize < buffer then none
  else
    let stop := buffer + bufferSize
    let address := alignUp buffer stateAlignment
    if stop < address ∨ stop - address < sizeofState then none
    else
      let data := address + sizeofState
      if stop < data then none
      else some { address, data, capacity := stop - data, used := 0#64 }

def alloc (arena : FixedArena) (size alignment : SizeT) : Option (Uintptr × FixedArena) :=
  if size = 0#64 then some (0#64, arena)
  else do
    let alignment ← checkedAlignment alignment
    let base := arena.data
    let aligned := alignUp (base + arena.used) alignment
    if aligned < base ∨ arena.capacity < aligned - base ∨ arena.capacity - (aligned - base) < size then none
    else some (aligned, { arena with used := aligned - base + size })

def resize (arena : FixedArena) (memory : Memory) (pointer : Uintptr) (oldSize newSize alignment : SizeT) :
    Option (Uintptr × FixedArena × Memory) :=
  if pointer = 0#64 then
    (arena.alloc newSize alignment).map fun (result, arena) => (result, arena, memory)
  else if newSize = 0#64 then some (0#64, arena, memory)
  else
    (arena.alloc newSize alignment).map fun (resized, arena) =>
      (resized, arena, memcpy memory resized pointer (if oldSize < newSize then oldSize else newSize))

def reset (arena : FixedArena) : FixedArena :=
  { arena with used := 0#64 }

def remaining (arena : FixedArena) : SizeT :=
  if arena.capacity < arena.used then 0#64 else arena.capacity - arena.used

def header (arena : FixedArena) : Region :=
  region arena.address sizeofState

def storage (arena : FixedArena) : Region :=
  region arena.data arena.capacity

def bump (arena : FixedArena) : Nat :=
  arena.data.toNat + arena.used.toNat

structure Valid (arena : FixedArena) : Prop where
  header : arena.address.toNat + 24 = arena.data.toNat
  stop   : arena.data.toNat + arena.capacity.toNat < 2 ^ 64
  used   : arena.used.toNat ≤ arena.capacity.toNat

-- The first address from the bump position on that has the alignment.
def position (arena : FixedArena) (alignment : SizeT) : Nat :=
  roundUp arena.bump (max alignment.toNat 8)

variable {arena arena' : FixedArena} {buffer pointer : Uintptr} {bufferSize size alignment : SizeT}

theorem create_valid (h : create buffer bufferSize = some arena) : arena.Valid := by
  simp only [create, Option.ite_none_left_eq_some, Option.some_inj] at h
  obtain ⟨-, -, hstate, hdata, rfl⟩ := h
  have h24 : sizeofState.toNat = 24 := rfl
  generalize alignUp buffer stateAlignment = address at *
  generalize buffer + bufferSize = stop at *
  simp only [not_or, BitVec.not_lt, BitVec.le_def] at hstate hdata
  have hs := BitVec.toNat_sub_of_le (BitVec.le_def.mpr hstate.1)
  have hd : (address + sizeofState).toNat = address.toNat + 24 := by
    rw [BitVec.toNat_add, h24]
    have := stop.isLt
    omega
  have hc := BitVec.toNat_sub_of_le (BitVec.le_def.mpr hdata)
  have hl := stop.isLt
  exact ⟨hd.symm, by simp only [hc]; omega, Nat.zero_le _⟩

theorem guard_iff {aligned base capacity : SizeT} :
    (aligned < base ∨ capacity < aligned - base ∨ capacity - (aligned - base) < size) ↔
      ¬(base ≤ aligned ∧ (aligned - base).toNat + size.toNat ≤ capacity.toNat) := by
  rw [not_and_or, BitVec.not_le]
  refine or_congr_right ?_
  by_cases h : capacity < aligned - base
  case pos =>
    have := BitVec.lt_def.mp h
    simp only [h, true_or, true_iff]
    omega
  case neg =>
    have hd := BitVec.toNat_sub_of_le (BitVec.not_lt.mp h)
    rw [BitVec.lt_def] at h
    rw [BitVec.lt_def, BitVec.lt_def, hd]
    omega

theorem alloc_eq (hs : size ≠ 0#64) {alignment' : SizeT} (hc : checkedAlignment alignment = some alignment') :
    arena.alloc size alignment =
      if arena.data ≤ alignUp (arena.data + arena.used) alignment' ∧
          (alignUp (arena.data + arena.used) alignment' - arena.data).toNat + size.toNat ≤ arena.capacity.toNat then
        some (alignUp (arena.data + arena.used) alignment',
          { arena with used := alignUp (arena.data + arena.used) alignment' - arena.data + size })
      else none := by
  rw [alloc, if_neg hs, hc]
  simp only [Option.bind_eq_bind, Option.bind_some, guard_iff, ite_not]

theorem storage_stop : arena.storage.stop = arena.data.toNat + arena.capacity.toNat :=
  rfl

-- There is an aligned block from the bump position on.
def Fits (arena : FixedArena) (size alignment : SizeT) : Prop :=
  ∃ start, arena.bump ≤ start ∧ max alignment.toNat 8 ∣ start ∧ start + size.toNat ≤ arena.storage.stop

theorem fits_iff : arena.Fits size alignment ↔ arena.position alignment + size.toNat ≤ arena.storage.stop := by
  constructor
  case mp =>
    intro ⟨start, hb, hd, hs⟩
    have hp : arena.position alignment ≤ start := roundUp_le hb hd
    omega
  case mpr => exact fun h => ⟨arena.position alignment, le_roundUp (by omega), dvd_roundUp, h⟩

theorem alloc_of_not_fits (h : arena.Valid) (hs : size ≠ 0#64) (hf : ¬arena.Fits size alignment) :
    arena.alloc size alignment = none := by
  by_cases ha : alignment.toNat.isPowerOfTwo
  case pos =>
    obtain ⟨alignment', hc, hm⟩ := checkedAlignment_of_isPowerOfTwo ha
    obtain ⟨hp, -, -⟩ := dvd_of_checkedAlignment hc
    have hd : 0 < arena.data.toNat := h.header ▸ Nat.succ_pos _
    have hz := toNat_pos_of_ne hs
    rw [fits_iff, storage_stop] at hf
    rw [alloc_eq hs hc, if_neg]
    rwa [alignUp_fits_iff hp hd (Nat.le_of_lt h.stop) h.used hz, hm]
  case neg =>
    rw [alloc, if_neg hs, checkedAlignment_eq_none ha]
    rfl

-- An allocation gets the first aligned block from the bump position on, if the block fits.
theorem alloc_of_fits (h : arena.Valid) (hs : size ≠ 0#64) (ha : alignment.toNat.isPowerOfTwo)
    (hf : arena.Fits size alignment) : ∃ pointer used, arena.alloc size alignment = some (pointer, { arena with used }) ∧
      pointer.toNat = arena.position alignment ∧ arena.data.toNat + used.toNat = pointer.toNat + size.toNat := by
  obtain ⟨alignment', hc, hm⟩ := checkedAlignment_of_isPowerOfTwo ha
  obtain ⟨hp, -, -⟩ := dvd_of_checkedAlignment hc
  have hd : 0 < arena.data.toNat := h.header ▸ Nat.succ_pos _
  have hz := toNat_pos_of_ne hs
  have hstop := h.stop
  have hbump : arena.data.toNat + arena.used.toNat ≤ arena.position alignment := le_roundUp (by omega)
  rw [fits_iff, storage_stop] at hf
  have hpos : roundUp (arena.data.toNat + arena.used.toNat) alignment'.toNat = arena.position alignment := by
    rw [hm]
    rfl
  have hl : roundUp (arena.data.toNat + arena.used.toNat) alignment'.toNat < 2 ^ 64 := by omega
  obtain ⟨hr, hsub⟩ := toNat_alignUp_add hp hl
  rw [hpos] at hr hsub
  refine ⟨alignUp (arena.data + arena.used) alignment', alignUp (arena.data + arena.used) alignment' - arena.data + size,
    ?_, hr, ?_⟩
  case refine_1 =>
    rw [alloc_eq hs hc, if_pos]
    rw [alignUp_fits_iff hp hd (Nat.le_of_lt h.stop) h.used hz, hpos]
    exact hf
  case refine_2 =>
    rw [BitVec.toNat_add, hsub, hr]
    omega

theorem used_add_remaining (h : arena.Valid) : arena.used.toNat + arena.remaining.toNat = arena.capacity.toNat := by
  have hu := h.used
  rw [remaining, if_neg (BitVec.not_lt.mpr (BitVec.le_def.mpr hu)), BitVec.toNat_sub_of_le (BitVec.le_def.mpr hu)]
  omega

section Run

inductive Request
  | alloc (size alignment : SizeT)
  | resize (pointer : Uintptr) (oldSize newSize alignment : SizeT)
  | reset

structure Allocation where
  pointer   : Uintptr
  size      : SizeT
  alignment : SizeT

def Allocation.region (allocation : Allocation) : Region :=
  Runtime.region allocation.pointer allocation.size

structure History where
  arena       : FixedArena
  memory      : Memory
  -- The allocations since the last reset, the latest one first.
  allocations : List Allocation

def History.record (history : History) (allocation : Allocation) (arena : FixedArena) (memory : Memory) : History where
  arena
  memory
  allocations := if allocation.pointer = 0#64 then history.allocations else allocation :: history.allocations

def step (history : History) : Request → Option History
  | .alloc size alignment =>
    (history.arena.alloc size alignment).map fun (pointer, arena) =>
      history.record ⟨pointer, size, alignment⟩ arena history.memory
  | .resize pointer oldSize newSize alignment =>
    (history.arena.resize history.memory pointer oldSize newSize alignment).map fun (pointer, arena, memory) =>
      history.record ⟨pointer, newSize, alignment⟩ arena memory
  | .reset => some { history with arena := history.arena.reset, allocations := [] }

def run (history : History) (requests : List Request) : Option History :=
  requests.foldlM step history

variable {start : FixedArena} {history history' : History} {memory : Memory} {request : Request} {requests : List Request}

-- All allocations lie in the given out part of the storage.
structure Safe (start : FixedArena) (history : History) : Prop where
  valid    : history.arena.Valid
  buffer   : history.arena = { start with used := history.arena.used }
  aligned  : ∀ a ∈ history.allocations, a.alignment.toNat ∣ a.pointer.toNat
  within   : ∀ a ∈ history.allocations, a.region.Within (region history.arena.data history.arena.used)
  disjoint : history.allocations.Pairwise fun a b => a.region.Disjoint b.region

-- What a call returns, and what is left of the arena.
theorem alloc_cases (h : arena.Valid) (ha : arena.alloc size alignment = some (pointer, arena')) :
    size = 0#64 ∧ pointer = 0#64 ∧ arena' = arena ∨
    alignment.toNat.isPowerOfTwo ∧ pointer.toNat = arena.position alignment ∧
      pointer.toNat + size.toNat ≤ arena.storage.stop ∧
      ∃ used, arena' = { arena with used } ∧ arena.data.toNat + used.toNat = pointer.toNat + size.toNat := by
  by_cases hs : size = 0#64
  case pos =>
    rw [alloc, if_pos hs] at ha
    cases ha
    exact .inl ⟨hs, rfl, rfl⟩
  case neg =>
    by_cases hf : arena.Fits size alignment
    case neg => cases (alloc_of_not_fits h hs hf).symm.trans ha
    case pos =>
      by_cases hp : alignment.toNat.isPowerOfTwo
      case neg =>
        rw [alloc, if_neg hs, checkedAlignment_eq_none hp] at ha
        cases ha
      case pos =>
        obtain ⟨pointer, used, ha', hpos, hu⟩ := alloc_of_fits h hs hp hf
        cases ha.symm.trans ha'
        exact .inr ⟨hp, hpos, hpos ▸ fits_iff.mp hf, used, rfl, hu⟩

theorem Safe.alloc (h : Safe start history) (ha : history.arena.alloc size alignment = some (pointer, arena)) :
    Safe start (history.record ⟨pointer, size, alignment⟩ arena memory) := by
  rcases alloc_cases h.valid ha with ⟨-, rfl, rfl⟩ | ⟨hp, hpos, hstop, used, rfl, hu⟩
  case inl => simpa only [History.record, ite_true] using ⟨h.valid, h.buffer, h.aligned, h.within, h.disjoint⟩
  case inr =>
    have hbump : history.arena.data.toNat + history.arena.used.toNat ≤ pointer.toNat :=
      hpos ▸ le_roundUp (by omega)
    have hne : pointer ≠ 0#64 := by
      rintro rfl
      have := h.valid.header
      rw [BitVec.toNat_zero] at hbump
      omega
    have hold : ∀ a ∈ history.allocations, history.arena.data.toNat ≤ a.pointer.toNat ∧ a.region.stop ≤ pointer.toNat :=
      fun a ha => ⟨(h.within a ha).1, (h.within a ha).2.trans hbump⟩
    rw [storage_stop] at hstop
    refine ⟨⟨h.valid.header, h.valid.stop, ?_⟩, h.buffer ▸ rfl, ?_, ?_, ?_⟩ <;> simp only [History.record, hne, ite_false]
    case refine_1 => omega
    case refine_2 =>
      refine List.forall_mem_cons.mpr ⟨?_, h.aligned⟩
      exact hpos ▸ (dvd_max_of_isPowerOfTwo hp ⟨3, rfl⟩).trans dvd_roundUp
    case refine_3 =>
      refine List.forall_mem_cons.mpr ⟨⟨?_, Nat.le_of_eq hu.symm⟩, fun a ha => ⟨(hold a ha).1, ?_⟩⟩
      · exact (Nat.le_add_right _ _).trans hbump
      · exact ((hold a ha).2.trans (Nat.le_add_right _ _)).trans (Nat.le_of_eq hu.symm)
    case refine_4 => exact .cons (fun a ha => .inr (hold a ha).2) h.disjoint

theorem Safe.step (h : Safe start history) (hs : step history request = some history') : Safe start history' := by
  cases request
  case alloc size alignment =>
    obtain ⟨⟨pointer, arena⟩, ha, rfl⟩ := Option.map_eq_some_iff.mp hs
    exact h.alloc ha
  case resize pointer oldSize newSize alignment =>
    obtain ⟨⟨result, arena, memory⟩, hr, rfl⟩ := Option.map_eq_some_iff.mp hs
    rw [resize] at hr
    split at hr
    case isTrue =>
      obtain ⟨⟨result, arena⟩, ha, he⟩ := Option.map_eq_some_iff.mp hr
      cases he
      exact h.alloc ha
    case isFalse =>
      split at hr
      case isTrue =>
        cases hr
        exact ⟨h.valid, h.buffer, h.aligned, h.within, h.disjoint⟩
      case isFalse =>
        obtain ⟨⟨result, arena⟩, ha, he⟩ := Option.map_eq_some_iff.mp hr
        cases he
        exact h.alloc ha
  case reset =>
    cases hs
    refine ⟨⟨h.valid.header, h.valid.stop, Nat.zero_le _⟩, ?_, ?_, ?_, .nil⟩
    · rw [reset, h.buffer]
    · exact fun _ ha => absurd ha List.not_mem_nil
    · exact fun _ ha => absurd ha List.not_mem_nil

theorem Safe.run (h : Safe start history) (hr : run history requests = some history') : Safe start history' := by
  induction requests generalizing history
  case nil =>
    cases hr
    exact h
  case cons request requests hi =>
    obtain ⟨next, hs, hn⟩ := Option.bind_eq_some_iff.mp hr
    exact hi (h.step hs) hn

theorem Safe.create (hc : create buffer bufferSize = some arena) : Safe arena ⟨arena, memory, []⟩ where
  valid    := create_valid hc
  buffer   := rfl
  aligned  := fun _ ha => absurd ha List.not_mem_nil
  within   := fun _ ha => absurd ha List.not_mem_nil
  disjoint := .nil

theorem Safe.separate (h : Safe start history) {a : Allocation} (ha : a ∈ history.allocations) :
    a.region.Within start.storage ∧ a.region.Disjoint start.header := by
  obtain ⟨hl, hu⟩ := h.within a ha
  have hheader := h.valid.header
  have hused := h.valid.used
  rw [h.buffer] at hl hu hheader hused
  exact ⟨⟨hl, hu.trans (Nat.add_le_add_left hused _)⟩, .inr (Nat.le_trans (Nat.le_of_eq hheader) hl)⟩

-- The copy of a resized block does not reach the bytes below the bump position.
theorem resize_memory {memory memory' : Memory} {pointer result address : Uintptr} {oldSize newSize : SizeT} (h : arena.Valid)
    (hr : arena.resize memory pointer oldSize newSize alignment = some (result, arena', memory'))
    (ha : address.toNat < arena.bump) : memory' address = memory address := by
  rw [resize] at hr
  split at hr
  case isTrue =>
    obtain ⟨_, -, he⟩ := Option.map_eq_some_iff.mp hr
    cases he
    rfl
  case isFalse =>
    split at hr
    case isTrue =>
      cases hr
      rfl
    case isFalse hs =>
      obtain ⟨⟨resized, arena'⟩, halloc, he⟩ := Option.map_eq_some_iff.mp hr
      cases he
      rcases alloc_cases h halloc with ⟨hz, -⟩ | ⟨-, hpos, hstop, -⟩
      case inl => exact absurd hz hs
      case inr =>
        have hbump : arena.bump ≤ result.toNat := hpos ▸ le_roundUp (by omega)
        have hle : (if oldSize < newSize then oldSize else newSize).toNat ≤ newSize.toNat := by
          split
          case isTrue hlt => exact Nat.le_of_lt hlt
          case isFalse => exact Nat.le_refl _
        have := h.stop
        rw [storage_stop] at hstop
        exact memcpy_of_not_mem (by omega) (by omega)

theorem Safe.step_memory (h : Safe start history) (hs : FixedArena.step history request = some history') {address : Uintptr}
    (ha : address.toNat < history.arena.bump) : history'.memory address = history.memory address := by
  cases request
  case alloc =>
    obtain ⟨_, -, rfl⟩ := Option.map_eq_some_iff.mp hs
    rfl
  case resize =>
    obtain ⟨_, hr, rfl⟩ := Option.map_eq_some_iff.mp hs
    exact resize_memory h.valid hr ha
  case reset =>
    cases hs
    rfl

theorem alloc_eq_none_iff (h : arena.Valid) (hs : size ≠ 0#64) (ha : alignment.toNat.isPowerOfTwo) :
    arena.alloc size alignment = none ↔ ¬arena.Fits size alignment := by
  constructor
  case mp =>
    intro hn hf
    obtain ⟨pointer, used, ha, -⟩ := alloc_of_fits h hs ha hf
    cases hn.symm.trans ha
  case mpr => exact alloc_of_not_fits h hs

theorem resize_eq_none_iff {memory : Memory} {pointer : Uintptr} {oldSize newSize : SizeT} (hs : newSize ≠ 0#64) :
    arena.resize memory pointer oldSize newSize alignment = none ↔ arena.alloc newSize alignment = none := by
  rw [resize, if_neg hs]
  split <;> rw [Option.map_eq_none_iff]

theorem alloc_zero : arena.alloc 0#64 alignment = some (0#64, arena) :=
  if_pos rfl

theorem resize_zero {memory : Memory} {pointer : Uintptr} {oldSize : SizeT} :
    arena.resize memory pointer oldSize 0#64 alignment = some (0#64, arena, memory) := by
  rw [resize, alloc_zero, if_pos rfl]
  split <;> rfl

theorem run_safe (hc : FixedArena.create buffer bufferSize = some arena)
    (hr : FixedArena.run ⟨arena, memory, []⟩ requests = some history) :
    (∀ a ∈ history.allocations, a.alignment.toNat ∣ a.pointer.toNat ∧
      a.region.Within arena.storage ∧ a.region.Disjoint arena.header) ∧
    history.allocations.Pairwise (fun a b => a.region.Disjoint b.region) ∧
    history.arena.used.toNat ≤ arena.capacity.toNat ∧
    history.arena.used.toNat + history.arena.remaining.toNat = arena.capacity.toNat ∧
    (∀ pointer oldSize alignment, FixedArena.step history (.alloc 0#64 alignment) = some history ∧
      FixedArena.step history (.resize pointer oldSize 0#64 alignment) = some history) ∧
    ∀ pointer oldSize size alignment, size ≠ 0#64 → alignment.toNat.isPowerOfTwo →
      (FixedArena.step history (.alloc size alignment) = none ↔ ¬history.arena.Fits size alignment) ∧
      (FixedArena.step history (.resize pointer oldSize size alignment) = none ↔ ¬history.arena.Fits size alignment) := by
  have h : Safe arena history := (Safe.create hc).run hr
  have hcapacity : history.arena.capacity = arena.capacity := by rw [h.buffer]
  refine ⟨fun a ha => ⟨h.aligned a ha, h.separate ha⟩, h.disjoint, hcapacity ▸ h.valid.used,
    hcapacity ▸ used_add_remaining h.valid, fun pointer oldSize alignment => ⟨?_, ?_⟩,
    fun pointer oldSize size alignment hs ha => ⟨?_, ?_⟩⟩
  case refine_1 =>
    rw [FixedArena.step, alloc_zero]
    rfl
  case refine_2 =>
    rw [FixedArena.step, resize_zero]
    rfl
  case refine_3 => rw [FixedArena.step, Option.map_eq_none_iff, alloc_eq_none_iff h.valid hs ha]
  case refine_4 => rw [FixedArena.step, Option.map_eq_none_iff, resize_eq_none_iff hs, alloc_eq_none_iff h.valid hs ha]

theorem run_safe_byte : create 8#64 32#64 = some ⟨8#64, 32#64, 8#64, 0#64⟩ ∧
    run ⟨⟨8#64, 32#64, 8#64, 0#64⟩, fun _ => 0#8, []⟩ [.alloc 1#64 1#64] =
      some ⟨⟨8#64, 32#64, 8#64, 1#64⟩, fun _ => 0#8, [⟨32#64, 1#64, 1#64⟩]⟩ ∧
    (1#64).toNat + (remaining ⟨8#64, 32#64, 8#64, 1#64⟩).toNat = (8#64).toNat := by
  have hc : create 8#64 32#64 = some ⟨8#64, 32#64, 8#64, 0#64⟩ := rfl
  have hr : run ⟨⟨8#64, 32#64, 8#64, 0#64⟩, fun _ => 0#8, []⟩ [.alloc 1#64 1#64] =
      some ⟨⟨8#64, 32#64, 8#64, 1#64⟩, fun _ => 0#8, [⟨32#64, 1#64, 1#64⟩]⟩ := rfl
  exact ⟨hc, hr, (run_safe hc hr).2.2.2.1⟩

-- A request for one byte fails although there are seven bytes left.
theorem byte_request_fails : ∃ arena history, create 8#64 32#64 = some arena ∧
    run ⟨arena, fun _ => 0#8, []⟩ [.alloc 1#64 1#64] = some history ∧ step history (.alloc 1#64 1#64) = none ∧
    (1#64).toNat ∣ history.arena.bump ∧ history.arena.bump + (1#64).toNat ≤ history.arena.storage.stop :=
  ⟨_, _, rfl, rfl, rfl, by decide, by decide⟩

end Run

end FixedArena

end Coglet.Runtime
