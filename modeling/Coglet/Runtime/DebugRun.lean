import Coglet.Runtime.DebugSafety

namespace Coglet.Runtime.DebugState

inductive Request
  | alloc (size alignment : SizeT)
  | free (pointer : Uintptr) (size alignment : SizeT)
  | resize (pointer : Uintptr) (oldSize newSize alignment : SizeT)
  -- The program writes a byte.
  | write (address : Uintptr) (byte : BitVec 8)

structure History where
  state     : DebugState
  -- The number of all allocations, and of all their bytes.
  allocated : Nat
  requested : Nat

def History.record (history : History) (result : Uintptr) (size : SizeT) (state : DebugState) : History :=
  if result = 0#64 then { history with state }
  else { state, allocated := history.allocated + 1, requested := history.requested + size.toNat }

def step (history : History) (allocate : Allocate) : Request → Option History
  | .alloc size alignment =>
    (history.state.alloc allocate size alignment).map fun (result, state) => history.record result size state
  | .free pointer size alignment =>
    (history.state.free pointer size alignment).map fun state => { history with state }
  | .resize pointer oldSize newSize alignment =>
    (history.state.resize allocate pointer oldSize newSize alignment).map fun (result, state) =>
      history.record result newSize state
  | .write address byte => some { history with
    state.memory := fun a => if a = address then byte else history.state.memory a }

-- The memory that the parent allocator has given for the blocks.
def regions (state : DebugState) : List Region :=
  state.debug.blocks.map DebugBlock.region

-- The program does not write to the headers.
def Permitted (state : DebugState) : Request → Prop
  | .write address _ => ∀ block ∈ state.debug.blocks, ¬block.headerRegion.Contains address.toNat
  | _ => True

inductive Reaches (start : History) : History → Prop
  | refl : Reaches start start
  | step {history history' : History} {allocate : Allocate} {request : Request} :
    Reaches start history → Honest allocate history.state.regions → Permitted history.state request →
    step history allocate request = some history' → Reaches start history'

-- The bookkeeping after a number of allocations of a number of bytes.
structure Safe (state : DebugState) (allocated requested : Nat) : Prop where
  blocks           : ∀ block ∈ state.debug.blocks, block.Valid
  disjoint         : state.regions.Pairwise Region.Disjoint
  liveAllocations  : state.debug.liveAllocations = BitVec.ofNat 64 state.debug.blocks.length
  liveBytes        : state.debug.liveBytes = BitVec.ofNat 64 (state.debug.blocks.map (·.size.toNat)).sum
  nextId           : state.debug.nextId = BitVec.ofNat 64 (allocated + 1)
  totalAllocations : state.debug.totalAllocations = BitVec.ofNat 64 allocated
  totalBytes       : state.debug.totalBytes = BitVec.ofNat 64 requested
  le               : allocated ≤ requested
  ids              : requested < 2 ^ 64 → (∀ block ∈ state.debug.blocks, block.id.toNat ≤ allocated) ∧
    state.debug.blocks.Pairwise fun b c => c.id.toNat < b.id.toNat
  errors           : state.debug.errorCount = BitVec.ofNat 64 state.stderr.length
  freed            : state.debug.blocks.length + state.freed.length = allocated

variable {state state' : DebugState} {allocate : Allocate} {size alignment : SizeT} {result pointer : Uintptr}
  {allocated requested : Nat} {memory : Memory} {block : DebugBlock} {previous : Option DebugBlock}

section Counters

variable {counter : BitVec 64} {n : Nat}

theorem counter_succ (h : counter = BitVec.ofNat 64 n) : counter + 1#64 = BitVec.ofNat 64 (n + 1) := by
  rw [h, BitVec.ofNat_add]

theorem counter_add (h : counter = BitVec.ofNat 64 n) : counter + size = BitVec.ofNat 64 (n + size.toNat) := by
  rw [h, BitVec.ofNat_add, BitVec.ofNat_toNat, BitVec.setWidth_eq]

theorem counter_pred (h : counter = BitVec.ofNat 64 (n + 1)) : counter - 1#64 = BitVec.ofNat 64 n := by
  rw [h, BitVec.ofNat_add, BitVec.add_sub_cancel]

theorem counter_sub (h : counter = BitVec.ofNat 64 (n + size.toNat)) : counter - size = BitVec.ofNat 64 n := by
  rw [h, BitVec.ofNat_add, BitVec.ofNat_toNat, BitVec.setWidth_eq, BitVec.add_sub_cancel]

end Counters

theorem Safe.setMemory (h : Safe state allocated requested) : Safe { state with memory } allocated requested :=
  ⟨h.blocks, h.disjoint, h.liveAllocations, h.liveBytes, h.nextId, h.totalAllocations, h.totalBytes, h.le, h.ids,
    h.errors, h.freed⟩

theorem Safe.report (h : Safe state allocated requested) (message : DebugReport) :
    Safe (state.report message) allocated requested where
  blocks           := h.blocks
  disjoint         := h.disjoint
  liveAllocations  := h.liveAllocations
  liveBytes        := h.liveBytes
  nextId           := h.nextId
  totalAllocations := h.totalAllocations
  totalBytes       := h.totalBytes
  le               := h.le
  ids              := h.ids
  errors           := counter_succ h.errors
  freed            := h.freed

theorem Safe.push (h : Safe state allocated requested) (hv : block.Valid) (hd : ∀ r ∈ state.regions, r.Disjoint block.region)
    (hi : block.id = state.debug.nextId) : Safe (state.push block) (allocated + 1) (requested + block.size.toNat) where
  blocks           := List.forall_mem_cons.mpr ⟨hv, h.blocks⟩
  disjoint         := .cons (fun r hr => (hd r hr).symm) h.disjoint
  liveAllocations  := counter_succ h.liveAllocations
  liveBytes        := (counter_add h.liveBytes).trans (congrArg (BitVec.ofNat 64) (Nat.add_comm _ _))
  nextId           := counter_succ h.nextId
  totalAllocations := counter_succ h.totalAllocations
  totalBytes       := counter_add h.totalBytes
  le               := Nat.add_le_add h.le hv.size
  ids              := by
    intro hl
    have hid : block.id.toNat = allocated + 1 := by
      have := h.le
      have := hv.size
      rw [hi, h.nextId, BitVec.toNat_ofNat]
      omega
    obtain ⟨hle, hp⟩ := h.ids (by omega)
    refine ⟨List.forall_mem_cons.mpr ⟨Nat.le_of_eq hid, fun b hb => (hle b hb).trans (Nat.le_succ _)⟩, .cons (fun b hb => ?_) hp⟩
    exact hid.symm ▸ Nat.lt_succ_of_le (hle b hb)
  errors           := h.errors
  freed            := by
    rw [← h.freed]
    exact Nat.succ_add _ _

theorem Safe.nodup (h : Safe state allocated requested) : (state.debug.blocks.map (·.address)).Nodup := by
  refine List.pairwise_map.mpr ((List.pairwise_map.mp h.disjoint).imp_of_mem fun {b c} hb hc hd he => ?_)
  have := congrArg BitVec.toNat he
  have hb := h.blocks b hb
  have hc := h.blocks c hc
  have := hb.front
  have := hb.back
  have := hc.front
  have := hc.back
  cases hd
  case inl hd =>
    have : b.address.toNat + b.totalSize.toNat ≤ c.address.toNat := hd
    omega
  case inr hd =>
    have : c.address.toNat + c.totalSize.toNat ≤ b.address.toNat := hd
    omega

-- What is left of a sublist.
theorem Safe.remove {before after : List DebugBlock} (h : Safe state allocated requested)
    (hb : state.debug.blocks = before ++ block :: after) (freed : ParentFree) : Safe
      { state with
        debug := { state.debug with
          blocks          := before ++ after
          liveAllocations := state.debug.liveAllocations - 1#64
          liveBytes       := state.debug.liveBytes - block.size }
        freed := freed :: state.freed } allocated requested := by
  have hsub : (before ++ after).Sublist state.debug.blocks :=
    hb ▸ List.Sublist.append_left (List.sublist_cons_self _ _) _
  have hlive := h.liveAllocations
  have hbytes := h.liveBytes
  have hfreed := h.freed
  rw [hb, List.length_append, List.length_cons, ← Nat.add_assoc] at hlive
  rw [hb, List.map_append, List.map_cons, List.sum_append, List.sum_cons, Nat.add_left_comm, Nat.add_comm] at hbytes
  rw [hb, List.length_append, List.length_cons] at hfreed
  constructor
  case blocks => exact fun b hm => h.blocks b (hsub.subset hm)
  case disjoint => exact h.disjoint.sublist (hsub.map _)
  case liveAllocations => simpa only [List.length_append] using counter_pred hlive
  case liveBytes => simpa only [List.map_append, List.sum_append] using counter_sub hbytes
  case nextId => exact h.nextId
  case totalAllocations => exact h.totalAllocations
  case totalBytes => exact h.totalBytes
  case le => exact h.le
  case ids =>
    intro hl
    obtain ⟨hle, hp⟩ := h.ids hl
    exact ⟨fun b hm => hle b (hsub.subset hm), hp.sublist hsub⟩
  case errors => exact h.errors
  case freed =>
    simp only [List.length_append, List.length_cons]
    omega

theorem Safe.reportCorruption (h : Safe state allocated requested) (block : DebugBlock) :
    Safe (state.reportCorruption block) allocated requested := by
  rw [DebugState.reportCorruption]
  split
  case isTrue => exact h
  case isFalse => exact h.report _

theorem reportCorruption_blocks : (state.reportCorruption block).debug.blocks = state.debug.blocks := by
  rw [DebugState.reportCorruption]
  split <;> rfl

theorem reportCorruption_totalBytes : (state.reportCorruption block).debug.totalBytes = state.debug.totalBytes := by
  rw [DebugState.reportCorruption]
  split <;> rfl

theorem Safe.release (h : Safe state allocated requested)
    (hf : DebugAllocator.find pointer none state.debug.blocks = some (previous, block)) :
    Safe (state.release previous block) allocated requested := by
  obtain ⟨before, after, hb, -, rfl⟩ := DebugAllocator.find_eq_some hf
  have hn := h.nodup
  rw [hb, List.map_append, List.nodup_append] at hn
  have hu : DebugAllocator.unlink (before.getLast?.or none) (state.reportCorruption block).debug.blocks = before ++ after := by
    rw [reportCorruption_blocks, hb, Option.or_none, DebugAllocator.unlink_getLast? hn.1]
  rw [DebugState.release, hu]
  exact ((h.reportCorruption block).remove (reportCorruption_blocks.trans hb) _).setMemory

theorem Safe.free (h : Safe state allocated requested) (hf : state.free pointer size alignment = some state') :
    Safe state' allocated requested := by
  rw [DebugState.free] at hf
  split at hf
  case isTrue =>
    cases hf
    exact h
  case isFalse =>
    split at hf
    case h_1 =>
      cases hf
      exact h.report _
    case h_2 previous block hfind =>
      split at hf
      case isTrue =>
        cases hf
        exact (h.report _).release hfind
      case isFalse =>
        obtain ⟨checked, -, hf⟩ := Option.bind_eq_some_iff.mp hf
        split at hf
        case isTrue =>
          cases hf
          exact (h.report _).release hfind
        case isFalse =>
          cases hf
          exact h.release hfind

theorem Safe.allocateInternal (h : Safe state allocated requested) (hh : Honest allocate state.regions)
    (ha : state.allocateInternal allocate size alignment = some (result, state')) :
    result = 0#64 ∧ state' = state ∨ result ≠ 0#64 ∧ Safe state' (allocated + 1) (requested + size.toNat) := by
  rcases allocateInternal_eq_some hh ha with ⟨-, hr, he⟩ | ⟨-, hne, block, hv, hd, -, rfl, hi, rfl⟩
  case inl => exact .inl ⟨hr, he⟩
  case inr => exact .inr ⟨hne, h.push hv hd hi⟩

theorem Safe.resize {oldSize newSize : SizeT} (h : Safe state allocated requested) (hh : Honest allocate state.regions)
    (hr : state.resize allocate pointer oldSize newSize alignment = some (result, state')) :
    result = 0#64 ∧ Safe state' allocated requested ∨
      result ≠ 0#64 ∧ Safe state' (allocated + 1) (requested + newSize.toNat) := by
  rw [DebugState.resize] at hr
  split at hr
  case isTrue => exact (h.allocateInternal hh hr).imp (fun ⟨hz, he⟩ => ⟨hz, he ▸ h⟩) id
  case isFalse =>
    split at hr
    case isTrue =>
      obtain ⟨state, hf, he⟩ := Option.map_eq_some_iff.mp hr
      cases he
      exact .inl ⟨rfl, h.free hf⟩
    case isFalse =>
      split at hr
      case h_1 =>
        cases hr
        exact .inl ⟨rfl, h.report _⟩
      case h_2 _ block hfind =>
        obtain ⟨⟨resized, next⟩, ha, hr⟩ := Option.bind_eq_some_iff.mp hr
        have hnext : resized = 0#64 ∧ Safe next allocated requested ∨
            resized ≠ 0#64 ∧ Safe next (allocated + 1) (requested + newSize.toNat) := by
          split at ha
          case isTrue => exact ((h.report _).allocateInternal hh ha).imp (fun ⟨hz, he⟩ => ⟨hz, he ▸ h.report _⟩) id
          case isFalse => exact (h.allocateInternal hh ha).imp (fun ⟨hz, he⟩ => ⟨hz, he ▸ h⟩) id
        by_cases hz : resized = 0#64
        case pos =>
          simp only [hz, ite_true, Option.some_inj, Prod.mk_inj] at hr
          obtain ⟨rfl, rfl⟩ := hr
          exact hnext.imp (fun ⟨_, hs⟩ => ⟨rfl, hs⟩) fun ⟨hne, _⟩ => absurd hz hne
        case neg =>
          simp only [hz, ite_false] at hr
          obtain ⟨last, hf, hr⟩ := Option.bind_eq_some_iff.mp hr
          cases hr
          cases hnext
          case inl hzero => exact absurd hzero.1 hz
          case inr hsafe => exact .inr ⟨hz, hsafe.2.setMemory.free hf⟩

variable {start history history' : History} {request : Request}

theorem Safe.record (h : result = 0#64 ∧ Safe state' history.allocated history.requested ∨
      result ≠ 0#64 ∧ Safe state' (history.allocated + 1) (history.requested + size.toNat)) :
    Safe (history.record result size state').state (history.record result size state').allocated
      (history.record result size state').requested := by
  rw [History.record]
  split
  case isTrue hz => exact h.elim And.right fun ⟨hne, _⟩ => absurd hz hne
  case isFalse hne => exact h.elim (fun ⟨hz, _⟩ => absurd hz hne) And.right

theorem Safe.step (h : Safe history.state history.allocated history.requested)
    (hh : Honest allocate history.state.regions) (hs : step history allocate request = some history') :
    Safe history'.state history'.allocated history'.requested := by
  cases request
  case alloc size alignment =>
    obtain ⟨⟨result, state⟩, ha, rfl⟩ := Option.map_eq_some_iff.mp hs
    exact .record ((h.allocateInternal hh ha).imp (fun ⟨hz, he⟩ => ⟨hz, he ▸ h⟩) id)
  case free =>
    obtain ⟨state, hf, rfl⟩ := Option.map_eq_some_iff.mp hs
    exact h.free hf
  case resize =>
    obtain ⟨⟨result, state⟩, hr, rfl⟩ := Option.map_eq_some_iff.mp hs
    exact .record (h.resize hh hr)
  case write =>
    cases hs
    exact h.setMemory

theorem Safe.reaches (h : Safe start.state start.allocated start.requested) (hr : Reaches start history) :
    Safe history.state history.allocated history.requested := by
  induction hr
  case refl => exact h
  case step hh _ hs hi => exact hi.step hh hs

theorem Safe.create {debug : DebugAllocator} (hc : DebugAllocator.create allocate = some debug) :
    Safe ⟨debug, memory, [], []⟩ 0 0 := by
  rw [DebugAllocator.create] at hc
  split at hc
  case isTrue => cases hc
  case isFalse =>
    cases hc
    constructor
    case blocks => exact fun _ hb => absurd hb List.not_mem_nil
    case disjoint => exact .nil
    case ids => exact fun _ => ⟨fun _ hb => absurd hb List.not_mem_nil, .nil⟩
    all_goals rfl

theorem record_le : history.allocated ≤ (history.record result size state).allocated ∧
    history.requested ≤ (history.record result size state).requested := by
  rw [History.record]
  split
  case isTrue => exact ⟨Nat.le_refl _, Nat.le_refl _⟩
  case isFalse => exact ⟨Nat.le_succ _, Nat.le_add_right _ _⟩

theorem step_le (hs : DebugState.step history allocate request = some history') :
    history.allocated ≤ history'.allocated ∧ history.requested ≤ history'.requested := by
  cases request
  case alloc =>
    obtain ⟨_, -, rfl⟩ := Option.map_eq_some_iff.mp hs
    exact record_le
  case free =>
    obtain ⟨_, -, rfl⟩ := Option.map_eq_some_iff.mp hs
    exact ⟨Nat.le_refl _, Nat.le_refl _⟩
  case resize =>
    obtain ⟨_, -, rfl⟩ := Option.map_eq_some_iff.mp hs
    exact record_le
  case write =>
    cases hs
    exact ⟨Nat.le_refl _, Nat.le_refl _⟩

theorem reaches_le (hr : Reaches start history) : start.allocated ≤ history.allocated ∧ start.requested ≤ history.requested := by
  induction hr
  case refl => exact ⟨Nat.le_refl _, Nat.le_refl _⟩
  case step _ _ hs hi => exact ⟨hi.1.trans (step_le hs).1, hi.2.trans (step_le hs).2⟩

theorem Reaches.trans {middle : History} (h₁ : Reaches start middle) (h₂ : Reaches middle history) : Reaches start history := by
  induction h₂
  case refl => exact h₁
  case step hh hp hs hi => exact hi.step hh hp hs

theorem sum_add_le {blocks : List DebugBlock} (h : ∀ block ∈ blocks, block.Valid) :
    (blocks.map (·.size.toNat)).sum + 2 * blocks.length ≤ ((blocks.map DebugBlock.region).map Region.size).sum := by
  induction blocks
  case nil => exact Nat.le_refl _
  case cons block blocks hi =>
    obtain ⟨hv, hn⟩ := List.forall_mem_cons.mp h
    have hle := hi hn
    have hfront := hv.front
    have hback := hv.back
    have hsize : block.region.size = block.totalSize.toNat := rfl
    simp only [List.map_cons, List.sum_cons, List.length_cons, hsize]
    omega

-- The address space has room for all counted blocks.
theorem Safe.live_eq (h : Safe state allocated requested) :
    state.debug.liveAllocations.toNat = state.debug.blocks.length ∧
    state.debug.liveBytes.toNat = (state.debug.blocks.map (·.size.toNat)).sum := by
  have hstop : ∀ r ∈ state.regions, r.stop ≤ 2 ^ 64 := List.forall_mem_map.mpr fun b hb => (h.blocks b hb).stop
  have hle := (sum_add_le h.blocks).trans (Region.sum_size_le h.disjoint hstop)
  have hzero : state.debug.blocks.length = 0 → (state.debug.blocks.map (·.size.toNat)).sum = 0 := fun hz => by
    rw [List.length_eq_zero_iff.mp hz]
    rfl
  rw [h.liveAllocations, h.liveBytes, BitVec.toNat_ofNat, BitVec.toNat_ofNat]
  omega

theorem Safe.check_eq_false_iff (h : Safe state allocated requested) : state.debug.check state.memory = false ↔
    ∃ block ∈ state.debug.blocks, ∃ address : Uintptr,
      (block.frontRegion.Contains address.toNat ∨ block.backRegion.Contains address.toNat) ∧
      state.memory address ≠ debugGuardByte := by
  rw [DebugAllocator.check, List.all_eq_false]
  refine exists_congr fun block => and_congr_right fun hb => ?_
  rw [(h.blocks block hb).intact_iff]
  push_neg
  rfl

theorem free_unknown (hp : pointer ≠ 0#64) (hb : ∀ block ∈ state.debug.blocks, block.user ≠ pointer) :
    state.free pointer size alignment = some (state.report (.invalidFree pointer)) := by
  rw [DebugState.free, if_neg hp, DebugAllocator.find_eq_none.mpr hb]

theorem resize_unknown (hp : pointer ≠ 0#64) (hb : ∀ block ∈ state.debug.blocks, block.user ≠ pointer) (oldSize newSize : SizeT) :
    state.resize allocate pointer oldSize newSize alignment =
      some (0#64, state.report (if newSize = 0#64 then .invalidFree pointer else .invalidResize pointer)) := by
  rw [DebugState.resize, if_neg hp]
  split
  case isTrue => rw [free_unknown hp hb, Option.map_some]
  case isFalse => rw [DebugAllocator.find_eq_none.mpr hb]

section Example

-- A parent allocator that has one place for blocks, and a block of half of the address space.
def halfBlock (id : BitVec 64) : DebugBlock where
  address         := 4096#64
  user            := 4168#64
  size            := 0x8000000000000000#64
  alignment       := 8#64
  totalSize       := 0x800000000000005f#64
  parentAlignment := 8#64
  id

def onePlace (size _alignment : SizeT) : Uintptr :=
  if size ≤ 0x800000000000005f#64 then 4096#64 else 0#64

def unused : DebugState :=
  ⟨⟨[], 1#64, 0#64, 0#64, 0#64, 0#64, 0#64⟩, fun _ => 0#8, [], []⟩

theorem onePlace_honest : Honest onePlace [] := by
  intro size hne
  have hl : size ≤ 0x800000000000005f#64 := Decidable.not_not.mp fun hn => hne (if_neg hn)
  rw [onePlace, if_pos hl]
  rw [BitVec.le_def, show (0x800000000000005f#64).toNat = 2 ^ 63 + 95 from rfl] at hl
  refine ⟨⟨512, rfl⟩, ?_, fun _ hb => absurd hb List.not_mem_nil⟩
  rw [show (4096#64).toNat = 4096 from rfl]
  omega

theorem reaches_half : Reaches ⟨unused, 0, 0⟩ ⟨unused.push (halfBlock 1#64), 1, 2 ^ 63⟩ :=
  @Reaches.step _ _ _ onePlace (.alloc 0x8000000000000000#64 8#64) .refl onePlace_honest trivial rfl

theorem release_half : ((unused.push (halfBlock 1#64)).release none (halfBlock 1#64)).regions = [] ∧
    ((unused.push (halfBlock 1#64)).release none (halfBlock 1#64)).debug.totalBytes = 0x8000000000000000#64 := by
  constructor
  · rw [regions, DebugState.release, reportCorruption_blocks]
    rfl
  · rw [DebugState.release, reportCorruption_totalBytes]
    rfl

end Example

end Coglet.Runtime.DebugState
