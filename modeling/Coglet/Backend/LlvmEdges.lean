import Coglet.Backend.CEdges

open Coglet.Ir

-- The control flow of the functions that are built by the LLVM backend.

namespace Coglet.Backend.Llvm

-- Basic blocks are numbered in the order in which they are appended to a function.
abbrev Label := Nat

-- A branch to a block that the backend adds by itself does not stand for an edge.
structure Branch where
  source : Label
  target : Label
  edge   : Option BranchEdge

-- An entry of the phi for a parameter.
structure Incoming (L : Type) where
  phi    : ValueId
  source : Label
  value  : L

structure State (L : Type) where
  appended : Nat
  current  : Label
  branches : List Branch
  incoming : List (Incoming L)
  values   : ValueId → Option L

variable {L : Type}

namespace State

def append (s : State L) (count : Nat) : State L :=
  { s with appended := s.appended + count }

def positionAtEnd (s : State L) (label : Label) : State L :=
  { s with current := label }

def setValue (s : State L) (id : ValueId) (v : L) : State L :=
  { s with values := fun id' => if id' = id then some v else s.values id' }

def buildBranch (s : State L) (target : Label) (edge : Option BranchEdge) : State L :=
  { s with branches := s.branches ++ [⟨s.current, target, edge⟩] }

def buildEdge (s : State L) (edge : BranchEdge) : State L :=
  s.buildBranch edge.target (some edge)

-- The trap block is appended before the block in which the function continues.
def emitTrapIf (s : State L) : State L :=
  (((s.append 2).buildBranch s.appended none).buildBranch (s.appended + 1) none).positionAtEnd (s.appended + 1)

def addIncoming (s : State L) : List (BlockParam × ValueId) → Option (State L)
  | []                               => some s
  | (parameter, argument) :: entries => do
    let value ← s.values argument
    let _ ← s.values parameter.value
    addIncoming { s with incoming := s.incoming ++ [⟨parameter.value, s.current, value⟩] } entries

def addEdgeIncoming (f : Function) (s : State L) (edge : BranchEdge) : Option (State L) := do
  let target ← f.blocks[edge.target]?
  guard (edge.arguments.length = target.parameters.length)
  s.addIncoming (target.parameters.zip edge.arguments)

def lowerSwitchEdge (f : Function) (s : State L) (label : Label) (edge : BranchEdge) : Option (State L) := do
  let s ← (s.positionAtEnd label).addEdgeIncoming f edge
  return s.buildEdge edge

def lowerSwitchEdges (f : Function) (s : State L) : Label → List BranchEdge → Option (State L)
  | _, []                => some s
  | label, edge :: edges => do
    let s ← s.lowerSwitchEdge f label edge
    lowerSwitchEdges f s (label + 1) edges

def buildSwitch (s : State L) (labels : List Label) : State L :=
  labels.foldl (fun s label => s.buildBranch label none) s

-- Each edge of a switch gets a block of its own. The one of the default edge is appended first.
def lowerSwitchTerminator (f : Function) (s : State L) (cases : List (Constant × BranchEdge))
    (default : BranchEdge) : Option (State L) := do
  let label := s.appended
  let s := (s.append (cases.length + 1)).buildSwitch (List.range' label (cases.length + 1))
  let s ← s.lowerSwitchEdges f (label + 1) (cases.map (·.2))
  s.lowerSwitchEdge f label default

def lowerTerminator (f : Function) (s : State L) : Terminator → Option (State L)
  | .br edge => do
    let s ← s.addEdgeIncoming f edge
    return s.buildEdge edge
  | .condBr _ ifTrue ifFalse => do
    let s ← s.addEdgeIncoming f ifTrue
    let s ← s.addEdgeIncoming f ifFalse
    return (s.buildEdge ifTrue).buildEdge ifFalse
  | .switch value cases default => do
    let _ ← s.values value
    s.lowerSwitchTerminator f cases default
  | .ret _ | .trap | .unreachable => some s

section Body

-- The number of checks that an instruction is lowered to, and the LLVM value that stands for each value.
-- Different values may share an LLVM value, for example if they are equal constants.
variable (checks : Instruction → Option Nat) (valueOf : ValueId → L)

def lowerInstruction (s : State L) (instruction : Instruction) : Option (State L) := do
  let count ← checks instruction
  let s := emitTrapIf^[count] s
  match instruction.result with
  | some id => return s.setValue id (valueOf id)
  | none    => return s

def lowerBlock (f : Function) (s : State L) (block : Block) (b : BlockId) : Option (State L) := do
  let s ← block.instructions.foldlM (lowerInstruction checks valueOf) (s.positionAtEnd b)
  let terminator ← block.terminator
  s.lowerTerminator f terminator

def lowerBlocks (f : Function) (s : State L) : BlockId → List Block → Option (State L)
  | _, []              => some s
  | b, block :: blocks => do
    let s ← lowerBlock checks valueOf f s block b
    lowerBlocks f s (b + 1) blocks

-- The phis and the function's parameters have been mapped before any instruction is lowered.
def initial (f : Function) : State L :=
  ((f.blocks.flatMap (·.parameters.map (·.value))) ++ f.parameters).foldl (fun s id => s.setValue id (valueOf id))
    ⟨f.blocks.length, f.entry, [], [], fun _ => none⟩

def lowerFunctionBody (f : Function) : Option (State L) :=
  lowerBlocks checks valueOf f (initial valueOf f) 0 f.blocks

end Body

section Agreement

variable (f : Function) (valueOf : ValueId → L)

def entries (s : State L) (phi : ValueId) (source : Label) : List L :=
  (s.incoming.filter fun entry => entry.phi = phi && entry.source = source).map (·.value)

def branchesTo (s : State L) (source target : Label) : List Branch :=
  s.branches.filter fun branch => branch.source = source && branch.target = target

-- A phi has as many entries for a block as there are branches from it, and all of them are the argument of each edge.
structure PhisAgree (s : State L) : Prop where
  lowered : ∀ b terminator, f.terminatorOf b = some terminator → ∀ edge ∈ terminator.edges,
    ∃ branch ∈ s.branches, branch.edge = some edge
  edge : ∀ branch ∈ s.branches, branch.target < f.blocks.length →
    ∃ edge, branch.edge = some edge ∧ edge.target = branch.target
  entry : ∀ b, ∀ p ∈ f.parametersOf b, ∀ source, (s.entries p.value source).length = (s.branchesTo source b).length
  argument : ∀ branch ∈ s.branches, ∀ edge, branch.edge = some edge → ∀ (i : Nat) p a,
    (f.parametersOf edge.target)[i]? = some p → edge.arguments[i]? = some a →
      ∀ v, v ∈ s.entries p.value branch.source ↔ v = valueOf a

end Agreement

end State

-- The two edges of a conditional branch pass the same LLVM values if they have the same target.
def Unambiguous (f : Function) (valueOf : ValueId → L) : Prop :=
  ∀ b condition ifTrue ifFalse, f.terminatorOf b = some (.condBr condition ifTrue ifFalse) →
    ifTrue.target = ifFalse.target → ifTrue.arguments.map valueOf = ifFalse.arguments.map valueOf

-- Two edges of one conditional branch.
def Siblings (f : Function) (edge edge' : BranchEdge) : Prop :=
  ∃ b condition, f.terminatorOf b = some (.condBr condition edge edge') ∨
    f.terminatorOf b = some (.condBr condition edge' edge)

def Connectable (f : Function) (edge edge' : BranchEdge) : Prop :=
  edge = edge' ∨ Siblings f edge edge'

-- The entries that a branch causes.
def Branch.entries (f : Function) (valueOf : ValueId → L) (branch : Branch) : List (Incoming L) :=
  match branch.edge with
  | none      => []
  | some edge =>
    ((f.parametersOf edge.target).zip edge.arguments).map fun pair => ⟨pair.1.value, branch.source, valueOf pair.2⟩

def Branch.WellTargeted (f : Function) (branch : Branch) : Prop :=
  match branch.edge with
  | none      => f.blocks.length ≤ branch.target
  | some edge => branch.target = edge.target ∧ edge.arguments.length = (f.parametersOf edge.target).length

def ofEdge (source : Label) (edge : BranchEdge) : Branch :=
  ⟨source, edge.target, some edge⟩

namespace State

-- No edge is lowered to a branch that starts at a fresh block.
def Fresh (s : State L) (label : Label) : Prop :=
  label < s.appended ∧ ∀ branch ∈ s.branches, branch.edge.isSome → branch.source ≠ label

structure Lowers (s : State L) (terminator : Terminator) : Prop where
  edges : ∀ edge ∈ terminator.edges, ∃ branch ∈ s.branches, branch.edge = some edge
  siblings : ∀ condition edge edge', terminator = .condBr condition edge edge' →
    ∃ source, ofEdge source edge ∈ s.branches ∧ ofEdge source edge' ∈ s.branches

-- The terminators of the blocks before `done` have been lowered, and those from `next` on are yet to be lowered.
structure Progress (f : Function) (valueOf : ValueId → L) (next done : BlockId) (s : State L) : Prop where
  values : ∀ id v, s.values id = some v → v = valueOf id
  length : f.blocks.length ≤ s.appended
  incoming : s.incoming = s.branches.flatMap (Branch.entries f valueOf)
  targets : ∀ branch ∈ s.branches, branch.WellTargeted f
  sources : ∀ branch ∈ s.branches, branch.edge.isSome → branch.source < s.appended
  shared : ∀ branch ∈ s.branches, ∀ branch' ∈ s.branches, ∀ edge edge', branch.edge = some edge →
    branch'.edge = some edge' → branch.source = branch'.source → Connectable f edge edge'
  fresh : ∀ b, next ≤ b → b < f.blocks.length → s.Fresh b
  lowers : ∀ b < done, ∀ terminator, f.terminatorOf b = some terminator → s.Lowers terminator

-- The current block is fresh, and not one of those that are yet to be lowered.
structure Ready (f : Function) (next : BlockId) (s : State L) : Prop where
  fresh : s.Fresh s.current
  current : s.current < next ∨ f.blocks.length ≤ s.current

-- The effect of all edges that start at the current block.
def connect (f : Function) (valueOf : ValueId → L) (s : State L) (edges : List BranchEdge) : State L :=
  { s with
    branches := s.branches ++ edges.map (ofEdge s.current)
    incoming := s.incoming ++ (edges.map (ofEdge s.current)).flatMap (Branch.entries f valueOf) }

section Lowering

variable {f : Function} {valueOf : ValueId → L} {s s' : State L} {edge : BranchEdge} {edges : List BranchEdge}
  {next done : BlockId} {terminator : Terminator}

theorem Lowers.mono (h : s.Lowers terminator) (hs : s.branches ⊆ s'.branches) : s'.Lowers terminator := by
  constructor
  case edges =>
    intro edge he
    obtain ⟨branch, hb, he⟩ := h.edges edge he
    exact ⟨branch, hs hb, he⟩
  case siblings =>
    intro condition edge edge' he
    obtain ⟨source, h₁, h₂⟩ := h.siblings condition edge edge' he
    exact ⟨source, hs h₁, hs h₂⟩

theorem addIncoming_eq (hv : ∀ id v, s.values id = some v → v = valueOf id)
    (h : s.addIncoming pairs = some s') :
    s' = { s with
      incoming := s.incoming ++ pairs.map fun pair => ⟨pair.1.value, s.current, valueOf pair.2⟩ } := by
  induction pairs generalizing s
  case nil =>
    simp only [addIncoming, Option.some.injEq] at h
    simp [← h]
  case cons pair pairs hi =>
    simp only [addIncoming, Option.bind_eq_bind, Option.bind_eq_some_iff] at h
    obtain ⟨value, ha, _, _, h⟩ := h
    rw [hi (s := { s with incoming := s.incoming ++ [⟨pair.1.value, s.current, value⟩] }) hv h]
    simp [hv _ _ ha]

theorem addEdgeIncoming_eq (hv : ∀ id v, s.values id = some v → v = valueOf id)
    (h : s.addEdgeIncoming f edge = some s') :
    s' = { s with incoming := s.incoming ++ (ofEdge s.current edge).entries f valueOf } := by
  simp only [addEdgeIncoming, Option.bind_eq_bind, Option.bind_eq_some_iff] at h
  obtain ⟨target, ht, _, _, h⟩ := h
  rw [addIncoming_eq hv h, ← Function.parametersOf_eq ht]
  rfl

theorem length_of_addEdgeIncoming (h : s.addEdgeIncoming f edge = some s') :
    edge.arguments.length = (f.parametersOf edge.target).length := by
  simp only [addEdgeIncoming, Option.bind_eq_bind, Option.bind_eq_some_iff, Option.guard_eq_some'] at h
  obtain ⟨_, ht, _, hl, _⟩ := h
  rw [hl, Function.parametersOf_eq ht]

theorem connect_progress (h : s.Progress f valueOf next done) (hr : s.Ready f next)
    (hl : ∀ edge ∈ edges, edge.arguments.length = (f.parametersOf edge.target).length)
    (hc : ∀ edge ∈ edges, ∀ edge' ∈ edges, Connectable f edge edge') :
    (s.connect f valueOf edges).Progress f valueOf next done := by
  have hm : ∀ branch ∈ (s.connect f valueOf edges).branches,
      branch ∈ s.branches ∨ ∃ edge ∈ edges, branch = ofEdge s.current edge := by
    intro branch hb
    simp only [connect, List.mem_append, List.mem_map] at hb
    exact hb.imp id fun h => ⟨h.choose, h.choose_spec.left, h.choose_spec.right.symm⟩
  constructor
  case values => exact h.values
  case length => exact h.length
  case incoming => simp [connect, h.incoming]
  case targets =>
    intro branch hb
    cases hm branch hb
    case inl hb => exact h.targets branch hb
    case inr hb =>
      obtain ⟨edge, he, rfl⟩ := hb
      exact ⟨rfl, hl edge he⟩
  case sources =>
    intro branch hb he
    cases hm branch hb
    case inl hb => exact h.sources branch hb he
    case inr hb =>
      obtain ⟨edge, _, rfl⟩ := hb
      exact hr.fresh.left
  case shared =>
    intro branch hb branch' hb' edge edge' he he' hs
    cases hm branch hb
    case inl hb =>
      cases hm branch' hb'
      case inl hb' => exact h.shared branch hb branch' hb' edge edge' he he' hs
      case inr hb' =>
        obtain ⟨_, _, rfl⟩ := hb'
        exact absurd hs (hr.fresh.right branch hb (by simp [he]))
    case inr hb =>
      obtain ⟨_, h₁, rfl⟩ := hb
      cases hm branch' hb'
      case inl hb' => exact absurd hs.symm (hr.fresh.right branch' hb' (by simp [he']))
      case inr hb' =>
        obtain ⟨_, h₂, rfl⟩ := hb'
        rw [← Option.some.inj he, ← Option.some.inj he']
        exact hc _ h₁ _ h₂
  case fresh =>
    intro b hn hb
    refine ⟨(h.fresh b hn hb).left, fun branch hb' he => ?_⟩
    cases hm branch hb'
    case inl hb' => exact (h.fresh b hn hb).right branch hb' he
    case inr hb' =>
      obtain ⟨_, _, rfl⟩ := hb'
      cases hr.current
      case inl hc => exact Nat.ne_of_lt (Nat.lt_of_lt_of_le hc hn)
      case inr hc => exact Nat.ne_of_gt (Nat.lt_of_lt_of_le hb hc)
  case lowers =>
    intro b hb terminator ht
    exact (h.lowers b hb terminator ht).mono (List.subset_append_left _ _)

theorem append_progress (h : s.Progress f valueOf next done) (count : Nat) :
    (s.append count).Progress f valueOf next done := by
  constructor
  case values   => exact h.values
  case length   => exact Nat.le_add_right_of_le h.length
  case incoming => exact h.incoming
  case targets  => exact h.targets
  case sources  => exact fun branch hb he => Nat.lt_add_right count (h.sources branch hb he)
  case shared   => exact h.shared
  case fresh    => exact fun b hn hb => ⟨Nat.lt_add_right count (h.fresh b hn hb).left, (h.fresh b hn hb).right⟩
  case lowers   => exact fun b hb terminator ht => (h.lowers b hb terminator ht).mono (List.Subset.refl _)

theorem append_fresh (h : s.Progress f valueOf next done) (count : Nat) {label : Label} (hl : s.appended ≤ label)
    (hc : label < s.appended + count) : (s.append count).Fresh label :=
  ⟨hc, fun branch hb he => Nat.ne_of_lt (Nat.lt_of_lt_of_le (h.sources branch hb he) hl)⟩

theorem buildBranch_fresh (h : s.Fresh label) (target : Label) : (s.buildBranch target none).Fresh label := by
  refine ⟨h.left, fun branch hb he => ?_⟩
  cases List.mem_append.mp hb
  case inl hb => exact h.right branch hb he
  case inr hb => simp [List.mem_singleton.mp hb] at he

theorem buildBranch_progress (h : s.Progress f valueOf next done) {target : Label} (ht : f.blocks.length ≤ target) :
    (s.buildBranch target none).Progress f valueOf next done := by
  have hm : ∀ branch ∈ (s.buildBranch target none).branches,
      branch ∈ s.branches ∨ branch = ⟨s.current, target, none⟩ := by
    simp [buildBranch]
  have he : ∀ branch ∈ (s.buildBranch target none).branches, branch.edge.isSome → branch ∈ s.branches := by
    intro branch hb he
    refine (hm branch hb).resolve_right ?_
    rintro rfl
    simp at he
  constructor
  case values   => exact h.values
  case length   => exact h.length
  case incoming => simp [buildBranch, h.incoming, Branch.entries]
  case targets  =>
    intro branch hb
    cases hm branch hb
    case inl hb => exact h.targets branch hb
    case inr hb =>
      subst hb
      exact ht
  case sources  => exact fun branch hb hs => h.sources branch (he branch hb hs) hs
  case shared   =>
    intro branch hb branch' hb' edge edge' h₁ h₂
    exact h.shared branch (he branch hb (by simp [h₁])) branch' (he branch' hb' (by simp [h₂])) edge edge' h₁ h₂
  case fresh    => exact fun b hn hb => buildBranch_fresh (h.fresh b hn hb) target
  case lowers   => exact fun b hb terminator ht => (h.lowers b hb terminator ht).mono (List.subset_append_left _ _)

theorem positionAtEnd_progress (h : s.Progress f valueOf next done) (label : Label) :
    (s.positionAtEnd label).Progress f valueOf next done :=
  ⟨h.values, h.length, h.incoming, h.targets, h.sources, h.shared, h.fresh,
    fun b hb terminator ht => (h.lowers b hb terminator ht).mono (List.Subset.refl _)⟩

theorem emitTrapIf_progress (h : s.Progress f valueOf next done) : s.emitTrapIf.Progress f valueOf next done := by
  unfold emitTrapIf
  have ha := append_progress h 2
  have hb := buildBranch_progress ha h.length
  exact positionAtEnd_progress (buildBranch_progress hb (Nat.le_succ_of_le h.length)) _

theorem emitTrapIf_ready (h : s.Progress f valueOf next done) : s.emitTrapIf.Ready f next := by
  have hf := append_fresh h 2 (Nat.le_succ s.appended) (Nat.lt_succ_self _)
  exact ⟨buildBranch_fresh (buildBranch_fresh hf _) _, .inr (Nat.le_succ_of_le h.length)⟩

theorem setValue_progress (h : s.Progress f valueOf next done) (id : ValueId) :
    (s.setValue id (valueOf id)).Progress f valueOf next done := by
  constructor
  case values =>
    intro id' v hv
    simp only [setValue] at hv
    split at hv
    case isTrue he => rw [he, ← Option.some.inj hv]
    case isFalse   => exact h.values id' v hv
  case length   => exact h.length
  case incoming => exact h.incoming
  case targets  => exact h.targets
  case sources  => exact h.sources
  case shared   => exact h.shared
  case fresh    => exact h.fresh
  case lowers   => exact fun b hb terminator ht => (h.lowers b hb terminator ht).mono (List.Subset.refl _)

variable {checks : Instruction → Option Nat} {instruction : Instruction} {instructions : List Instruction}
  {label label' : Label} {cases : List (Constant × BranchEdge)} {default : BranchEdge} {block : Block} {b : BlockId}

theorem iterate_emitTrapIf (h : s.Progress f valueOf next done) (hr : s.Ready f next) (count : Nat) :
    (emitTrapIf^[count] s).Progress f valueOf next done ∧ (emitTrapIf^[count] s).Ready f next := by
  induction count
  case zero => exact ⟨h, hr⟩
  case succ count hi =>
    rw [Function.iterate_succ_apply']
    exact ⟨emitTrapIf_progress hi.left, emitTrapIf_ready hi.left⟩

theorem lowerInstruction_progress (h : s.Progress f valueOf next done) (hr : s.Ready f next)
    (hl : lowerInstruction checks valueOf s instruction = some s') :
    s'.Progress f valueOf next done ∧ s'.Ready f next := by
  simp only [lowerInstruction, Option.bind_eq_bind, Option.bind_eq_some_iff] at hl
  obtain ⟨count, _, hl⟩ := hl
  obtain ⟨h, hr⟩ := iterate_emitTrapIf h hr count
  cases hi : instruction.result
  case none =>
    rw [hi] at hl
    rw [← Option.some.inj hl]
    exact ⟨h, hr⟩
  case some id =>
    rw [hi] at hl
    rw [← Option.some.inj hl]
    exact ⟨setValue_progress h id, hr.fresh, hr.current⟩

theorem lowerInstructions_progress (h : s.Progress f valueOf next done) (hr : s.Ready f next)
    (hl : instructions.foldlM (lowerInstruction checks valueOf) s = some s') :
    s'.Progress f valueOf next done ∧ s'.Ready f next := by
  induction instructions generalizing s
  case nil =>
    rw [← Option.some.inj hl]
    exact ⟨h, hr⟩
  case cons instruction instructions hi =>
    simp only [List.foldlM_cons, Option.bind_eq_bind, Option.bind_eq_some_iff] at hl
    obtain ⟨s₁, h₁, hl⟩ := hl
    obtain ⟨h, hr⟩ := lowerInstruction_progress h hr h₁
    exact hi h hr hl

theorem mem_connect (he : edge ∈ edges) : ofEdge s.current edge ∈ (s.connect f valueOf edges).branches :=
  List.mem_append_right _ (List.mem_map_of_mem he)

theorem connect_fresh (h : s.Fresh label) (hn : label ≠ s.current) : (s.connect f valueOf edges).Fresh label := by
  refine ⟨h.left, fun branch hb he => ?_⟩
  cases List.mem_append.mp hb
  case inl hb => exact h.right branch hb he
  case inr hb =>
    obtain ⟨_, _, rfl⟩ := List.mem_map.mp hb
    exact hn.symm

theorem connectable_singleton (edge : BranchEdge) :
    ∀ e ∈ [edge], ∀ e' ∈ [edge], Connectable f e e' := by
  intro e he e' he'
  rw [List.mem_singleton.mp he, List.mem_singleton.mp he']
  exact .inl rfl

theorem lowerSwitchEdge_eq (h : s.Progress f valueOf next done) (hl : s.lowerSwitchEdge f label edge = some s') :
    s' = (s.positionAtEnd label).connect f valueOf [edge] := by
  simp only [lowerSwitchEdge, Option.bind_eq_bind, Option.bind_eq_some_iff, Option.pure_def, Option.some.injEq] at hl
  obtain ⟨_, ha, rfl⟩ := hl
  rw [addEdgeIncoming_eq (positionAtEnd_progress h label).values ha]
  simp [buildEdge, buildBranch, connect, ofEdge]

theorem lowerSwitchEdge_progress (h : s.Progress f valueOf next done) (hf : s.Fresh label)
    (hn : f.blocks.length ≤ label) (hl : s.lowerSwitchEdge f label edge = some s') :
    s'.Progress f valueOf next done := by
  have hs := lowerSwitchEdge_eq h hl
  simp only [lowerSwitchEdge, Option.bind_eq_bind, Option.bind_eq_some_iff] at hl
  obtain ⟨_, ha, _⟩ := hl
  rw [hs]
  exact connect_progress (positionAtEnd_progress h label) ⟨hf, .inr hn⟩
    (by simpa using length_of_addEdgeIncoming ha) (connectable_singleton edge)

-- What the edges of a switch do not change, and what they add.
structure SwitchEdges (s s' : State L) (label : Label) (edges : List BranchEdge) : Prop where
  branches : s.branches ⊆ s'.branches
  lowered : ∀ edge ∈ edges, ∃ branch ∈ s'.branches, branch.edge = some edge
  fresh : ∀ label' < label, s.Fresh label' → s'.Fresh label'

theorem lowerSwitchEdges_progress (h : s.Progress f valueOf next done) (hn : f.blocks.length ≤ label)
    (hf : ∀ i < edges.length, s.Fresh (label + i)) (hl : s.lowerSwitchEdges f label edges = some s') :
    s'.Progress f valueOf next done ∧ SwitchEdges s s' label edges := by
  induction edges generalizing s label
  case nil =>
    rw [← Option.some.inj hl]
    exact ⟨h, List.Subset.refl _, by simp, fun _ _ h => h⟩
  case cons edge edges hi =>
    simp only [lowerSwitchEdges, Option.bind_eq_bind, Option.bind_eq_some_iff] at hl
    obtain ⟨s₁, he, hl⟩ := hl
    have hp := lowerSwitchEdge_progress h (hf 0 (by simp)) hn he
    have hs := lowerSwitchEdge_eq h he
    have hf' : ∀ i < edges.length, s₁.Fresh (label + 1 + i) := by
      intro i hi
      rw [hs, Nat.add_assoc, Nat.add_comm 1 i]
      exact connect_fresh (hf (i + 1) (by simpa using hi)) (Nat.ne_of_gt (Nat.lt_add_of_pos_right (Nat.succ_pos i)))
    obtain ⟨hp', hb, he', hr⟩ := hi hp (Nat.le_succ_of_le hn) hf' hl
    refine ⟨hp', ?branches, ?lowered, ?fresh⟩
    case branches =>
      refine List.Subset.trans ?_ hb
      rw [hs]
      exact List.subset_append_left _ _
    case lowered =>
      intro e hm
      cases List.mem_cons.mp hm
      case inl hm =>
        subst hm
        refine ⟨ofEdge label e, hb ?_, rfl⟩
        rw [hs]
        exact mem_connect (s := s.positionAtEnd label) (by simp)
      case inr hm => exact he' e hm
    case fresh =>
      intro label' hlt hf
      refine hr label' (Nat.lt_succ_of_lt hlt) ?_
      rw [hs]
      exact connect_fresh (s := s.positionAtEnd label) hf (Nat.ne_of_lt hlt)

theorem buildSwitch_progress (h : s.Progress f valueOf next done) (labels : List Label)
    (hn : ∀ label ∈ labels, f.blocks.length ≤ label) :
    (s.buildSwitch labels).Progress f valueOf next done := by
  unfold buildSwitch
  induction labels generalizing s
  case nil => exact h
  case cons label labels hi =>
    exact hi (buildBranch_progress h (hn label (by simp))) fun label hm => hn label (by simp [hm])

theorem buildSwitch_fresh (h : s.Fresh label) (labels : List Label) : (s.buildSwitch labels).Fresh label := by
  unfold buildSwitch
  induction labels generalizing s
  case nil              => exact h
  case cons label' _ hi => exact hi (buildBranch_fresh h label')

theorem lowerSwitchTerminator_progress (h : s.Progress f valueOf next done)
    (hl : s.lowerSwitchTerminator f cases default = some s') :
    s'.Progress f valueOf next done ∧
      ∀ edge ∈ cases.map (·.2) ++ [default], ∃ branch ∈ s'.branches, branch.edge = some edge := by
  simp only [lowerSwitchTerminator, Option.bind_eq_bind, Option.bind_eq_some_iff] at hl
  obtain ⟨s₂, hc, hd⟩ := hl
  have hp := buildSwitch_progress (append_progress h (cases.length + 1))
    (List.range' s.appended (cases.length + 1))
    fun label hm => h.length.trans (List.mem_range'_1.mp hm).left
  have hf : ∀ i < cases.length + 1, ((s.append (cases.length + 1)).buildSwitch
      (List.range' s.appended (cases.length + 1))).Fresh (s.appended + i) := by
    intro i hi
    exact buildSwitch_fresh (append_fresh h _ (Nat.le_add_right _ _) (Nat.add_lt_add_left hi _)) _
  have hf' : ∀ i < (cases.map (·.2)).length, ((s.append (cases.length + 1)).buildSwitch
      (List.range' s.appended (cases.length + 1))).Fresh (s.appended + 1 + i) := by
    intro i hi
    rw [Nat.add_assoc, Nat.add_comm 1 i]
    exact hf (i + 1) (by simpa using hi)
  obtain ⟨hp, _, he, hfresh⟩ := lowerSwitchEdges_progress hp (Nat.le_succ_of_le h.length) hf' hc
  have hfresh := hfresh s.appended (Nat.lt_succ_self _) (hf 0 (Nat.succ_pos _))
  refine ⟨lowerSwitchEdge_progress hp hfresh h.length hd, fun edge hm => ?_⟩
  have hs := lowerSwitchEdge_eq hp hd
  cases List.mem_append.mp hm
  case inl hm =>
    obtain ⟨branch, hb, heq⟩ := he edge hm
    refine ⟨branch, ?_, heq⟩
    rw [hs]
    exact List.mem_append_left _ hb
  case inr hm =>
    rw [List.mem_singleton.mp hm, hs]
    exact ⟨_, mem_connect (s := s₂.positionAtEnd s.appended) (by simp), rfl⟩

theorem lowerTerminator_progress (h : s.Progress f valueOf next done) (hr : s.Ready f next)
    (ht : f.terminatorOf b = some terminator) (hl : s.lowerTerminator f terminator = some s') :
    s'.Progress f valueOf next done ∧ s'.Lowers terminator := by
  cases terminator
  case br edge =>
    simp only [lowerTerminator, Option.bind_eq_bind, Option.bind_eq_some_iff, Option.pure_def, Option.some.injEq] at hl
    obtain ⟨s₁, ha, rfl⟩ := hl
    have hs : s₁.buildEdge edge = s.connect f valueOf [edge] := by
      rw [addEdgeIncoming_eq h.values ha]
      simp [buildEdge, buildBranch, connect, ofEdge]
    rw [hs]
    have hl : ∀ e ∈ [edge], e.arguments.length = (f.parametersOf e.target).length := by
      simpa using length_of_addEdgeIncoming ha
    refine ⟨connect_progress h hr hl (connectable_singleton edge), fun e he => ?_, fun _ _ _ he => by cases he⟩
    exact ⟨ofEdge s.current e, mem_connect he, rfl⟩
  case condBr condition ifTrue ifFalse =>
    simp only [lowerTerminator, Option.bind_eq_bind, Option.bind_eq_some_iff, Option.pure_def, Option.some.injEq] at hl
    obtain ⟨s₁, h₁, s₂, h₂, rfl⟩ := hl
    have hs : (s₂.buildEdge ifTrue).buildEdge ifFalse = s.connect f valueOf [ifTrue, ifFalse] := by
      have hv : ∀ id v, s₁.values id = some v → v = valueOf id := by
        rw [addEdgeIncoming_eq h.values h₁]
        exact h.values
      rw [addEdgeIncoming_eq hv h₂, addEdgeIncoming_eq h.values h₁]
      simp [buildEdge, buildBranch, connect, ofEdge]
    rw [hs]
    have hc : ∀ edge ∈ [ifTrue, ifFalse], ∀ edge' ∈ [ifTrue, ifFalse], Connectable f edge edge' := by
      have hc : Connectable f ifTrue ifFalse := .inr ⟨b, condition, .inl ht⟩
      have hc' : Connectable f ifFalse ifTrue := .inr ⟨b, condition, .inr ht⟩
      have hrfl : ∀ edge, Connectable f edge edge := fun _ => .inl rfl
      simp [hc, hc', hrfl]
    have hl : ∀ edge ∈ [ifTrue, ifFalse], edge.arguments.length = (f.parametersOf edge.target).length := by
      simp [length_of_addEdgeIncoming h₁, length_of_addEdgeIncoming h₂]
    refine ⟨connect_progress h hr hl hc, fun e he => ?_, fun _ e e' he => ?_⟩
    · exact ⟨ofEdge s.current e, mem_connect he, rfl⟩
    · cases he
      exact ⟨s.current, mem_connect (by simp), mem_connect (by simp)⟩
  case switch value cases default =>
    simp only [lowerTerminator, Option.bind_eq_bind, Option.bind_eq_some_iff] at hl
    obtain ⟨_, _, hl⟩ := hl
    obtain ⟨hp, he⟩ := lowerSwitchTerminator_progress h hl
    exact ⟨hp, he, fun _ _ _ he => by cases he⟩
  all_goals
    rw [← Option.some.inj hl]
    exact ⟨h, by simp [Terminator.edges], fun _ _ _ he => by cases he⟩

theorem lowerBlock_progress (h : s.Progress f valueOf b b) (hb : f.blocks[b]? = some block)
    (hl : lowerBlock checks valueOf f s block b = some s') : s'.Progress f valueOf (b + 1) (b + 1) := by
  simp only [lowerBlock, Option.bind_eq_bind, Option.bind_eq_some_iff] at hl
  obtain ⟨s₁, hi, terminator, ht, hl⟩ := hl
  have ht' : f.terminatorOf b = some terminator := by simp [Function.terminatorOf, hb, ht]
  have hp : (s.positionAtEnd b).Progress f valueOf (b + 1) b := by
    have hp := positionAtEnd_progress h b
    exact { hp with fresh := fun b' hn => hp.fresh b' (Nat.le_of_succ_le hn) }
  have hlt := (List.getElem?_eq_some_iff.mp hb).choose
  have hr : (s.positionAtEnd b).Ready f (b + 1) := ⟨h.fresh b (Nat.le_refl b) hlt, .inl (Nat.lt_succ_self b)⟩
  obtain ⟨hp, hr⟩ := lowerInstructions_progress hp hr hi
  obtain ⟨hp, he⟩ := lowerTerminator_progress hp hr ht' hl
  refine { hp with lowers := fun b' hb' terminator' ht => ?_ }
  cases Nat.lt_or_eq_of_le (Nat.le_of_lt_succ hb')
  case inl hlt => exact hp.lowers b' hlt terminator' ht
  case inr heq =>
    rw [heq, ht', Option.some.injEq] at ht
    exact ht ▸ he

theorem lowerBlocks_progress (h : s.Progress f valueOf b b) (hb : f.blocks.drop b = blocks)
    (hl : lowerBlocks checks valueOf f s b blocks = some s') :
    s'.Progress f valueOf f.blocks.length f.blocks.length := by
  induction blocks generalizing s b
  case nil =>
    rw [← Option.some.inj hl]
    have hn := List.drop_eq_nil_iff.mp hb
    constructor
    case fresh  => exact fun b' h₁ h₂ => absurd h₂ (Nat.not_lt.mpr h₁)
    case lowers => exact fun b' hb' => h.lowers b' (Nat.lt_of_lt_of_le hb' hn)
    all_goals cases h; assumption
  case cons block blocks hi =>
    simp only [lowerBlocks, Option.bind_eq_bind, Option.bind_eq_some_iff] at hl
    obtain ⟨s₁, h₁, hl⟩ := hl
    have hblock : f.blocks[b]? = some block := by
      rw [← Nat.add_zero b, ← List.getElem?_drop, hb, List.getElem?_cons_zero]
    have hrest : f.blocks.drop (b + 1) = blocks := by
      rw [← List.drop_drop, hb, List.drop_one, List.tail_cons]
    exact hi (lowerBlock_progress h hblock h₁) hrest hl

theorem initial_progress (f : Function) (valueOf : ValueId → L) : (initial valueOf f).Progress f valueOf 0 0 := by
  unfold initial
  generalize f.blocks.flatMap (·.parameters.map (·.value)) ++ f.parameters = ids
  refine List.foldlRecOn (motive := Progress f valueOf 0 0) ids _ ?_ fun s h id _ => setValue_progress h id
  constructor
  case values => simp
  case length => exact Nat.le_refl _
  case incoming => simp
  case fresh => exact fun b _ hb => ⟨hb, by simp⟩
  case lowers => simp
  all_goals simp

theorem lowerFunctionBody_progress (hl : lowerFunctionBody checks valueOf f = some s) :
    s.Progress f valueOf f.blocks.length f.blocks.length :=
  lowerBlocks_progress (initial_progress f valueOf) List.drop_zero hl

end Lowering

section

variable {f : Function} {valueOf : ValueId → L} {s : State L} {next done b : BlockId} {branch : Branch}
  {p : BlockParam} {source : Label}
  {edge edge' : BranchEdge}

theorem countP_zip {parameters : List BlockParam} {arguments : List ValueId} (hl : arguments.length = parameters.length)
    (id : ValueId) : (parameters.zip arguments).countP (·.1.value = id) = (parameters.map (·.value)).count id := by
  calc _ = ((parameters.zip arguments).map Prod.fst).countP (·.value = id) := List.countP_map.symm
    _ = parameters.countP (·.value = id) := by rw [List.map_fst_zip (Nat.le_of_eq hl.symm)]
    _ = _ := by simp [List.count, List.countP_map, Function.comp_def, beq_eq_decide]

theorem count_parametersOf (hf : f.verify) (hp : p ∈ f.parametersOf b) (b' : BlockId) :
    ((f.parametersOf b').map (·.value)).count p.value = if b' = b then 1 else 0 := by
  split
  case isTrue he =>
    subst he
    exact List.count_eq_one_of_mem (Function.parametersOf_nodup hf) (List.mem_map_of_mem hp)
  case isFalse he =>
    apply List.count_eq_zero_of_not_mem
    intro hm
    obtain ⟨p', hp', hv⟩ := List.mem_map.mp hm
    obtain ⟨i, hi⟩ := List.getElem?_of_mem hp
    obtain ⟨j, hj⟩ := List.getElem?_of_mem hp'
    exact he (Function.parameter_unique hf hj hi hv).left

-- A branch causes one entry for each parameter of its target.
theorem length_entries (hf : f.verify) (hw : branch.WellTargeted f) (hp : p ∈ f.parametersOf b) :
    ((branch.entries f valueOf).filter fun entry => entry.phi = p.value && entry.source = source).length =
      if branch.source = source && branch.target = b then 1 else 0 := by
  cases he : branch.edge
  case none =>
    obtain ⟨i, hi⟩ := List.getElem?_of_mem hp
    obtain ⟨_, hb, _⟩ := Function.block_of_parametersOf hi
    have hlt := (List.getElem?_eq_some_iff.mp hb).choose
    simp only [Branch.WellTargeted, he] at hw
    have hne : branch.target ≠ b := Nat.ne_of_gt (Nat.lt_of_lt_of_le hlt hw)
    simp [Branch.entries, he, hne]
  case some edge =>
    simp only [Branch.WellTargeted, he] at hw
    have hc := countP_zip hw.right p.value
    rw [count_parametersOf hf hp] at hc
    by_cases hs : branch.source = source
    case neg => simp [Branch.entries, he, hs, List.filter_map, Function.comp_def]
    case pos =>
      simp only [Branch.entries, he, hs, List.filter_map, Function.comp_def, decide_true, Bool.and_true,
        List.length_map, ← List.countP_eq_length_filter, hc, hw.left, Bool.true_and, decide_eq_true_eq]

theorem entries_length (hf : f.verify) (hp : p ∈ f.parametersOf b) {branches : List Branch}
    (hw : ∀ branch ∈ branches, branch.WellTargeted f) :
    ((branches.flatMap (Branch.entries f valueOf)).filter
      fun entry => entry.phi = p.value && entry.source = source).length =
      (branches.filter fun branch => branch.source = source && branch.target = b).length := by
  induction branches
  case nil => rfl
  case cons branch branches hi =>
    have hi := hi fun branch hm => hw branch (by simp [hm])
    rw [List.flatMap_cons, List.filter_append, List.length_append, hi, length_entries hf (hw branch (by simp)) hp,
      List.filter_cons]
    split
    case isTrue  => simp [Nat.add_comm]
    case isFalse => simp

theorem connectable_arguments (hu : Unambiguous f valueOf) (hc : Connectable f edge edge')
    (ht : edge.target = edge'.target) : edge.arguments.map valueOf = edge'.arguments.map valueOf := by
  cases hc
  case inl he => rw [he]
  case inr hs =>
    obtain ⟨b, condition, hs⟩ := hs
    cases hs
    case inl hs => exact hu b condition edge edge' hs ht
    case inr hs => exact (hu b condition edge' edge hs ht.symm).symm

theorem mem_entries {v : L} {id : ValueId} : v ∈ s.entries id source ↔ ⟨id, source, v⟩ ∈ s.incoming := by
  simp only [entries, List.mem_map, List.mem_filter, Bool.and_eq_true, decide_eq_true_eq]
  constructor
  case mp =>
    intro h
    obtain ⟨entry, ⟨hm, rfl, rfl⟩, rfl⟩ := h
    exact hm
  case mpr => exact fun h => ⟨_, ⟨h, rfl, rfl⟩, rfl⟩

theorem phisAgree (hf : f.verify) (h : s.Progress f valueOf f.blocks.length f.blocks.length)
    (hu : Unambiguous f valueOf) : s.PhisAgree f valueOf := by
  constructor
  case lowered =>
    intro b terminator ht edge he
    obtain ⟨block, hb, _⟩ := Option.bind_eq_some_iff.mp ht
    exact (h.lowers b (List.getElem?_eq_some_iff.mp hb).choose terminator ht).edges edge he
  case edge =>
    intro branch hb hlt
    have hw := h.targets branch hb
    cases he : branch.edge
    case none =>
      simp only [Branch.WellTargeted, he] at hw
      exact absurd hlt (Nat.not_lt.mpr hw)
    case some edge =>
      simp only [Branch.WellTargeted, he] at hw
      exact ⟨edge, rfl, hw.left.symm⟩
  case entry =>
    intro b p hp source
    rw [entries, List.length_map, h.incoming]
    exact entries_length hf hp h.targets
  case argument =>
    intro branch hb edge he i p a hp ha v
    rw [mem_entries, h.incoming, List.mem_flatMap]
    constructor
    case mp =>
      intro hm
      obtain ⟨branch', hb', hm⟩ := hm
      cases he' : branch'.edge
      case none => simp [Branch.entries, he'] at hm
      case some edge' =>
        simp only [Branch.entries, he', List.mem_map, Incoming.mk.injEq] at hm
        obtain ⟨pair, hz, hid, hs, rfl⟩ := hm
        obtain ⟨j, hj⟩ := List.getElem?_of_mem hz
        obtain ⟨hp', ha'⟩ := List.getElem?_zip_eq_some.mp hj
        obtain ⟨ht, rfl⟩ := Function.parameter_unique hf hp' hp hid
        have hm := connectable_arguments hu (h.shared branch' hb' branch hb edge' edge he' he hs) ht
        have hv := congrArg (·[j]?) hm
        simpa [ha, ha'] using hv
    case mpr =>
      rintro rfl
      refine ⟨branch, hb, ?_⟩
      simp only [Branch.entries, he, List.mem_map]
      exact ⟨(p, a), List.mem_of_getElem? (List.getElem?_zip_eq_some.mpr ⟨hp, ha⟩), rfl⟩

-- If two edges start at the same block and have the same target then a phi cannot tell them apart.
theorem unambiguous (h : s.Progress f valueOf f.blocks.length f.blocks.length) (ha : s.PhisAgree f valueOf) :
    Unambiguous f valueOf := by
  intro b condition edge edge' ht heq
  obtain ⟨block, hb, _⟩ := Option.bind_eq_some_iff.mp ht
  have hl := h.lowers b (List.getElem?_eq_some_iff.mp hb).choose _ ht
  obtain ⟨source, h₁, h₂⟩ := hl.siblings condition edge edge' rfl
  have hw₁ := (h.targets _ h₁).right
  have hw₂ := (h.targets _ h₂).right
  apply List.ext_getElem
  case hl => simp [hw₁, hw₂, heq]
  case h =>
    intro i hi hi'
    simp only [List.length_map] at hi hi'
    have hp := List.getElem?_eq_getElem (hw₁ ▸ hi : i < (f.parametersOf edge.target).length)
    have hp' : (f.parametersOf edge'.target)[i]? = some (f.parametersOf edge.target)[i] := heq ▸ hp
    have hv := ha.argument _ h₁ edge rfl i _ _ hp (List.getElem?_eq_getElem hi) (valueOf edge.arguments[i])
    have hv' := ha.argument _ h₂ edge' rfl i _ _ hp' (List.getElem?_eq_getElem hi') (valueOf edge.arguments[i])
    simp only [List.getElem_map]
    exact hv'.mp (hv.mpr rfl)

-- Edges are parallel assignments in both backends precisely if the phis can tell apart the edges of each conditional
-- branch. The functions that are emitted as C do not depend on that.
theorem edges_parallel_iff {V : Type} {emitInstruction : C.Texts V → Instruction → Option (C.Text V)}
    {checks : Instruction → Option Nat} (hf : f.verify) (hl : lowerFunctionBody checks valueOf f = some s) :
    ((∀ code, C.emitFunctionBody emitInstruction f = some code → code.Correct f) ∧ s.PhisAgree f valueOf) ↔
      Unambiguous f valueOf := by
  have hp := lowerFunctionBody_progress hl
  constructor
  case mp  => exact fun h => unambiguous hp h.right
  case mpr => exact fun hu => ⟨fun _ hc => C.emitFunctionBody_correct hf hc, phisAgree hf hp hu⟩

end

section Example

-- A conditional branch that passes its function's second or third parameter to the same block.
def select : Function where
  parameters := [0, 1, 2]
  values :=
    [⟨.functionParameter 0, .bool⟩, ⟨.functionParameter 1, .bool⟩, ⟨.functionParameter 2, .bool⟩,
      ⟨.blockParameter 1 0, .bool⟩]
  blocks := [⟨[], [], some (.condBr 0 ⟨1, [1]⟩ ⟨1, [2]⟩)⟩, ⟨[⟨3, .bool⟩], [], some (.ret (some 3))⟩]
  entry := 0
  discarded := []

theorem select_not_unambiguous : ¬Unambiguous select id := by
  intro h
  have := h 0 0 ⟨1, [1]⟩ ⟨1, [2]⟩ rfl rfl
  simp at this

theorem select_lowered : ∃ s, lowerFunctionBody (fun _ => some 0) id select = some s :=
  ⟨_, rfl⟩

theorem select_not_phisAgree : select.verify ∧
    ∃ s, lowerFunctionBody (fun _ => some 0) id select = some s ∧ ¬s.PhisAgree select id := by
  obtain ⟨s, hs⟩ := select_lowered
  exact ⟨by decide, s, hs, fun h => select_not_unambiguous (unambiguous (lowerFunctionBody_progress hs) h)⟩

theorem select_edges_parallel_iff : ∃ s, lowerFunctionBody (fun _ => some 0) id select = some s ∧
    (((∀ code, C.emitFunctionBody (V := Bool) (fun _ _ => none) select = some code → code.Correct select) ∧
      s.PhisAgree select id) ↔ Unambiguous select id) := by
  obtain ⟨s, hs⟩ := select_lowered
  exact ⟨s, hs, edges_parallel_iff (by decide) hs⟩

end Example
end State
end Coglet.Backend.Llvm
