import Coglet.Ir.Function
import Coglet.Lib.Marking

open Coglet.Ir

-- The control flow of the functions that are emitted as C.

namespace Coglet.Backend.C

-- The variables `cg_p_`, `cg_v_` and `cg_bp_`.
inductive Variable
  | parameter (index : Nat)
  | value (id : ValueId)
  | blockParameter (id : ValueId)
deriving DecidableEq, Repr

-- The name `cg_edge_` of a temporary consists of its block, the tag of its edge and an index.
structure Temporary where
  block : BlockId
  tag   : Nat
  index : Nat
deriving DecidableEq, Repr

structure Store (V : Type) where
  vars  : Variable → V
  temps : Temporary → V

-- The text that stands for a value. Constants and addresses are not stored, but they do not read temporaries.
inductive Text (V : Type)
  | variable (x : Variable)
  | expression (eval : (Variable → V) → V)

inductive Statement (V : Type)
  | declare (t : Temporary) (text : Text V)
  | assign (x : Variable) (t : Temporary)

-- The statements of an edge, followed by a jump.
structure EdgeCode (V : Type) where
  statements : List (Statement V)
  label      : BlockId

inductive TerminatorCode (V : Type)
  | goto (edge : EdgeCode V)
  | ifElse (condition : Text V) (ifTrue ifFalse : EdgeCode V)
  | switch (value : Text V) (cases : List (Constant × EdgeCode V)) (default : EdgeCode V)
  | return (value : Option (Text V))
  | abort

-- The texts of the values for which something has been emitted.
def Texts (V : Type) := ValueId → Option (Text V)

-- The texts are those that were known when the terminator was emitted.
structure BlockCode (V : Type) where
  label      : BlockId
  texts      : Texts V
  terminator : TerminatorCode V

variable {V : Type}

namespace Texts

def set (texts : Texts V) (id : ValueId) (text : Text V) : Texts V :=
  fun id' => if id' = id then some text else texts id'

def empty : Texts V :=
  fun _ => none

end Texts

namespace Text

def eval (vars : Variable → V) : Text V → V
  | .variable x      => vars x
  | .expression eval => eval vars

end Text

def emitDeclarations (texts : Texts V) (source : BlockId) (tag : Nat) : Nat → List ValueId → Option (List (Statement V))
  | _, []                     => some []
  | i, argument :: arguments => do
    let text ← texts argument
    return .declare ⟨source, tag, i⟩ text :: (← emitDeclarations texts source tag (i + 1) arguments)

-- What is emitted for a parameter of a block is a variable.
def emitAssignments (texts : Texts V) (source : BlockId) (tag : Nat) : Nat → List BlockParam → Option (List (Statement V))
  | _, []                      => some []
  | i, parameter :: parameters => do
    let .variable x ← texts parameter.value | none
    return .assign x ⟨source, tag, i⟩ :: (← emitAssignments texts source tag (i + 1) parameters)

def emitBranchEdge (f : Function) (texts : Texts V) (source : BlockId) (tag : Nat) (edge : BranchEdge) :
    Option (EdgeCode V) := do
  let target ← f.blocks[edge.target]?
  guard (target.parameters.length = edge.arguments.length)
  let declarations ← emitDeclarations texts source tag 0 edge.arguments
  let assignments ← emitAssignments texts source tag 0 target.parameters
  return ⟨declarations ++ assignments, edge.target⟩

def emitCases (f : Function) (texts : Texts V) (source : BlockId) :
    Nat → List (Constant × BranchEdge) → Option (List (Constant × EdgeCode V))
  | _, []                => some []
  | i, (key, edge) :: cases => do
    let code ← emitBranchEdge f texts source i edge
    return (key, code) :: (← emitCases f texts source (i + 1) cases)

def emitTerminator (f : Function) (texts : Texts V) (source : BlockId) : Terminator → Option (TerminatorCode V)
  | .br edge => do
    return .goto (← emitBranchEdge f texts source 0 edge)
  | .condBr condition ifTrue ifFalse => do
    return .ifElse (← texts condition) (← emitBranchEdge f texts source 0 ifTrue)
      (← emitBranchEdge f texts source 1 ifFalse)
  | .switch value cases default => do
    return .switch (← texts value) (← emitCases f texts source 0 cases)
      (← emitBranchEdge f texts source cases.length default)
  | .ret (some value) => do
    return .return (some (← texts value))
  | .ret none => some (.return none)
  | .trap | .unreachable => some .abort

def successors (f : Function) (b : BlockId) : List BlockId :=
  match f.terminatorOf b with
  | some terminator => terminator.edges.map (·.target)
  | none            => []

-- A block with an invalid target, or without a terminator, is an error if it is reached.
def computeReachableBlocks (f : Function) : Option (Finset BlockId) :=
  let reachable := Marking.saturate (successors f) (List.range f.blocks.length) {f.entry}
  if (List.range f.blocks.length).all fun b =>
      b ∉ reachable || (f.terminatorOf b).any fun terminator =>
        terminator.edges.all (·.target < f.blocks.length)
  then some reachable
  else none

section Body

-- How an instruction is emitted does not matter here, only by which text its result is known afterwards.
variable (emitInstruction : Texts V → Instruction → Option (Text V))

def emitInstructions : Texts V → List Instruction → Option (Texts V)
  | texts, []                          => some texts
  | texts, instruction :: instructions => do
    let text ← emitInstruction texts instruction
    match instruction.result with
    | some id => emitInstructions (texts.set id text) instructions
    | none    => emitInstructions texts instructions

def parameterTexts (f : Function) : Texts V :=
  f.parameters.zipIdx.foldl (fun texts pair => texts.set pair.1 (.variable (.parameter pair.2))) .empty

def setParameter (texts : Texts V) (parameter : BlockParam) : Texts V :=
  texts.set parameter.value (.variable (.blockParameter parameter.value))

def blockParameterTexts (f : Function) (reachable : Finset BlockId) (texts : Texts V) : Texts V :=
  f.blocks.zipIdx.foldl (fun texts pair =>
    if pair.2 ∈ reachable then
      pair.1.parameters.foldl setParameter texts
    else texts) texts

def emitBlocks (f : Function) (reachable : Finset BlockId) :
    Texts V → List (Block × BlockId) → Option (List (BlockCode V))
  | _, [] => some []
  | texts, (block, b) :: blocks =>
    if b ∈ reachable then do
      let texts ← emitInstructions emitInstruction texts block.instructions
      let terminator ← block.terminator
      let code ← emitTerminator f texts b terminator
      return ⟨b, texts, code⟩ :: (← emitBlocks f reachable texts blocks)
    else emitBlocks f reachable texts blocks

-- The body starts with a jump to the entry block.
structure BodyCode (V : Type) where
  entry  : BlockId
  blocks : List (BlockCode V)

def emitFunctionBody (f : Function) : Option (BodyCode V) := do
  let entry ← f.blocks[f.entry]?
  guard (entry.parameters.length = 0)
  let reachable ← computeReachableBlocks f
  let texts := blockParameterTexts f reachable (parameterTexts f)
  return ⟨f.entry, ← emitBlocks emitInstruction f reachable texts f.blocks.zipIdx⟩

end Body

-- The meaning of the emitted statements.
section Execution

namespace Store

def declare (s : Store V) (t : Temporary) (v : V) : Store V :=
  { s with temps := fun t' => if t' = t then v else s.temps t' }

def assign (s : Store V) (x : Variable) (v : V) : Store V :=
  { s with vars := fun x' => if x' = x then v else s.vars x' }

end Store

def Statement.exec (s : Store V) : Statement V → Store V
  | declare t text => s.declare t (text.eval s.vars)
  | assign x t     => s.assign x (s.temps t)

def EdgeCode.exec (code : EdgeCode V) (s : Store V) : Store V :=
  code.statements.foldl Statement.exec s

def TerminatorCode.taken (truth : V → Bool) (selects : V → Constant → Bool) (s : Store V) :
    TerminatorCode V → Option (EdgeCode V)
  | goto edge                       => some edge
  | ifElse condition ifTrue ifFalse => some (if truth (condition.eval s.vars) then ifTrue else ifFalse)
  | switch value cases default      =>
    some (((cases.find? (selects (value.eval s.vars) ·.1)).map (·.2)).getD default)
  | .return _ | abort => none

def TerminatorCode.gotos : TerminatorCode V → List BlockId
  | goto edge                => [edge.label]
  | ifElse _ ifTrue ifFalse  => [ifTrue.label, ifFalse.label]
  | switch _ cases default   => cases.map (·.2.label) ++ [default.label]
  | .return _ | abort        => []

namespace BodyCode

def labels (code : BodyCode V) : List BlockId :=
  code.blocks.map (·.label)

def gotos (code : BodyCode V) : List BlockId :=
  code.entry :: code.blocks.flatMap (·.terminator.gotos)

end BodyCode
-- What taking an edge has to achieve if each value is known by its text.
structure EdgeCode.Jumps (f : Function) (edge : BranchEdge) (s : Store V) (env : ValueId → V) (code : EdgeCode V) :
    Prop where
  label : code.label = edge.target
  assigned : ∀ p ∈ f.parametersOf edge.target,
    (code.exec s).vars (.blockParameter p.value) = f.jump edge env p.value
  unchanged : ∀ x, (∀ p ∈ f.parametersOf edge.target, x ≠ .blockParameter p.value) → (code.exec s).vars x = s.vars x

def Texts.Represent (texts : Texts V) (s : Store V) (env : ValueId → V) : Prop :=
  ∀ id text, texts id = some text → env id = text.eval s.vars

-- The emitted jumps are those of the function, and there is a label for each of them.
structure BodyCode.Correct (f : Function) (code : BodyCode V) : Prop where
  labels : ∀ b, b ∈ code.labels ↔ Marking.Reachable (successors f) f.entry b
  labels_nodup : code.labels.Nodup
  entry : code.entry = f.entry
  gotos : ∀ b ∈ code.gotos, b ∈ code.labels
  jumps : ∀ block ∈ code.blocks, ∃ terminator, f.terminatorOf block.label = some terminator ∧
    ∀ truth selects s env, block.texts.Represent s env →
      Option.Rel (fun edge code => code.Jumps f edge s env) (terminator.taken truth selects env)
        (block.terminator.taken truth selects s)

end Execution

-- The statements of an edge.
section Edges

variable {texts : Texts V} {source : BlockId} {tag k : Nat} {statements : List (Statement V)}

theorem temps_declarations_of_lt (h : emitDeclarations texts source tag k arguments = some statements)
    {s : Store V} {t : Temporary} (ht : t.index < k) : (statements.foldl Statement.exec s).temps t = s.temps t := by
  induction arguments generalizing k statements s
  case nil =>
    simp only [emitDeclarations, Option.some.injEq] at h
    simp [← h]
  case cons a arguments hi =>
    simp only [emitDeclarations, Option.bind_eq_bind, Option.bind_eq_some_iff, Option.pure_def, Option.some.injEq] at h
    obtain ⟨text, _, rest, hr, rfl⟩ := h
    simp only [List.foldl_cons, hi hr (Nat.lt_succ_of_lt ht), Statement.exec, Store.declare]
    rw [if_neg (by rintro rfl; exact Nat.lt_irrefl _ ht)]

theorem vars_declarations (h : emitDeclarations texts source tag k arguments = some statements) {s : Store V} :
    (statements.foldl Statement.exec s).vars = s.vars := by
  induction arguments generalizing k statements s
  case nil =>
    simp only [emitDeclarations, Option.some.injEq] at h
    simp [← h]
  case cons a arguments hi =>
    simp only [emitDeclarations, Option.bind_eq_bind, Option.bind_eq_some_iff, Option.pure_def, Option.some.injEq] at h
    obtain ⟨text, _, rest, hr, rfl⟩ := h
    simp [hi hr, Statement.exec, Store.declare]

-- The temporaries are independent of the variables, hence each argument is evaluated in the initial store.
theorem temps_declarations (h : emitDeclarations texts source tag k arguments = some statements) {s : Store V}
    (ha : arguments[i]? = some a) :
    ∃ text, texts a = some text ∧
      (statements.foldl Statement.exec s).temps ⟨source, tag, k + i⟩ = text.eval s.vars := by
  induction arguments generalizing k statements s i
  case nil => simp at ha
  case cons a' arguments hi =>
    simp only [emitDeclarations, Option.bind_eq_bind, Option.bind_eq_some_iff, Option.pure_def, Option.some.injEq] at h
    obtain ⟨text, ht, rest, hr, rfl⟩ := h
    cases i
    case zero =>
      simp only [List.getElem?_cons_zero, Option.some.injEq] at ha
      subst ha
      refine ⟨text, ht, ?_⟩
      simp only [List.foldl_cons, Nat.add_zero]
      rw [temps_declarations_of_lt hr (Nat.lt_succ_self k)]
      simp [Statement.exec, Store.declare]
    case succ i =>
      obtain ⟨text', ht', he⟩ := hi (i := i) (s := Statement.exec s (.declare ⟨source, tag, k⟩ text)) hr ha
      refine ⟨text', ht', ?_⟩
      rw [Nat.add_right_comm] at he
      simpa [Statement.exec, Store.declare, Nat.add_assoc] using he

def Texts.HasParameter (id : ValueId) (texts : Texts V) : Prop :=
  texts id = some (.variable (.blockParameter id))

theorem Texts.HasParameter.eq {texts : Texts V} {id : ValueId} (h : texts.HasParameter id) :
    texts id = some (.variable (.blockParameter id)) := h

-- Each parameter of the blocks that are emitted has its own variable.
def ParameterTexts (f : Function) (reachable : Finset BlockId) (texts : Texts V) : Prop :=
  ∀ b ∈ reachable, ∀ p ∈ f.parametersOf b, texts.HasParameter p.value

variable {parameters : List BlockParam}

theorem vars_assignments_of_ne
    (hp : ∀ p ∈ parameters, texts.HasParameter p.value)
    (h : emitAssignments texts source tag k parameters = some statements) {s : Store V}
    (hx : ∀ p ∈ parameters, x ≠ .blockParameter p.value) : (statements.foldl Statement.exec s).vars x = s.vars x := by
  induction parameters generalizing k statements s
  case nil =>
    simp only [emitAssignments, Option.some.injEq] at h
    simp [← h]
  case cons p parameters hi =>
    simp only [emitAssignments, (hp p (by simp)).eq, Option.bind_eq_bind, Option.bind_eq_some_iff, Option.pure_def,
      Option.some.injEq, Option.bind_some] at h
    obtain ⟨rest, hr, rfl⟩ := h
    have hx' : ∀ p ∈ parameters, x ≠ .blockParameter p.value := fun q hq => hx q (by simp [hq])
    simp only [List.foldl_cons, hi (fun q hq => hp q (by simp [hq])) hr hx']
    simp [Statement.exec, Store.assign, hx p (by simp)]

theorem vars_assignments
    (hp : ∀ p ∈ parameters, texts.HasParameter p.value)
    (hn : (parameters.map (·.value)).Nodup)
    (h : emitAssignments texts source tag k parameters = some statements) {s : Store V}
    (hi : parameters[i]? = some p) :
    (statements.foldl Statement.exec s).vars (.blockParameter p.value) = s.temps ⟨source, tag, k + i⟩ := by
  induction parameters generalizing k statements s i
  case nil => simp at hi
  case cons p' parameters ih =>
    simp only [emitAssignments, (hp p' (by simp)).eq, Option.bind_eq_bind, Option.bind_eq_some_iff, Option.pure_def,
      Option.some.injEq, Option.bind_some] at h
    obtain ⟨rest, hr, rfl⟩ := h
    simp only [List.map_cons, List.nodup_cons] at hn
    have hp' : ∀ p ∈ parameters, texts.HasParameter p.value :=
      fun q hq => hp q (by simp [hq])
    cases i
    case zero =>
      simp only [List.getElem?_cons_zero, Option.some.injEq] at hi
      subst hi
      have hx : ∀ q ∈ parameters, Variable.blockParameter p'.value ≠ .blockParameter q.value := by
        intro q hq he
        rw [Variable.blockParameter.injEq] at he
        exact hn.left (he ▸ List.mem_map_of_mem hq)
      rw [List.foldl_cons, vars_assignments_of_ne hp' hr hx]
      simp [Statement.exec, Store.assign]
    case succ i =>
      have he := ih hp' hn.right hr (s := Statement.exec s (.assign (.blockParameter p'.value) ⟨source, tag, k⟩)) hi
      rw [Nat.add_right_comm] at he
      simpa [Statement.exec, Store.assign, Nat.add_assoc] using he

variable {f : Function} {reachable : Finset BlockId} {edge : BranchEdge} {code : EdgeCode V}

theorem label_branchEdge (h : emitBranchEdge f texts source tag edge = some code) : code.label = edge.target := by
  simp only [emitBranchEdge, Option.bind_eq_bind, Option.bind_eq_some_iff, Option.pure_def, Option.some.injEq] at h
  obtain ⟨_, _, _, _, _, _, _, _, rfl⟩ := h
  rfl

theorem jumps_branchEdge (hf : f.verify) (hp : ParameterTexts f reachable texts) (ht : edge.target ∈ reachable)
    (h : emitBranchEdge f texts source tag edge = some code) {s : Store V} (hs : texts.Represent s env) :
    code.Jumps f edge s env := by
  simp only [emitBranchEdge, Option.bind_eq_bind, Option.bind_eq_some_iff, Option.pure_def, Option.some.injEq,
    Option.guard_eq_some'] at h
  obtain ⟨target, hb, _, hl, declarations, hd, assignments, ha, rfl⟩ := h
  have hp := hp _ ht
  rw [← Function.parametersOf_eq hb] at ha hl
  have he : EdgeCode.exec ⟨declarations ++ assignments, edge.target⟩ s =
      assignments.foldl Statement.exec (declarations.foldl Statement.exec s) := List.foldl_append
  constructor
  case label => rfl
  case assigned =>
    intro p hm
    obtain ⟨i, hi, rfl⟩ := List.getElem_of_mem hm
    have hi' := List.getElem?_eq_getElem hi
    have hargs := List.getElem?_eq_getElem (hl ▸ hi : i < edge.arguments.length)
    obtain ⟨text, ht, hv⟩ := temps_declarations hd (s := s) hargs
    calc _ = (declarations.foldl Statement.exec s).temps ⟨source, tag, 0 + i⟩ := by
            rw [he, vars_assignments hp (Function.parametersOf_nodup hf) ha hi']
      _ = text.eval s.vars := hv
      _ = env _ := (hs _ _ ht).symm
      _ = _ := (Function.jump_parameter hf hi' hargs env).symm
  case unchanged =>
    intro x hx
    rw [he, vars_assignments_of_ne hp ha hx, vars_declarations hd]

end Edges

section Terminators

variable {f : Function} {reachable : Finset BlockId} {texts : Texts V} {source : BlockId} {terminator : Terminator}
  {code : TerminatorCode V}

theorem gotos_cases {k : Nat} (h : emitCases f texts source k cases = some codes) :
    codes.map (·.2.label) = cases.map (·.2.target) := by
  induction cases generalizing k codes
  case nil =>
    simp only [emitCases, Option.some.injEq] at h
    simp [← h]
  case cons c cases hi =>
    simp only [emitCases, Option.bind_eq_bind, Option.bind_eq_some_iff, Option.pure_def, Option.some.injEq] at h
    obtain ⟨_, he, _, hc, rfl⟩ := h
    simp [hi hc, label_branchEdge he]

theorem gotos_terminator (h : emitTerminator f texts source terminator = some code) :
    code.gotos = terminator.edges.map (·.target) := by
  cases terminator
  case br =>
    simp only [emitTerminator, Option.bind_eq_bind, Option.bind_eq_some_iff, Option.pure_def, Option.some.injEq] at h
    obtain ⟨_, he, rfl⟩ := h
    simp [TerminatorCode.gotos, Terminator.edges, label_branchEdge he]
  case condBr =>
    simp only [emitTerminator, Option.bind_eq_bind, Option.bind_eq_some_iff, Option.pure_def, Option.some.injEq] at h
    obtain ⟨_, _, _, ht, _, hf, rfl⟩ := h
    simp [TerminatorCode.gotos, Terminator.edges, label_branchEdge ht, label_branchEdge hf]
  case switch =>
    simp only [emitTerminator, Option.bind_eq_bind, Option.bind_eq_some_iff, Option.pure_def, Option.some.injEq] at h
    obtain ⟨_, _, _, hc, _, hd, rfl⟩ := h
    simp [TerminatorCode.gotos, Terminator.edges, gotos_cases hc, label_branchEdge hd]
  case ret value =>
    cases value <;> simp only [emitTerminator, Option.bind_eq_bind, Option.bind_eq_some_iff, Option.pure_def, 
      Option.some.injEq] at h
    case none => subst h; rfl
    case some =>
      obtain ⟨_, _, rfl⟩ := h
      rfl
  all_goals
    simp only [emitTerminator, Option.some.injEq] at h
    subst h
    rfl

theorem jumps_cases (hf : f.verify) (hp : ParameterTexts f reachable texts) {k : Nat}
    (ht : ∀ c ∈ cases, c.2.target ∈ reachable) (h : emitCases f texts source k cases = some codes) {s : Store V}
    (hs : texts.Represent s env) (selects : Constant → Bool) :
    Option.Rel (fun edge code => EdgeCode.Jumps f edge s env code) ((cases.find? (selects ·.1)).map (·.2))
      ((codes.find? (selects ·.1)).map (·.2)) := by
  induction cases generalizing k codes
  case nil =>
    simp only [emitCases, Option.some.injEq] at h
    subst h
    exact .none
  case cons c cases hi =>
    simp only [emitCases, Option.bind_eq_bind, Option.bind_eq_some_iff, Option.pure_def, Option.some.injEq] at h
    obtain ⟨code, he, _, hc, rfl⟩ := h
    simp only [List.find?_cons]
    cases selects c.1
    case true  => exact .some (jumps_branchEdge hf hp (ht c (by simp)) he hs)
    case false => exact hi (fun c hm => ht c (by simp [hm])) hc

theorem rel_getD {r : α → β → Prop} (h : Option.Rel r o₁ o₂) (hr : r a b) : r (o₁.getD a) (o₂.getD b) := by
  cases h
  case some h => exact h
  case none   => exact hr

theorem jumps_terminator (hf : f.verify) (hp : ParameterTexts f reachable texts)
    (ht : ∀ edge ∈ terminator.edges, edge.target ∈ reachable)
    (h : emitTerminator f texts source terminator = some code) (truth : V → Bool) (selects : V → Constant → Bool)
    {s : Store V} (hs : texts.Represent s env) :
    Option.Rel (fun edge code => EdgeCode.Jumps f edge s env code) (terminator.taken truth selects env)
      (code.taken truth selects s) := by
  cases terminator
  case br edge =>
    simp only [emitTerminator, Option.bind_eq_bind, Option.bind_eq_some_iff, Option.pure_def, Option.some.injEq] at h
    obtain ⟨_, he, rfl⟩ := h
    exact .some (jumps_branchEdge hf hp (ht edge (by simp [Terminator.edges])) he hs)
  case condBr condition ifTrue ifFalse =>
    simp only [emitTerminator, Option.bind_eq_bind, Option.bind_eq_some_iff, Option.pure_def, Option.some.injEq] at h
    obtain ⟨text, hc, _, he, _, he', rfl⟩ := h
    simp only [Terminator.taken, TerminatorCode.taken, hs _ _ hc]
    cases truth (text.eval s.vars)
    case true  => exact .some (jumps_branchEdge hf hp (ht ifTrue (by simp [Terminator.edges])) he hs)
    case false => exact .some (jumps_branchEdge hf hp (ht ifFalse (by simp [Terminator.edges])) he' hs)
  case switch value cases default =>
    simp only [emitTerminator, Option.bind_eq_bind, Option.bind_eq_some_iff, Option.pure_def, Option.some.injEq] at h
    obtain ⟨text, hv, _, hc, _, hd, rfl⟩ := h
    simp only [Terminator.taken, TerminatorCode.taken, hs _ _ hv]
    have hm : ∀ c ∈ cases, c.2.target ∈ reachable := by
      intro c hc
      exact ht c.2 (by simpa [Terminator.edges] using .inl ⟨c.1, hc⟩)
    have hd := jumps_branchEdge hf hp (ht default (by simp [Terminator.edges])) hd hs
    exact .some (rel_getD (jumps_cases hf hp hm hc hs _) hd)
  case ret value =>
    cases value <;> simp only [emitTerminator, Option.bind_eq_bind, Option.bind_eq_some_iff, Option.pure_def, 
      Option.some.injEq] at h
    case none => subst h; exact .none
    case some =>
      obtain ⟨_, _, rfl⟩ := h
      exact .none
  all_goals
    simp only [emitTerminator, Option.some.injEq] at h
    subst h
    exact .none

end Terminators

section Body

variable {emitInstruction : Texts V → Instruction → Option (Text V)} {f : Function} {reachable : Finset BlockId}
  {texts texts' : Texts V} {instructions : List Instruction} {block : Block} {b : BlockId} {id : ValueId}

theorem texts_instructions_of_ne (h : emitInstructions emitInstruction texts instructions = some texts')
    (hr : ∀ instruction ∈ instructions, instruction.result ≠ some id) : texts' id = texts id := by
  induction instructions generalizing texts
  case nil =>
    simp only [emitInstructions, Option.some.injEq] at h
    rw [h]
  case cons instruction instructions hi =>
    simp only [emitInstructions, Option.bind_eq_bind, Option.bind_eq_some_iff] at h
    obtain ⟨text, _, h⟩ := h
    have hr' : ∀ instruction ∈ instructions, instruction.result ≠ some id := fun i hm => hr i (by simp [hm])
    cases hid : instruction.result
    case none =>
      rw [hid] at h
      exact hi h hr'
    case some id' =>
      rw [hid] at h
      have hne : id ≠ id' := by
        rintro rfl
        exact hr instruction (by simp) hid
      rw [hi h hr', Texts.set, if_neg hne]

-- The result of an instruction is not a parameter of a block.
theorem parameterTexts_instructions (hf : f.verify) (hb : f.blocks[b]? = some block)
    (hp : ParameterTexts f reachable texts)
    (h : emitInstructions emitInstruction texts block.instructions = some texts') :
    ParameterTexts f reachable texts' := by
  intro b' hm p hp'
  rw [Texts.HasParameter, texts_instructions_of_ne h, (hp b' hm p hp').eq]
  intro instruction hi hr
  obtain ⟨i, hi⟩ := List.getElem?_of_mem hi
  obtain ⟨j, hj⟩ := List.getElem?_of_mem hp'
  obtain ⟨_, hv⟩ := Function.result_value hf hb hi hr
  cases hb' : f.blocks[b']?
  case none => simp [Function.parametersOf, hb'] at hj
  case some =>
    rw [Function.parametersOf_eq hb'] at hj
    have := Function.parameter_value hf hb' hj
    simp [this] at hv

-- A property that is established by one element of a list and not lost again.
theorem foldl_of_mem {l : List α} {a : α} {motive : β → Prop} {step : β → α → β} (hk : ∀ b a, motive b → motive (step b a))
    (ha : a ∈ l) (hs : ∀ b, motive (step b a)) (b : β) : motive (l.foldl step b) := by
  have hf : ∀ (l : List α) b, motive b → motive (l.foldl step b) := by
    intro l
    induction l
    case nil           => exact fun _ hb => hb
    case cons a' _ hi  => exact fun b hb => hi _ (hk b a' hb)
  obtain ⟨before, after, rfl⟩ := List.append_of_mem ha
  rw [List.foldl_append, List.foldl_cons]
  exact hf after _ (hs _)

theorem setParameter_keeps (texts : Texts V) (parameter : BlockParam) (h : texts.HasParameter id) :
    (setParameter texts parameter).HasParameter id := by
  simp only [Texts.HasParameter, setParameter, Texts.set]
  split
  case isTrue he => rw [he]
  case isFalse   => exact h

theorem parameterTexts_blockParameterTexts (f : Function) (reachable : Finset BlockId) (texts : Texts V) :
    ParameterTexts f reachable (blockParameterTexts f reachable texts) := by
  intro b hm p hp
  cases hb : f.blocks[b]?
  case none => simp [Function.parametersOf, hb] at hp
  case some block =>
    rw [Function.parametersOf_eq hb] at hp
    refine foldl_of_mem (motive := Texts.HasParameter p.value)
      (a := (block, b)) ?hk ?ha ?hs texts
    case ha => exact List.mk_mem_zipIdx_iff_getElem?.mpr hb
    case hk =>
      intro texts pair h
      split
      case isTrue =>
        exact List.foldlRecOn (motive := Texts.HasParameter p.value)
          _ _ h (fun _ h q _ => setParameter_keeps _ q h)
      case isFalse => exact h
    case hs =>
      intro texts
      rw [if_pos hm]
      refine foldl_of_mem (motive := Texts.HasParameter p.value)
        (fun _ q h => setParameter_keeps _ q h) hp ?_ texts
      simp [Texts.HasParameter, setParameter, Texts.set]

-- What is known about each block that is emitted.
structure BlockCode.Emitted (f : Function) (reachable : Finset BlockId) (code : BlockCode V) : Prop where
  mem_reachable : code.label ∈ reachable
  parameterTexts : ParameterTexts f reachable code.texts
  terminator : ∃ terminator, f.terminatorOf code.label = some terminator ∧
    emitTerminator f code.texts code.label terminator = some code.terminator

theorem emitted_emitBlocks (hf : f.verify) (hb : ∀ pair ∈ blocks, f.blocks[pair.2]? = some pair.1)
    (hp : ParameterTexts f reachable texts) (h : emitBlocks emitInstruction f reachable texts blocks = some codes) :
    ∀ code ∈ codes, code.Emitted f reachable := by
  induction blocks generalizing texts codes
  case nil =>
    simp only [emitBlocks, Option.some.injEq] at h
    simp [← h]
  case cons pair blocks hi =>
    have hb' : ∀ pair ∈ blocks, f.blocks[pair.2]? = some pair.1 := fun q hq => hb q (by simp [hq])
    unfold emitBlocks at h
    split at h
    case isTrue hm =>
      simp only [Option.bind_eq_bind, Option.bind_eq_some_iff, Option.pure_def, Option.some.injEq] at h
      obtain ⟨texts', ht, terminator, hk, code, hc, codes', hr, rfl⟩ := h
      have hp' := parameterTexts_instructions hf (hb pair (by simp)) hp ht
      intro code' hm'
      cases List.mem_cons.mp hm'
      case inl he =>
        subst he
        exact ⟨hm, hp', terminator, by simp [Function.terminatorOf, hb pair, hk], hc⟩
      case inr hm' => exact hi hb' hp' hr code' hm'
    case isFalse => exact hi hb' hp h

theorem labels_emitBlocks (h : emitBlocks emitInstruction f reachable texts blocks = some codes) :
    codes.map (·.label) = (blocks.map (·.2)).filter (· ∈ reachable) := by
  induction blocks generalizing texts codes
  case nil =>
    simp only [emitBlocks, Option.some.injEq] at h
    simp [← h]
  case cons pair blocks hi =>
    unfold emitBlocks at h
    split at h
    case isTrue hm =>
      simp only [Option.bind_eq_bind, Option.bind_eq_some_iff, Option.pure_def, Option.some.injEq] at h
      obtain ⟨_, _, _, _, _, _, _, hr, rfl⟩ := h
      simp [hi hr, hm]
    case isFalse hm => simp [hi h, hm]

theorem target_lt (hf : f.verify) (hs : a ∈ successors f b) : a < f.blocks.length := by
  unfold successors at hs
  split at hs
  case h_1 terminator ht =>
    obtain ⟨block, hb, ht⟩ := Option.bind_eq_some_iff.mp ht
    obtain ⟨edge, he, rfl⟩ := List.mem_map.mp hs
    obtain ⟨_, ha, _⟩ := Function.target_of_verifyEdge (Function.verifyEdge_of_verify hf hb ht he)
    exact (List.getElem?_eq_some_iff.mp ha).choose
  case h_2 => cases hs

theorem lt_of_reachable (hf : f.verify) (h : Marking.Reachable (successors f) f.entry b) : b < f.blocks.length := by
  cases h
  case refl =>
    simp only [Function.verify, Bool.and_eq_true, Option.isSome_iff_exists] at hf
    obtain ⟨_, hb⟩ := hf.left
    exact (List.getElem?_eq_some_iff.mp hb).choose
  case tail hs => exact target_lt hf hs

theorem mem_computeReachableBlocks (hf : f.verify) (h : computeReachableBlocks f = some reachable) :
    b ∈ reachable ↔ Marking.Reachable (successors f) f.entry b := by
  simp only [computeReachableBlocks] at h
  split at h
  case isTrue =>
    rw [← Option.some.inj h]
    exact Marking.mem_saturate_iff fun _ hr => List.mem_range.mpr (lt_of_reachable hf hr)
  case isFalse => cases h

theorem emitFunctionBody_correct (hf : f.verify) (h : emitFunctionBody emitInstruction f = some code) :
    code.Correct f := by
  simp only [emitFunctionBody, Option.bind_eq_bind, Option.bind_eq_some_iff, Option.pure_def, Option.some.injEq] at h
  obtain ⟨_, _, _, _, reachable, hr, codes, hc, rfl⟩ := h
  have hlabels : codes.map (·.label) = (List.range f.blocks.length).filter (· ∈ reachable) := by
    rw [labels_emitBlocks hc, List.zipIdx_map_snd, List.range_eq_range']
  have hmem : ∀ b, b ∈ codes.map (·.label) ↔ Marking.Reachable (successors f) f.entry b := by
    intro b
    simp only [hlabels, List.mem_filter, List.mem_range, decide_eq_true_eq, mem_computeReachableBlocks hf hr,
      and_iff_right_iff_imp]
    exact lt_of_reachable hf
  have hemitted := emitted_emitBlocks hf (fun _ hm => List.mk_mem_zipIdx_iff_getElem?.mp hm)
    (parameterTexts_blockParameterTexts f reachable (parameterTexts f)) hc
  have htargets : ∀ code ∈ codes, ∀ terminator, f.terminatorOf code.label = some terminator →
      ∀ edge ∈ terminator.edges, Marking.Reachable (successors f) f.entry edge.target := by
    intro code hm terminator ht edge he
    refine .tail ((mem_computeReachableBlocks hf hr).mp (hemitted code hm).mem_reachable) ?_
    simp only [successors, ht]
    exact List.mem_map_of_mem he
  constructor
  case labels       => exact hmem
  case labels_nodup =>
    simp only [BodyCode.labels, hlabels]
    exact List.nodup_range.filter _
  case entry        => rfl
  case gotos        =>
    intro b hb
    rw [BodyCode.labels, hmem]
    cases List.mem_cons.mp hb
    case inl he =>
      subst he
      exact .refl
    case inr hb =>
      obtain ⟨code, hm, hb⟩ := List.mem_flatMap.mp hb
      obtain ⟨terminator, ht, hk⟩ := (hemitted code hm).terminator
      rw [gotos_terminator hk] at hb
      obtain ⟨edge, he, rfl⟩ := List.mem_map.mp hb
      exact htargets code hm terminator ht edge he
  case jumps        =>
    intro code hm
    obtain ⟨terminator, ht, hk⟩ := (hemitted code hm).terminator
    refine ⟨terminator, ht, fun truth selects s env hs => ?_⟩
    exact jumps_terminator hf (hemitted code hm).parameterTexts
      (fun edge he => (mem_computeReachableBlocks hf hr).mpr (htargets code hm terminator ht edge he)) hk truth selects hs

end Body
end Coglet.Backend.C
