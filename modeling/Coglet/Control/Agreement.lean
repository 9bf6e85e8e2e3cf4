import Coglet.Control.CheckCorrect
import Coglet.Control.LowerStatement

namespace Coglet.Control

open Graph Outcome BlockBuilder Statement

variable {σ σ' : LowerState} {s : Statement Unit} {items : List (Statement Unit)} {c : CheckState} {depth : Nat}

-- Wherever the lowering can go on behind a statement the checker found it to be reachable, and every block ends in
-- a terminator.
structure LoweredFunction.Agrees (f : LoweredFunction) : Prop where
  log        : ∀ entry ∈ f.log, entry.2 → entry.1.reachableAfter
  terminated : ∀ block ∈ f.blocks, block.terminator ≠ none

theorem isOpen_entryState : entryState.isOpen :=
  rfl

theorem pending_entryState : entryState.graph.pending = ∅ := by
  ext b
  constructor
  case mp =>
    intro ⟨hb, hc⟩
    have := hb.lt_next
    exact absurd (Nat.lt_one_iff.mp this) hc
  case mpr => exact nofun

theorem finish_agrees {returnsVoid : Bool} (hp : σ.graph.pending = ∅) (hl : Agrees entryState σ)
    (ho : σ.isOpen → returnsVoid) :
    Yields (finishVoidFunctionIfNeeded returnsVoid σ) LoweredFunction.Agrees := by
  have hl : ∀ entry ∈ σ.log, entry.2 → entry.1.reachableAfter := fun entry h => (hl entry h).resolve_left nofun
  unfold finishVoidFunctionIfNeeded
  split
  case isTrue h =>
    rw [ho h, if_pos rfl]
    refine (onGraph_yields (setTerminator_yields h)).bind fun σ' ⟨g, hg, hσ⟩ => ?_
    subst hσ
    exact .ok ⟨hl, finished_of_not_isOpen (hg.pending.trans hp) hg.closed⟩
  case isFalse h => exact .ok ⟨hl, finished_of_not_isOpen hp h⟩

-- The checker accepts a function body if it is well placed and its end cannot be reached where a value is missing.
theorem checkFunctionBody_accepted {returnsVoid : Bool} {body : List (Statement Unit)}
    (h : (checkFunctionBody returnsVoid body).1.errors = []) :
    AllWellPlaced { functionDepth := 1, returnsVoid } body ∧ (completesAll body → returnsVoid) ∧
      (checkFunctionBody returnsVoid body).2 = (Statement.block () body).mark := by
  simp only [checkFunctionBody] at h ⊢
  split at h
  case isTrue => exact absurd h CheckState.errors_report_ne
  case isFalse hr =>
    rw [if_neg hr]
    have hw := wellPlaced_of_accepted rfl h
    rw [checkStatement_of_wellPlaced hw rfl] at hr ⊢
    refine ⟨hw, fun hb => ?_, rfl⟩
    simpa [CheckState.behind, completes, hb] using hr

-- A loop whose body defers a statement and leaves early on every way.
def leavingLoop : List (Statement Unit) :=
  [.while () (.operation 0 []) (.block ()
    [.defer () (.action () (.evaluate (.operation 1 []))), .if () (.operation 2 []) (.break ()) .absent, .continue ()])]

section Closed

variable {g : Graph} {e : Expression} {es : List Expression} {ds : List Declaration} {ctx : Context}
variable {run : Statement Facts → LowerState → Except String LowerState}

theorem emit_fails {i : Instruction} (h : ¬g.isOpen) : Fails (Graph.emit i g) :=
  ⟨_, by rw [Graph.emit, emit_of_not_isOpen h]⟩

theorem setTerminator_fails {t : Terminator} {text : String} (h : ¬g.isOpen) : Fails (setTerminator t g text) :=
  ⟨_, by rw [setTerminator, terminate_of_not_isOpen h]⟩

theorem lowerExpression_fails (h : ¬g.isOpen) : Fails (lowerExpression e g) := by
  induction e using Expression.ind
  case constant => exact emit_fails h
  case operation es hs =>
    cases es
    case nil => exact emit_fails h
    case cons e es => exact (hs e List.mem_cons_self).bind.bind
  case logical ha _ => exact ha.bind
  case conditional hc _ _ => exact hc.bind

theorem lowerVariableDeclarations_fails (hd : ds.any (·.initializer.isSome)) (h : ¬g.isOpen) :
    Fails (lowerVariableDeclarations ds g) := by
  induction ds
  case nil => cases hd
  case cons d ds hi =>
    cases hs : d.initializer
    case some e =>
      have : Fails (lowerVariableDeclaration d g) := by
        rw [lowerVariableDeclaration, hs]
        exact lowerExpression_fails h
      exact this.bind
    case none =>
      have : lowerVariableDeclaration d g = .ok g := by rw [lowerVariableDeclaration, hs]
      rw [lowerVariableDeclarations, this]
      rw [List.any_cons, hs, Option.isSome_none, Bool.false_or] at hd
      exact hi hd

theorem onGraph_fails {f : Graph → Except String Graph} (h : Fails (f σ.graph)) : Fails (σ.onGraph f) :=
  h.bind

-- What becomes of a statement behind the end of the code of a module.
theorem lowerStatement_fails (hn : s.needsOpen) (hc : ¬σ.isOpen) (he : (checkStatement ctx s c).1.errors = []) :
    Fails (lowerStatement run (checkStatement ctx s c).2 σ) := by
  induction s using Statement.ind generalizing ctx c
  case vars => exact (onGraph_fails (lowerVariableDeclarations_fails hn hc)).bind
  case action a =>
    refine Fails.bind (onGraph_fails ?_)
    unfold lowerStatementExpression
    split
    case h_1 => exact lowerExpression_fails hc
    case h_2 => cases hn
    case h_3 => exact lowerExpression_fails hc
  case asm => exact (onGraph_fails (lowerExpression_fails hc)).bind
  case ret v =>
    cases v
    case none => cases hn
    case some => exact (onGraph_fails (lowerExpression_fails hc)).bind.bind
  case cond => exact (onGraph_fails (lowerExpression_fails hc)).bind
  case compileIf t e ht hs =>
    simp only [needsOpen] at hn
    split at hn
    case h_1 hb =>
      cases constBoolValue_eq_some hb
      exact (ht hn he).bind
    case h_2 hb =>
      cases constBoolValue_eq_some hb
      simp only [checkStatement] at he ⊢
      split at he
      case isTrue ha =>
        cases eq_absent ha
        cases hn
      case isFalse ha =>
        rw [if_neg ha]
        exact (hs hn he).bind
    case h_3 => cases hn
  case loop => exact (onGraph_fails (setTerminator_fails (not_isOpen_addBlocks hc))).bind
  case steps => exact (onGraph_fails (setTerminator_fails (not_isOpen_addBlocks hc))).bind
  case switch => exact (onGraph_fails (lowerExpression_fails hc)).bind
  all_goals cases hn

theorem lowerVariableDeclarations_ok (hd : ¬ds.any (·.initializer.isSome)) :
    lowerVariableDeclarations ds g = .ok g := by
  induction ds
  case nil => rfl
  case cons d ds hi =>
    rw [List.any_cons, Bool.or_eq_true, not_or] at hd
    have : lowerVariableDeclaration d g = .ok g := by
      unfold lowerVariableDeclaration
      split
      case h_1 h => exact absurd (by rw [h]; rfl) hd.1
      case h_2 => rfl
    rw [lowerVariableDeclarations, this]
    exact hi hd.2

theorem record_ok {note : Facts} (hc : ¬σ.isOpen) (hg : σ'.graph = σ.graph) (ha : Agrees σ σ') :
    (σ'.record note).graph = σ.graph ∧ Agrees σ (σ'.record note) := by
  refine ⟨hg, ha.record fun ho => absurd ?_ hc⟩
  rwa [LowerState.isOpen, hg] at ho

theorem lowerStatements_ok {ss : List (Statement Facts)} (hc : ¬σ.isOpen) : lowerStatements run ss σ = .ok σ := by
  cases ss
  case nil => rfl
  case cons => exact if_neg hc

theorem lowerStatement_ok (hn : ¬s.needsOpen) (hc : ¬σ.isOpen) (hf : ctx.functionDepth = 0) (hl : ctx.loopDepth = 0)
    (he : (checkStatement ctx s c).1.errors = []) :
    Yields (lowerStatement run (checkStatement ctx s c).2 σ) fun σ' => σ'.graph = σ.graph ∧ Agrees σ σ' := by
  induction s using Statement.ind generalizing ctx c
  case absent => exact .ok ⟨rfl, .refl⟩
  case declaration => exact .ok (record_ok hc rfl .refl)
  case vars ds =>
    have h : σ.onGraph (lowerVariableDeclarations ds) = .ok σ := by
      rw [LowerState.onGraph, lowerVariableDeclarations_ok hn]
      rfl
    simp only [checkStatement, lowerStatement, h]
    exact .ok (record_ok hc rfl .refl)
  case action a =>
    simp only [needsOpen] at hn
    split at hn
    case h_1 => exact .ok (record_ok hc rfl .refl)
    case h_2 => exact absurd rfl hn
  case ret v =>
    simp only [checkStatement, checkReturn, hf] at he
    split_ifs at he
    all_goals exact absurd he CheckState.errors_report_ne
  case leave | next =>
    simp only [checkStatement, checkBreak, checkContinue, hl] at he
    split_ifs at he
    all_goals exact absurd he CheckState.errors_report_ne
  case defer =>
    simp only [checkStatement, hf, if_true] at he
    exact absurd he CheckState.errors_report_ne
  case block ss hs =>
    refine Yields.bind ⟨σ, lowerStatements_ok hc, rfl⟩ fun σ₁ h₁ => ?_
    refine Yields.bind ⟨σ, h₁ ▸ if_neg hc, rfl⟩ fun σ₂ h₂ => ?_
    subst h₂
    exact .ok (record_ok hc rfl fun _ => .inl)
  case compileIf t e ht hs =>
    simp only [checkStatement] at he ⊢
    split at he
    case h_1 => exact (ht hn hf hl he).bind fun σ' h => .ok (record_ok hc h.1 h.2)
    case h_2 =>
      split at he
      case isTrue ha =>
        rw [if_pos ha]
        exact .ok (record_ok hc rfl .refl)
      case isFalse ha =>
        rw [if_neg ha]
        exact (hs hn hf hl he).bind fun σ' h => .ok (record_ok hc h.1 h.2)
    all_goals exact absurd he CheckState.errors_report_ne
  all_goals exact absurd rfl hn

end Closed

section Module

-- An item that writes to the block in which the code of the items before it ends.
def NeedsOpen (s : Statement Unit) : Prop :=
  nodeIsRuntimeModuleItem s ∧ s.needsOpen

theorem nodeIsRuntimeModuleItem_check {ctx : Context} :
    nodeIsRuntimeModuleItem (checkStatement ctx s c).2 = nodeIsRuntimeModuleItem s := by
  cases s
  case «defer» =>
    simp only [checkStatement]
    split_ifs <;> rfl
  case «compileIf» =>
    simp only [checkStatement]
    split
    case h_2 => split <;> rfl
    all_goals rfl
  all_goals rfl

theorem completes_of_not_runtime (hw : s.WellPlaced {}) (hr : ¬nodeIsRuntimeModuleItem s) : s.completes := by
  cases s
  case «return» => exact absurd hw.2.1 (Nat.lt_irrefl 0)
  case «break» | «continue» => exact absurd hw.2 (Nat.lt_irrefl 0)
  case «block» | «if» | «compileIf» | «while» | «for» | «switch» => exact absurd rfl hr
  all_goals rfl

theorem any_check {b : Bool} : (checkStatements {} b items c).2.any nodeIsRuntimeModuleItem =
    items.any nodeIsRuntimeModuleItem := by
  induction items generalizing c
  case nil => rfl
  case cons s items hi => simp [checkStatements, nodeIsRuntimeModuleItem_check, hi]

theorem lowerModuleItem_closed (hc : ¬σ.isOpen) (he : (checkStatement {} s c).1.errors = []) (hn : ¬NeedsOpen s) :
    Yields (lowerModuleItem (depth + 1) (checkStatement {} s c).2 σ)
      fun σ' => σ'.graph = σ.graph ∧ Agrees σ σ' := by
  unfold lowerModuleItem
  split
  case isTrue hr =>
    rw [nodeIsRuntimeModuleItem_check] at hr
    exact lowerStatement_ok (fun h => hn ⟨hr, h⟩) hc rfl rfl he
  case isFalse => exact .ok ⟨rfl, .refl⟩

-- Behind the end of the code of the module only items without code are lowered.
theorem lowerModuleItems_closed (hc : ¬σ.isOpen) (he : (checkStatements {} false items c).1.errors = [])
    (hn : ∀ t ∈ items, ¬NeedsOpen t) :
    Yields (lowerModuleItems (depth + 1) (checkStatements {} false items c).2 σ)
      fun σ' => σ'.graph = σ.graph ∧ Agrees σ σ' := by
  induction items generalizing σ c
  case nil => exact .ok ⟨rfl, .refl⟩
  case cons s items hi =>
    rw [List.forall_mem_cons] at hn
    refine (lowerModuleItem_closed hc (checkStatements_nil he) hn.1).bind fun σ₁ h₁ => ?_
    have hc₁ : ¬σ₁.isOpen := by rwa [LowerState.isOpen, h₁.1]
    exact (hi hc₁ he hn.2).mono fun σ₂ h₂ => ⟨h₂.1.trans h₁.1, h₁.2.trans h₂.2⟩

theorem lowerModuleItems_closed_fails (hc : ¬σ.isOpen) (he : (checkStatements {} false items c).1.errors = [])
    (hn : ¬∀ t ∈ items, ¬NeedsOpen t) :
    Fails (lowerModuleItems (depth + 1) (checkStatements {} false items c).2 σ) := by
  induction items generalizing σ c
  case nil => exact absurd nofun hn
  case cons s items hi =>
    by_cases hs : NeedsOpen s
    case pos =>
      have h : Fails (lowerModuleItem (depth + 1) (checkStatement {} s c).2 σ) := by
        rw [lowerModuleItem, nodeIsRuntimeModuleItem_check, if_pos hs.1]
        exact lowerStatement_fails hs.2 hc (checkStatements_nil he)
      exact h.bind
    case neg =>
      have hn : ¬∀ t ∈ items, ¬NeedsOpen t := fun h => hn (List.forall_mem_cons.mpr ⟨hs, h⟩)
      refine Fails.bind_yields (lowerModuleItem_closed hc (checkStatements_nil he) hs) fun σ₁ h₁ => ?_
      exact hi (by rwa [LowerState.isOpen, h₁.1]) he hn

-- The items after each other, up to one that does not complete.
def NothingBehindEnd (items : List (Statement Unit)) : Prop :=
  items.Pairwise fun s t => NeedsOpen t → s.completes

theorem nodeIsRuntimeModuleItem_mark : nodeIsRuntimeModuleItem s.mark = nodeIsRuntimeModuleItem s := by
  cases s
  case «compileIf» =>
    simp only [mark]
    split <;> rfl
  all_goals rfl

theorem lowerModuleItem_open (hw : s.WellPlaced {}) (ho : σ.isOpen) (hf : Fits (lower (depth + 1)) {} σ) :
    Yields (lowerModuleItem (depth + 2) s.mark σ) fun σ' => σ'.graph.pending = σ.graph.pending ∧ Agrees σ σ' ∧
      Fits (lower (depth + 1)) {} σ' ∧ (σ'.isOpen ↔ s.completes) := by
  unfold lowerModuleItem
  rw [nodeIsRuntimeModuleItem_mark]
  split
  case isTrue =>
    refine (sound (fun _ => runsDeferred_lower) hw σ ho hf).mono fun σ' h => ?_
    exact ⟨h.pending, h.rest.log, h.rest.fits hf, h.completes, h.isOpen rfl⟩
  case isFalse hr => exact .ok ⟨rfl, .refl, hf, iff_of_true ho (completes_of_not_runtime hw hr)⟩

theorem nothingBehindEnd_cons : NothingBehindEnd (s :: items) ↔
    NothingBehindEnd items ∧ (s.completes ∨ ∀ t ∈ items, ¬NeedsOpen t) := by
  rw [NothingBehindEnd, List.pairwise_cons, and_comm]
  refine and_congr_right fun _ => ?_
  by_cases hs : s.completes
  case pos => simp [hs]
  case neg => simp [hs]

theorem nothingBehindEnd_of_forall (h : ∀ t ∈ items, ¬NeedsOpen t) : NothingBehindEnd items :=
  List.pairwise_of_forall_mem_list fun _ _ t ht hn => absurd hn (h t ht)

-- The code of the items ends where the code of the first item ends that does not complete.
theorem lowerModuleItems_open (ho : σ.isOpen) (hf : Fits (lower (depth + 1)) {} σ) (hr : c.reachable)
    (he : (checkStatements {} false items c).1.errors = []) :
    (NothingBehindEnd items → Yields (lowerModuleItems (depth + 2) (checkStatements {} false items c).2 σ)
      fun σ' => σ'.graph.pending = σ.graph.pending ∧ Agrees σ σ') ∧
    (¬NothingBehindEnd items → Fails (lowerModuleItems (depth + 2) (checkStatements {} false items c).2 σ)) := by
  induction items generalizing σ c
  case nil => exact ⟨fun _ => .ok ⟨rfl, .refl⟩, absurd List.Pairwise.nil⟩
  case cons s items hi =>
    simp only [checkStatements, Bool.false_and, Bool.false_eq_true, if_false] at he ⊢
    have hw := wellPlaced_of_accepted hr (checkStatements_nil he)
    rw [checkStatement_of_wellPlaced hw hr] at he ⊢
    have step := lowerModuleItem_open hw ho hf
    rw [nothingBehindEnd_cons]
    by_cases hs : s.completes
    case pos =>
      have hi {σ₁ : LowerState} (ho₁ : σ₁.isOpen) (hf₁ : Fits (lower (depth + 1)) {} σ₁) := hi ho₁ hf₁ hs he
      refine ⟨fun hn => ?_, fun hn => ?_⟩
      case refine_1 =>
        refine step.bind fun σ₁ h₁ => ?_
        obtain ⟨hp₁, ha₁, hf₁, ho₁⟩ := h₁
        exact ((hi (ho₁.mpr hs) hf₁).1 hn.1).mono fun σ₂ h₂ => ⟨h₂.1.trans hp₁, ha₁.trans h₂.2⟩
      case refine_2 =>
        refine Fails.bind_yields step fun σ₁ h₁ => ?_
        obtain ⟨_, _, hf₁, ho₁⟩ := h₁
        exact (hi (ho₁.mpr hs) hf₁).2 fun h => hn ⟨h, .inl hs⟩
    case neg =>
      refine ⟨fun hn => ?_, fun hn => ?_⟩
      case refine_1 =>
        refine step.bind fun σ₁ h₁ => ?_
        obtain ⟨hp₁, ha₁, _, ho₁⟩ := h₁
        refine (lowerModuleItems_closed (mt ho₁.mp hs) he (hn.2.resolve_left hs)).mono fun σ₂ h₂ => ?_
        exact ⟨(congrArg pending h₂.1).trans hp₁, ha₁.trans h₂.2⟩
      case refine_2 =>
        refine Fails.bind_yields step fun σ₁ h₁ => ?_
        obtain ⟨_, _, _, ho₁⟩ := h₁
        exact lowerModuleItems_closed_fails (mt ho₁.mp hs) he fun h =>
          hn ⟨nothingBehindEnd_of_forall h, .inr h⟩

def endlessItem : Statement Unit :=
  .while () (.constant (.boolean true)) (.block () [])

def storeItem : Statement Unit :=
  .action () (.assign 0 [.constant .typed])

end Module

end Coglet.Control
