import Coglet.Control.LowerExpression
import Coglet.Control.WellPlaced

namespace Coglet.Control

open Graph Outcome BlockBuilder Statement

variable {run : Statement Facts → LowerState → Except String LowerState} {ctx : Context} {ν : Type}
variable {σ σ' σ₁ σ₂ σ₃ : LowerState} {g : Graph} {s t e : Statement ν} {ss : List (Statement ν)}
variable {cs : List (Option Key × Statement ν)} {ds : List (Statement Facts)} {b b₁ b₂ c : Bool} {note : Facts}

def LoopContext.breakIf (loop : LoopContext) (b : Bool) : LoopContext :=
  { loop with hasBreak := loop.hasBreak || b }

-- Every new entry of the log agrees with what the checker found.
def Agrees (σ σ' : LowerState) : Prop :=
  ∀ entry ∈ σ'.log, entry ∈ σ.log ∨ (entry.2 → entry.1.reachableAfter)

theorem Agrees.refl : Agrees σ σ :=
  fun _ => .inl

theorem Agrees.trans (h₁ : Agrees σ₁ σ₂) (h₂ : Agrees σ₂ σ₃) : Agrees σ₁ σ₃ :=
  fun entry he => (h₂ entry he).elim (h₁ entry) .inr

theorem Agrees.record (h : Agrees σ σ') (hn : σ'.isOpen → note.reachableAfter) : Agrees σ (σ'.record note) := by
  intro entry he
  cases List.mem_append.mp he
  case inl he => exact h entry he
  case inr he =>
    cases List.mem_singleton.mp he
    exact .inr hn

-- What happens while a deferred statement is lowered.
structure Quiet (σ σ' : LowerState) : Prop where
  pending  : σ'.graph.pending = σ.graph.pending
  loop     : σ'.loop = σ.loop
  deferred : σ'.deferred = σ.deferred
  log      : Agrees σ σ'

namespace Quiet

theorem refl : Quiet σ σ :=
  ⟨rfl, rfl, rfl, .refl⟩

theorem trans (h₁ : Quiet σ₁ σ₂) (h₂ : Quiet σ₂ σ₃) : Quiet σ₁ σ₃ :=
  ⟨h₂.pending.trans h₁.pending, h₂.loop.trans h₁.loop, h₂.deferred.trans h₁.deferred, h₁.log.trans h₂.log⟩

end Quiet

-- A quiet part of the lowering that ends in an open or in a closed block.
structure Plain (ends : Bool) (σ σ' : LowerState) : Prop extends Quiet σ σ' where
  isOpen : σ'.isOpen = ends

namespace Plain

theorem refl (h : σ.isOpen) : Plain true σ σ :=
  ⟨.refl, h⟩

theorem after (h₂ : Plain b σ₂ σ₃) (h₁ : Quiet σ₁ σ₂) : Plain b σ₁ σ₃ :=
  ⟨h₁.trans h₂.toQuiet, h₂.isOpen⟩

end Plain

theorem onGraph_yields {f : Graph → Except String Graph} {Q : Graph → Prop} (h : Yields (f σ.graph) Q) :
    Yields (σ.onGraph f) fun σ' => ∃ g, Q g ∧ σ' = { σ with graph := g } := by
  obtain ⟨g, hg, hq⟩ := h
  exact ⟨{ σ with graph := g }, by rw [LowerState.onGraph, hg]; rfl, g, hq, rfl⟩

theorem onGraph_straight {f : Graph → Except String Graph} (h : Yields (f σ.graph) (Straight σ.graph)) :
    Yields (σ.onGraph f) (Plain true σ) := by
  refine (onGraph_yields h).mono fun _ ⟨g, hg, hσ⟩ => ?_
  subst hσ
  exact ⟨⟨hg.pending, rfl, rfl, .refl⟩, hg.isOpen⟩

theorem onGraph_closed {f : Graph → Except String Graph} (h : Yields (f σ.graph) (Closed σ.graph)) :
    Yields (σ.onGraph f) (Plain false σ) := by
  refine (onGraph_yields h).mono fun _ ⟨g, hg, hσ⟩ => ?_
  subst hσ
  exact ⟨⟨hg.pending, rfl, rfl, .refl⟩, Bool.eq_false_iff.mpr hg.closed⟩

theorem fallTo_yields {target : Nat} : Yields (σ.fallTo target) (Plain false σ) := by
  unfold LowerState.fallTo
  split
  case isTrue h => exact onGraph_closed (setTerminator_yields h)
  case isFalse h => exact .ok ⟨.refl, Bool.eq_false_iff.mpr h⟩

theorem setUnreachableIf_yields (h : σ.isOpen) : Yields (σ.setUnreachableIf c) (Plain (!c) σ) := by
  cases c
  case true => exact onGraph_closed (setTerminator_yields h)
  case false => exact .ok (.refl h)

def Runnable (run : Statement Facts → LowerState → Except String LowerState) (d : Statement Facts) : Prop :=
  ∀ σ : LowerState, σ.isOpen → Yields (run d σ) (Quiet σ)

theorem runDeferred_yields (h : ∀ d ∈ ds, Runnable run d) : Yields (runDeferred run ds σ) (Quiet σ) := by
  induction ds generalizing σ
  case nil => exact .ok .refl
  case cons d ds hi =>
    rw [List.forall_mem_cons] at h
    unfold runDeferred
    split
    case isTrue ho => exact (h.1 σ ho).bind fun σ₁ h₁ => (hi h.2).mono fun _ h₂ => h₁.trans h₂
    case isFalse => exact .ok .refl

-- The state in which a statement of the context `ctx` is lowered.
structure Fits (run : Statement Facts → LowerState → Except String LowerState) (ctx : Context) (σ : LowerState) :
    Prop where
  loop     : ctx.deferDepth = 0 → 0 < ctx.loopDepth → σ.loop.isSome
  deferred : ctx.deferDepth = 0 → ∀ d ∈ σ.deferred, Runnable run d
  top      : ctx.functionDepth = 0 → σ.deferred = []

-- What happens to the state besides the blocks: some statements may become deferred, and the loop around the
-- statement may be left by a `break`.
structure Rest (run : Statement Facts → LowerState → Except String LowerState) (ctx : Context) (breaks : Bool)
    (σ σ' : LowerState) : Prop where
  log      : Agrees σ σ'
  loop     : ∃ b, σ'.loop = σ.loop.map (·.breakIf b) ∧ (b → breaks) ∧ (ctx.functionDepth = 0 → b = breaks)
  deferred : ∃ new, σ'.deferred = new ++ σ.deferred ∧ (∀ d ∈ new, Runnable run d) ∧
    (new ≠ [] → 0 < ctx.functionDepth ∧ ctx.deferDepth = 0)

namespace Rest

theorem map_breakIf_false {loop : Option LoopContext} : loop.map (·.breakIf false) = loop := by
  cases loop <;> simp [LoopContext.breakIf]

theorem of_eq (hl : σ'.loop = σ.loop) (hd : σ'.deferred = σ.deferred) (h : Agrees σ σ') :
    Rest run ctx false σ σ' where
  log      := h
  loop     := ⟨false, hl.trans map_breakIf_false.symm, id, fun _ => rfl⟩
  deferred := ⟨[], hd, nofun, absurd rfl⟩

theorem refl : Rest run ctx false σ σ :=
  .of_eq rfl rfl .refl

theorem of_quiet (h : Quiet σ σ') : Rest run ctx false σ σ' :=
  .of_eq h.loop h.deferred h.log

theorem trans (h₁ : Rest run ctx b₁ σ₁ σ₂) (h₂ : Rest run ctx b₂ σ₂ σ₃) : Rest run ctx (b₁ || b₂) σ₁ σ₃ where
  log  := h₁.log.trans h₂.log
  loop := by
    obtain ⟨c₁, hc₁, hb₁, he₁⟩ := h₁.loop
    obtain ⟨c₂, hc₂, hb₂, he₂⟩ := h₂.loop
    refine ⟨c₁ || c₂, ?_, ?_, fun hf => by rw [he₁ hf, he₂ hf]⟩
    case refine_1 =>
      rw [hc₂, hc₁, Option.map_map]
      simp [Function.comp_def, LoopContext.breakIf, Bool.or_assoc]
    case refine_2 =>
      simp only [Bool.or_eq_true]
      exact Or.imp hb₁ hb₂
  deferred := by
    obtain ⟨n₁, hn₁, hr₁, hf₁⟩ := h₁.deferred
    obtain ⟨n₂, hn₂, hr₂, hf₂⟩ := h₂.deferred
    refine ⟨n₂ ++ n₁, by rw [hn₂, hn₁, List.append_assoc], fun d hd => ?_, fun hn => ?_⟩
    case refine_1 => exact (List.mem_append.mp hd).elim (hr₂ d) (hr₁ d)
    case refine_2 =>
      by_cases h : n₁ = []
      case pos =>
        subst h
        exact hf₂ (by simpa using hn)
      case neg => exact hf₁ h

theorem fits (h : Rest run ctx b σ σ') (hf : Fits run ctx σ) : Fits run ctx σ' where
  loop hd hl := by
    obtain ⟨_, h, -⟩ := h.loop
    rw [h, Option.isSome_map]
    exact hf.loop hd hl
  deferred hd d hm := by
    obtain ⟨new, h, hr, -⟩ := h.deferred
    rw [h, List.mem_append] at hm
    exact hm.elim (hr d) (hf.deferred hd d)
  top ht := by
    obtain ⟨new, h, -, hn⟩ := h.deferred
    have : new = [] := by
      by_contra hne
      exact absurd (hn hne).1 (Nat.not_lt.mpr (Nat.le_of_eq ht))
    rw [h, this, hf.top ht]
    rfl

end Rest

-- The result of lowering a statement that can be reached. Outside of functions nothing is deferred, and the block
-- behind the statement is open exactly when the checker finds it to be reachable.
structure Lowered (run : Statement Facts → LowerState → Except String LowerState) (ctx : Context)
    (ends breaks : Bool) (σ σ' : LowerState) : Prop where
  pending   : σ'.graph.pending = σ.graph.pending
  rest      : Rest run ctx breaks σ σ'
  completes : σ'.isOpen → ends
  isOpen    : ctx.functionDepth = 0 → ends → σ'.isOpen

def Sound (run : Statement Facts → LowerState → Except String LowerState) (ctx : Context) (s : Statement ν) : Prop :=
  ∀ σ : LowerState, σ.isOpen → Fits run ctx σ →
    Yields (lowerStatement run s.mark σ) (Lowered run ctx s.completes s.breaks σ)

namespace Rest

-- The blocks play no part.
theorem from_graph (h : Rest run ctx b σ₁ σ') (hg : σ₁ = { σ with graph := σ₁.graph }) : Rest run ctx b σ σ' := by
  rw [hg] at h
  exact ⟨h.log, h.loop, h.deferred⟩

theorem weaken (h : Rest run ctx b σ σ') (hb : b → c) (he : ctx.functionDepth = 0 → b = c) :
    Rest run ctx c σ σ' where
  log  := h.log
  loop := by
    obtain ⟨b', hl, hb', he'⟩ := h.loop
    exact ⟨b', hl, fun hb'' => hb (hb' hb''), fun hf => (he' hf).trans (he hf)⟩
  deferred := h.deferred

end Rest

theorem Fits.graph (h : Fits run ctx σ) : Fits run ctx { σ with graph := g } :=
  ⟨h.loop, h.deferred, h.top⟩

namespace Lowered

theorem of_plain (h : Plain b σ σ') : Lowered run ctx b false σ σ' :=
  ⟨h.pending, .of_quiet h.toQuiet, fun ho => h.isOpen ▸ ho, fun _ hb => h.isOpen.trans hb⟩

theorem trans (h₁ : Lowered run ctx b b₁ σ₁ σ₂) (h₂ : Lowered run ctx c b₂ σ₂ σ₃) :
    Lowered run ctx c (b₁ || b₂) σ₁ σ₃ :=
  ⟨h₂.pending.trans h₁.pending, h₁.rest.trans h₂.rest, h₂.completes, h₂.isOpen⟩

end Lowered

theorem runDeferredFrom_yields {base : Nat} (h : ∀ d ∈ σ.deferred, Runnable run d) :
    Yields (runDeferredFrom run base σ) (Quiet σ) :=
  runDeferred_yields fun d hd => h d (List.mem_of_mem_take hd)

theorem Lowered.record (h : Lowered run ctx b c σ σ') (hn : note.reachableAfter = b) :
    Lowered run ctx b c σ (σ'.record note) where
  pending   := h.pending
  rest      := ⟨h.rest.log.record fun ho => hn.trans (h.completes ho), h.rest.loop, h.rest.deferred⟩
  completes := h.completes
  isOpen    := h.isOpen

namespace Sound

theorem declaration {n : ν} : Sound run ctx (.declaration n) :=
  fun _ ho _ => .ok ((Lowered.of_plain (.refl ho)).record rfl)

theorem vars {n : ν} {ds : List Declaration} : Sound run ctx (.variables n ds) :=
  fun _ ho _ => (onGraph_straight (lowerVariableDeclarations_yields ho)).bind fun _ h =>
    .ok ((Lowered.of_plain h).record rfl)

theorem action {n : ν} {a : Action} : Sound run ctx (.action n a) :=
  fun _ ho _ => (onGraph_straight (lowerStatementExpression_yields ho)).bind fun _ h =>
    .ok ((Lowered.of_plain h).record rfl)

theorem asm {n : ν} {l : Nat} {es : List Expression} : Sound run ctx (.asm n l es) :=
  fun _ ho _ => (onGraph_straight (lowerAssignment_yields ho)).bind fun _ h =>
    .ok ((Lowered.of_plain h).record rfl)

theorem ret {n : ν} {v : Option Expression} (hw : (Statement.return n v).WellPlaced ctx) :
    Sound run ctx (.return n v) := by
  intro σ ho hf
  refine Yields.bind (Q := Plain false σ) ?_ fun _ h => .ok ((Lowered.of_plain h).record rfl)
  refine (onGraph_straight (lowerReturnValue_yields ho)).bind fun σ₁ h₁ => ?_
  have hd : ∀ d ∈ σ₁.deferred, Runnable run d := h₁.deferred ▸ hf.deferred hw.1
  refine (runDeferredFrom_yields hd).bind fun σ₂ h₂ => ?_
  have h₃ : Yields (if σ₂.isOpen then σ₂.onGraph (setTerminator .ret · "failed to emit CogIR return terminator")
      else .ok σ₂) (Plain false σ₂) := by
    split
    case isTrue h => exact onGraph_closed (setTerminator_yields h)
    case isFalse h => exact .ok ⟨.refl, Bool.eq_false_iff.mpr h⟩
  exact h₃.mono fun _ h₃ => h₃.after (h₁.trans h₂)

theorem leave {n : ν} (hw : (Statement.break n).WellPlaced ctx) : Sound run ctx (.break n) := by
  intro σ ho hf
  obtain ⟨loop, hl⟩ := Option.isSome_iff_exists.mp (hf.loop hw.1 hw.2)
  refine Yields.bind (Q := Lowered run ctx false true σ) ?_ fun _ h => .ok (h.record rfl)
  have hm : Rest run ctx true σ σ.markBreak := by
    refine ⟨.refl, ⟨true, ?_, id, fun _ => rfl⟩, ⟨[], rfl, nofun, absurd rfl⟩⟩
    simp [LowerState.markBreak, LoopContext.breakIf]
  unfold lowerBreakStatement
  rw [hl]
  refine (runDeferredFrom_yields ((hm.fits hf).deferred hw.1)).bind fun σ₂ h₂ => ?_
  refine fallTo_yields.mono fun σ₃ h₃ => ?_
  have h₃ := h₃.after h₂
  exact ⟨h₃.pending, hm.trans (.of_quiet h₃.toQuiet), fun ho => h₃.isOpen ▸ ho, nofun⟩

theorem next {n : ν} (hw : (Statement.continue n).WellPlaced ctx) : Sound run ctx (.continue n) := by
  intro σ ho hf
  obtain ⟨loop, hl⟩ := Option.isSome_iff_exists.mp (hf.loop hw.1 hw.2)
  refine Yields.bind (Q := Plain false σ) ?_ fun _ h => .ok ((Lowered.of_plain h).record rfl)
  unfold lowerContinueStatement
  rw [hl]
  refine (runDeferredFrom_yields (hf.deferred hw.1)).bind fun σ₂ h₂ => ?_
  exact fallTo_yields.mono fun σ₃ h₃ => h₃.after h₂

theorem absent : Sound run ctx (.absent : Statement ν) :=
  fun _ ho _ => .ok (.of_plain (.refl ho))

theorem defer {n : ν} {d : Statement ν} (hw : (Statement.defer n d).WellPlaced ctx) (hr : Runnable run d.mark) :
    Sound run ctx (.defer n d) := by
  intro σ ho hf
  have hd : Lowered run ctx true false σ (σ.rememberDefer d.mark) := by
    refine ⟨rfl, ⟨.refl, ⟨false, Rest.map_breakIf_false.symm, id, fun _ => rfl⟩, ?_⟩, fun _ => rfl, fun _ _ => ho⟩
    exact ⟨[d.mark], rfl, by simpa using hr, fun _ => ⟨hw.1, hw.2.1⟩⟩
  exact .ok (hd.record rfl)

theorem statements (hs : ∀ s ∈ ss, s.WellPlaced ctx → Sound run ctx s) (hw : AllWellPlaced ctx ss) (ho : σ.isOpen)
    (hf : Fits run ctx σ) :
    Yields (lowerStatements run (markAll ss) σ) (Lowered run ctx (completesAll ss) (breaksAny ss) σ) := by
  induction ss generalizing σ
  case nil => exact .ok (.of_plain (.refl ho))
  case cons s ss hi =>
    rw [List.forall_mem_cons] at hs
    simp only [markAll, lowerStatements, ho, if_true]
    refine (hs.1 hw.1 σ ho hf).bind fun σ₁ h₁ => ?_
    simp only [completesAll, breaksAny]
    by_cases ho₁ : σ₁.isOpen
    case pos =>
      rw [h₁.completes ho₁, Bool.true_and, Bool.true_and]
      exact (hi hs.2 hw.2.2 ho₁ (h₁.rest.fits hf)).mono fun σ₂ h₂ => h₁.trans h₂
    case neg =>
      -- The rest is not lowered.
      have hr : lowerStatements run (markAll ss) σ₁ = .ok σ₁ := by
        cases ss
        case nil => rfl
        case cons => rw [markAll, lowerStatements, if_neg ho₁]
      have hc : ctx.functionDepth = 0 → s.completes = false := fun ht => by
        by_contra hc
        exact ho₁ (h₁.isOpen ht (Bool.eq_true_of_not_eq_false hc))
      refine hr ▸ .ok ⟨h₁.pending, h₁.rest.weaken (fun hb => ?_) (fun ht => ?_), fun ho => absurd ho ho₁,
        fun ht h => ?_⟩
      case refine_1 => rw [hb, Bool.true_or]
      case refine_2 => rw [hc ht, Bool.false_and, Bool.or_false]
      case refine_3 =>
        rw [hc ht] at h
        cases h

-- The scope runs what became deferred in it and nothing else.
theorem leaveScope_yields {base : Nat} {new old : List (Statement Facts)} (hd : σ.deferred = new ++ old)
    (hl : old.length = base) (hn : ∀ d ∈ new, Runnable run d) :
    Yields (leaveScope run base σ) fun σ' => Quiet σ σ' ∧ (σ'.isOpen → σ.isOpen) ∧ (new = [] → σ' = σ) := by
  subst hl
  unfold leaveScope runDeferredFrom
  split
  case isTrue ho =>
    rw [hd, List.length_append, Nat.add_sub_cancel, List.take_left]
    cases new
    case nil => exact .ok ⟨.refl, id, fun _ => rfl⟩
    case cons => exact (runDeferred_yields hn).mono fun σ' h => ⟨h, fun _ => ho, nofun⟩
  case isFalse => exact .ok ⟨.refl, id, fun _ => rfl⟩

theorem block {n : ν} (hs : ∀ s ∈ ss, s.WellPlaced ctx → Sound run ctx s) (hw : AllWellPlaced ctx ss) :
    Sound run ctx (.block n ss) := by
  intro σ ho hf
  refine (statements hs hw ho hf).bind fun σ₁ h₁ => ?_
  obtain ⟨new, hd, hr, hn⟩ := h₁.rest.deferred
  refine (leaveScope_yields hd rfl hr).bind fun σ₂ ⟨h₂, ho₂, he₂⟩ => ?_
  refine .ok (Lowered.record (b := completesAll ss) (c := breaksAny ss) ⟨?_, ⟨?_, ?_, ?_⟩, ?_, ?_⟩ rfl)
  case refine_1 => exact h₂.pending.trans h₁.pending
  case refine_2 => exact h₁.rest.log.trans h₂.log
  case refine_3 =>
    obtain ⟨b, hb⟩ := h₁.rest.loop
    exact ⟨b, h₂.loop.trans hb.1, hb.2⟩
  case refine_4 =>
    refine ⟨[], ?_, nofun, absurd rfl⟩
    simp [LowerState.truncateDefers, h₂.deferred, hd]
  case refine_5 => exact fun ho => h₁.completes (ho₂ ho)
  case refine_6 =>
    intro ht hc
    have hn : new = [] := by
      by_contra hne
      exact absurd (hn hne).1 (Nat.not_lt.mpr (Nat.le_of_eq ht))
    exact (he₂ hn).symm ▸ h₁.isOpen ht hc

theorem compileIf {n : ν} {c : Expression} (hw : (Statement.compileIf n c t e).WellPlaced ctx)
    (ht : t.WellPlaced ctx → Sound run ctx t) (he : e.WellPlaced ctx → Sound run ctx e) :
    Sound run ctx (.compileIf n c t e) := by
  intro σ ho hf
  obtain ⟨rfl, hw⟩ | ⟨rfl, hw⟩ := wellPlaced_compileIf hw
  case inl => exact (ht hw σ ho hf).bind fun σ₁ h₁ => .ok (h₁.record rfl)
  case inr =>
    have h := he hw σ ho hf
    by_cases ha : e.isAbsent
    case pos =>
      cases eq_absent ha
      exact .ok ((Lowered.of_plain (.refl ho)).record rfl)
    case neg =>
      have hs : compileTimeSelection (.constant (.boolean false)) e = 2 := by
        simp [compileTimeSelection, Expression.constBoolValue, ha]
      simp only [mark, lowerStatement, Expression.constBoolValue, facts, hs]
      exact h.bind fun σ₁ h₁ => .ok (h₁.record rfl)

theorem isAbsent_mark : s.mark.isAbsent = s.isAbsent := by
  cases s
  case compileIf c t e =>
    simp only [mark]
    split <;> rfl
  all_goals rfl

theorem cond {n : ν} {c : Expression} (ht : Sound run ctx t) (he : Sound run ctx e) :
    Sound run ctx (.if n c t e) := by
  intro σ ho hf
  simp only [mark, lowerStatement, isAbsent_mark]
  refine (onGraph_straight (lowerExpression_yields ho)).bind fun σ₁ h₁ => ?_
  refine (onGraph_straight (checkOpen_yields h₁.isOpen)).bind fun σ₂ h₂ => ?_
  have h₂ := h₂.after h₁.toQuiet
  have hr₂ : Rest run ctx false σ σ₂ := .of_quiet h₂.toQuiet
  have hb := Filling.addBlocks (n := if e.isAbsent then 2 else 3) h₂.isOpen
  refine (onGraph_yields (setTerminator_yields (isOpen_addBlocks h₂.isOpen))).bind fun σ₃ ⟨g, hg, hσ₃⟩ => ?_
  subst hσ₃
  have hb := hb.congr hg.pending
  have hm : σ₂.graph.next ∈ { b | σ₂.graph.next ≤ b ∧ b < σ₂.graph.next + if e.isAbsent then 2 else 3 } := by
    simp only [Set.mem_ofPred_eq]
    split <;> omega
  let thenState := LowerState.select { σ₂ with graph := g } σ₂.graph.next
  refine (ht thenState (isOpen_select (hb.mem hm)) (hr₂.fits hf).graph).bind fun σ₄ h₄ => ?_
  refine fallTo_yields.bind fun σ₅ h₅ => ?_
  have hr₄ : Rest run ctx t.breaks σ₂ σ₄ := h₄.rest.from_graph rfl
  have hr₅ : Rest run ctx t.breaks σ σ₅ := by simpa using (hr₂.trans hr₄).trans (.of_quiet h₅.toQuiet)
  have hb := (hb.select hg.closed hm).congr (h₅.pending.trans h₄.pending)
  have hc₅ : ¬σ₅.isOpen := Bool.eq_false_iff.mp h₅.isOpen
  by_cases ha : e.isAbsent
  case pos =>
    simp only [ha, if_true] at hb ⊢
    have hm : σ₂.graph.next + 1 ∈ { b | σ₂.graph.next ≤ b ∧ b < σ₂.graph.next + 2 } \ {σ₂.graph.next} := by
      simp only [Set.mem_sdiff, Set.mem_ofPred_eq, Set.mem_singleton_iff]
      omega
    have ho : (σ₅.select (σ₂.graph.next + 1)).isOpen := isOpen_select (hb.mem hm)
    have hp : (σ₅.select (σ₂.graph.next + 1)).graph.pending = σ.graph.pending := by
      refine ((hb.select hc₅ hm).pending_eq fun b => ?_).trans h₂.pending
      simp only [Set.mem_sdiff, Set.mem_ofPred_eq, Set.mem_singleton_iff]
      omega
    cases eq_absent ha
    refine .ok (Lowered.record (b := t.completes || true) (c := t.breaks || false) ⟨hp, ?_, ?_, ?_⟩ rfl)
    case refine_1 =>
      rw [Bool.or_false]
      exact ⟨hr₅.log, hr₅.loop, hr₅.deferred⟩
    case refine_2 => exact fun _ => Bool.or_true _
    case refine_3 => exact fun _ _ => ho
  case neg =>
    simp only [ha, if_false, Bool.false_eq_true] at hb ⊢
    have hm : σ₂.graph.next + 1 + 1 ∈ { b | σ₂.graph.next ≤ b ∧ b < σ₂.graph.next + 3 } \ {σ₂.graph.next} := by
      simp only [Set.mem_sdiff, Set.mem_ofPred_eq, Set.mem_singleton_iff]
      omega
    let elseState := σ₅.select (σ₂.graph.next + 1 + 1)
    refine (he elseState (isOpen_select (hb.mem hm)) (hr₅.fits hf).graph).bind fun σ₆ h₆ => ?_
    refine fallTo_yields.bind fun σ₇ h₇ => ?_
    have hr₆ : Rest run ctx e.breaks σ₅ σ₆ := h₆.rest.from_graph rfl
    have hr₇ : Rest run ctx (t.breaks || e.breaks) σ σ₇ := by
      simpa using hr₅.trans (hr₆.trans (.of_quiet h₇.toQuiet))
    have hb := (hb.select hc₅ hm).congr (h₇.pending.trans h₆.pending)
    have hc₇ : ¬σ₇.isOpen := Bool.eq_false_iff.mp h₇.isOpen
    have hm : σ₂.graph.next + 1 ∈
        ({ b | σ₂.graph.next ≤ b ∧ b < σ₂.graph.next + 3 } \ {σ₂.graph.next}) \ {σ₂.graph.next + 1 + 1} := by
      simp only [Set.mem_sdiff, Set.mem_ofPred_eq, Set.mem_singleton_iff]
      omega
    have ho : (σ₇.select (σ₂.graph.next + 1)).isOpen := isOpen_select (hb.mem hm)
    have hp : (σ₇.select (σ₂.graph.next + 1)).graph.pending = σ.graph.pending := by
      refine ((hb.select hc₇ hm).pending_eq fun b => ?_).trans h₂.pending
      simp only [Set.mem_sdiff, Set.mem_ofPred_eq, Set.mem_singleton_iff]
      omega
    refine (setUnreachableIf_yields ho).bind fun σ₈ h₈ => ?_
    have ho₈ : σ₈.isOpen = (σ₄.isOpen || σ₆.isOpen) := by simp [h₈.isOpen]
    have hr₈ : Rest run ctx false σ₇ σ₈ := (Rest.of_quiet h₈.toQuiet).from_graph rfl
    refine .ok (Lowered.record (b := t.completes || e.completes) (c := t.breaks || e.breaks) ⟨?_, ?_, ?_, ?_⟩ rfl)
    case refine_1 => exact h₈.pending.trans hp
    case refine_2 => simpa using hr₇.trans hr₈
    case refine_3 =>
      rw [ho₈]
      simp only [Bool.or_eq_true]
      exact Or.imp h₄.completes h₆.completes
    case refine_4 =>
      intro ht
      rw [ho₈]
      simp only [Bool.or_eq_true]
      exact Or.imp (h₄.isOpen ht) (h₆.isOpen ht)

-- The state behind the body of a loop, with the loop still entered.
structure InLoop (run : Statement Facts → LowerState → Except String LowerState) (ctx : Context) (breaks : Bool)
    (σ σ' : LowerState) : Prop where
  log      : Agrees σ σ'
  deferred : ∃ new, σ'.deferred = new ++ σ.deferred ∧ (∀ d ∈ new, Runnable run d) ∧
    (new ≠ [] → 0 < ctx.functionDepth ∧ ctx.deferDepth = 0)
  hasBreak    : σ'.hasBreak → breaks
  hasBreak_eq : ctx.functionDepth = 0 → σ'.hasBreak = breaks

theorem InLoop.quiet (h : InLoop run ctx b σ₁ σ₂) (hq : Quiet σ₂ σ₃) : InLoop run ctx b σ₁ σ₃ := by
  have hb : σ₃.hasBreak = σ₂.hasBreak := by rw [LowerState.hasBreak, hq.loop, LowerState.hasBreak]
  exact ⟨h.log.trans hq.log, hq.deferred ▸ h.deferred, hb ▸ h.hasBreak, hb ▸ h.hasBreak_eq⟩

theorem InLoop.select {n : Nat} (h : InLoop run ctx b σ σ') : InLoop run ctx b σ (σ'.select n) :=
  ⟨h.log, h.deferred, h.hasBreak, h.hasBreak_eq⟩

theorem lowerLoopCondition_yields {condition : Option Expression} {body exit : Nat} (h : g.isOpen) :
    Yields (lowerLoopCondition condition body exit g) (Closed g) := by
  cases condition
  case none => exact setTerminator_yields h
  case some c =>
    refine (lowerExpression_yields h).bind fun g₁ h₁ => ?_
    refine (checkOpen_yields h₁.isOpen).bind fun g₂ h₂ => ?_
    refine Yields.mono (P := Closed g₂) ?_ fun _ h => (h₁.trans h₂).closed h
    split
    case h_1 => exact setTerminator_yields h₂.isOpen
    case h_2 => exact setTerminator_yields h₂.isOpen

theorem body {exit next block : Nat} (hs : Sound run ctx.inLoop s) (hf : Fits run ctx σ)
    (ho : (g.select block).isOpen) :
    Yields (lowerStatement run s.mark ((LowerState.enterLoop { σ with graph := g } exit next).select block))
      fun σ' => σ'.graph.pending = (g.select block).pending ∧ InLoop run ctx s.breaks σ σ' := by
  let bodyState := (LowerState.enterLoop { σ with graph := g } exit next).select block
  refine (hs bodyState ho ⟨fun _ _ => rfl, hf.deferred, hf.top⟩).mono fun σ' h => ⟨h.pending, ?_⟩
  obtain ⟨b, hl, hb, he⟩ := h.rest.loop
  have hb' : σ'.hasBreak = b := by
    simp [LowerState.hasBreak, hl, bodyState, LoopContext.breakIf, LowerState.select, LowerState.enterLoop]
  exact ⟨h.rest.log, h.rest.deferred, hb' ▸ hb, hb' ▸ he⟩

theorem leaveLoop_yields {P : Set Nat} {exit : Nat} {always : Bool} (h : InLoop run ctx b σ σ') (hc : ¬σ'.isOpen)
    (hp : Filling P {exit} σ'.graph) (hP : P = σ.graph.pending) :
    Yields (σ'.leaveLoop σ.loop exit always) (Lowered run ctx (!always || b) false σ) := by
  have hm : exit ∈ ({exit} : Set Nat) := rfl
  have ho : (σ'.select exit).isOpen := isOpen_select (hp.mem hm)
  let exitState : LowerState := { σ'.select exit with loop := σ.loop }
  refine (@setUnreachableIf_yields exitState _ ho).mono fun σ₁ h₁ => ?_
  have hp₁ : σ₁.graph.pending = σ.graph.pending := by
    refine h₁.pending.trans (((hp.select hc hm).pending_eq fun b => ?_).trans hP)
    simp
  have hr₁ : Rest run ctx false σ σ₁ :=
    ⟨h.log.trans h₁.log, ⟨false, h₁.loop.trans Rest.map_breakIf_false.symm, id, fun _ => rfl⟩,
      h₁.deferred ▸ h.deferred⟩
  refine ⟨hp₁, hr₁, fun ho₁ => ?_, fun ht he => ?_⟩
  case refine_1 =>
    have hb := h.hasBreak
    rw [h₁.isOpen] at ho₁
    cases always <;> simp_all
  case refine_2 =>
    rw [h₁.isOpen, h.hasBreak_eq ht]
    cases always <;> simp_all

theorem loop {n : ν} {c : Expression} (hs : Sound run ctx.inLoop s) : Sound run ctx (.while n c s) := by
  intro σ ho hf
  have hb := Filling.addBlocks (n := 3) ho
  refine (onGraph_yields (setTerminator_yields (isOpen_addBlocks ho))).bind fun σ₁ ⟨g₁, hg₁, hσ₁⟩ => ?_
  subst hσ₁
  have hb := hb.congr hg₁.pending
  have hm : σ.graph.next ∈ { b | σ.graph.next ≤ b ∧ b < σ.graph.next + 3 } := by
    simp only [Set.mem_ofPred_eq]
    omega
  have ho₁ : (g₁.select σ.graph.next).isOpen := isOpen_select (hb.mem hm)
  refine (onGraph_yields (lowerLoopCondition_yields ho₁)).bind fun σ₂ ⟨g₂, hg₂, hσ₂⟩ => ?_
  subst hσ₂
  have hb := (hb.select hg₁.closed hm).congr hg₂.pending
  have hm : σ.graph.next + 1 ∈ { b | σ.graph.next ≤ b ∧ b < σ.graph.next + 3 } \ {σ.graph.next} := by
    simp only [Set.mem_sdiff, Set.mem_ofPred_eq, Set.mem_singleton_iff]
    omega
  refine (body (g := g₂) hs hf (isOpen_select (hb.mem hm))).bind fun σ₃ ⟨hp₃, h₃⟩ => ?_
  refine fallTo_yields.bind fun σ₄ h₄ => ?_
  have hb := (hb.select hg₂.closed hm).congr (h₄.pending.trans hp₃)
  have hs : ({ b | σ.graph.next ≤ b ∧ b < σ.graph.next + 3 } \ {σ.graph.next}) \ {σ.graph.next + 1} =
      {σ.graph.next + 2} := by
    ext b
    simp only [Set.mem_sdiff, Set.mem_ofPred_eq, Set.mem_singleton_iff]
    omega
  have h₄' := h₃.quiet h₄.toQuiet
  refine (leaveLoop_yields h₄' (Bool.eq_false_iff.mp h₄.isOpen) (hs ▸ hb) rfl).bind fun σ₅ h₅ => ?_
  exact .ok (h₅.record rfl)

theorem steps {n : ν} {c : Option Expression} {post : Option Action} (hs : Sound run ctx.inLoop s) :
    Sound run ctx (.for n c post s) := by
  intro σ ho hf
  have hb := Filling.addBlocks (n := 4) ho
  refine (onGraph_yields (setTerminator_yields (isOpen_addBlocks ho))).bind fun σ₁ ⟨g₁, hg₁, hσ₁⟩ => ?_
  subst hσ₁
  have hb := hb.congr hg₁.pending
  have hm : σ.graph.next ∈ { b | σ.graph.next ≤ b ∧ b < σ.graph.next + 4 } := by
    simp only [Set.mem_ofPred_eq]
    omega
  have ho₁ : (g₁.select σ.graph.next).isOpen := isOpen_select (hb.mem hm)
  refine (onGraph_yields (lowerLoopCondition_yields ho₁)).bind fun σ₂ ⟨g₂, hg₂, hσ₂⟩ => ?_
  subst hσ₂
  have hb := (hb.select hg₁.closed hm).congr hg₂.pending
  have hm : σ.graph.next + 1 ∈ { b | σ.graph.next ≤ b ∧ b < σ.graph.next + 4 } \ {σ.graph.next} := by
    simp only [Set.mem_sdiff, Set.mem_ofPred_eq, Set.mem_singleton_iff]
    omega
  refine (body (g := g₂) hs hf (isOpen_select (hb.mem hm))).bind fun σ₃ ⟨hp₃, h₃⟩ => ?_
  refine fallTo_yields.bind fun σ₄ h₄ => ?_
  have hb := (hb.select hg₂.closed hm).congr (h₄.pending.trans hp₃)
  have hm : σ.graph.next + 2 ∈
      ({ b | σ.graph.next ≤ b ∧ b < σ.graph.next + 4 } \ {σ.graph.next}) \ {σ.graph.next + 1} := by
    simp only [Set.mem_sdiff, Set.mem_ofPred_eq, Set.mem_singleton_iff]
    omega
  have ho₄ : (σ₄.select (σ.graph.next + 2)).isOpen := isOpen_select (hb.mem hm)
  refine (onGraph_straight (lowerPost_yields ho₄)).bind fun σ₅ h₅ => ?_
  refine fallTo_yields.bind fun σ₆ h₆ => ?_
  have hb := (hb.select (Bool.eq_false_iff.mp h₄.isOpen) hm).congr (h₆.pending.trans h₅.pending)
  have hs : (({ b | σ.graph.next ≤ b ∧ b < σ.graph.next + 4 } \ {σ.graph.next}) \ {σ.graph.next + 1}) \
      {σ.graph.next + 2} = {σ.graph.next + 3} := by
    ext b
    simp only [Set.mem_sdiff, Set.mem_ofPred_eq, Set.mem_singleton_iff]
    omega
  have h₆' := ((h₃.quiet h₄.toQuiet).select (n := σ.graph.next + 2)).quiet (h₅.toQuiet.trans h₆.toQuiet)
  refine (leaveLoop_yields h₆' (Bool.eq_false_iff.mp h₆.isOpen) (hs ▸ hb) rfl).bind fun σ₇ h₇ => ?_
  exact .ok (h₇.record rfl)

theorem length_markCases : (markCases cs).length = cs.length := by
  induction cs
  case nil => rfl
  case cons hi => simp [markCases, hi]

theorem any_markCases : (markCases cs).any (·.1.isNone) = cs.any (·.1.isNone) := by
  induction cs
  case nil => rfl
  case cons hi => simp [markCases, hi]

theorem isExhaustive_of_default {type : SwitchType} (h : cs.any (·.1.isNone)) : isExhaustive type cs := by
  simp [isExhaustive, switchCaseValuesAreExhaustive, h]

-- The block behind the switch stays pending until all cases are lowered.
theorem cases {P : Set Nat} {merge block : Nat} (hs : ∀ p ∈ cs, p.2.WellPlaced ctx → Sound run ctx p.2)
    (hw : CasesWellPlaced ctx cs) (hc : ¬σ.isOpen) (hf : Fits run ctx σ) (hm : merge < block)
    (hb : Filling P { b | b = merge ∨ block ≤ b ∧ b < block + cs.length } σ.graph) :
    Yields (lowerCases run merge block (markCases cs) σ) fun r => ¬r.1.isOpen ∧ Filling P {merge} r.1.graph ∧
      Rest run ctx (breaksCase cs) σ r.1 ∧ (r.2 → completesCase cs) ∧
      (ctx.functionDepth = 0 → completesCase cs → r.2) := by
  induction cs generalizing σ block
  case nil =>
    refine .ok ⟨hc, ?_, .refl, nofun, nofun⟩
    have he : { b | b = merge ∨ block ≤ b ∧ b < block + 0 } = {merge} := by
      ext b
      simp only [Set.mem_ofPred_eq, Set.mem_singleton_iff]
      omega
    exact he ▸ hb
  case cons p cs hi =>
    obtain ⟨label, s⟩ := p
    rw [List.forall_mem_cons] at hs
    have hm' : block ∈ { b | b = merge ∨ block ≤ b ∧ b < block + (cs.length + 1) } := by
      simp only [Set.mem_ofPred_eq]
      omega
    refine (hs.1 hw.1 (σ.select block) (isOpen_select (hb.mem hm')) hf.graph).bind fun σ₁ h₁ => ?_
    refine fallTo_yields.bind fun σ₂ h₂ => ?_
    have hr₁ : Rest run ctx s.breaks σ σ₁ := h₁.rest.from_graph rfl
    have hr₂ : Rest run ctx s.breaks σ σ₂ := by simpa using hr₁.trans (.of_quiet h₂.toQuiet)
    have hb := (hb.select hc hm').congr (h₂.pending.trans h₁.pending)
    have he : { b | b = merge ∨ block ≤ b ∧ b < block + (cs.length + 1) } \ {block} =
        { b | b = merge ∨ block + 1 ≤ b ∧ b < block + 1 + cs.length } := by
      ext b
      simp only [Set.mem_sdiff, Set.mem_ofPred_eq, Set.mem_singleton_iff]
      omega
    refine (hi hs.2 hw.2 (Bool.eq_false_iff.mp h₂.isOpen) (hr₂.fits hf) (Nat.lt_succ_of_lt hm) (he ▸ hb)).bind ?_
    intro ⟨σ₃, continuing⟩ ⟨hc₃, hb₃, hr₃, hc, hc'⟩
    refine .ok ⟨hc₃, hb₃, hr₂.trans hr₃, fun h => ?_, fun ht h => ?_⟩
    case refine_1 =>
      simp only [completesCase, Bool.or_eq_true] at h ⊢
      exact h.imp h₁.completes hc
    case refine_2 =>
      simp only [completesCase, Bool.or_eq_true] at h ⊢
      exact h.imp (h₁.isOpen ht) (hc' ht)

theorem setUnmatched_yields {P S : Set Nat} {n : Nat} (hc : ¬σ.isOpen) (hb : Filling P S σ.graph)
    (hn : b → n ∈ S) : Yields (σ.setUnmatched n b) fun σ' => ∃ g, σ' = { σ with graph := g } ∧ ¬g.isOpen ∧
      Filling P (if b then S \ {n} else S) g := by
  unfold LowerState.setUnmatched
  cases b
  case false => exact .ok ⟨σ.graph, rfl, hc, hb⟩
  case true =>
    have ho : (σ.graph.select n).isOpen := isOpen_select (hb.mem (hn rfl))
    refine (onGraph_yields (setTerminator_yields ho)).mono fun σ₁ ⟨g, hg, hσ₁⟩ => ?_
    exact ⟨g, hσ₁, hg.closed, (hb.select hc (hn rfl)).congr hg.pending⟩

theorem switch {n : ν} {selector : Expression} {type : SwitchType}
    (hs : ∀ p ∈ cs, p.2.WellPlaced ctx → Sound run ctx p.2) (hw : CasesWellPlaced ctx cs) :
    Sound run ctx (.switch n selector type cs) := by
  intro σ ho hf
  simp only [mark, lowerStatement, length_markCases, any_markCases]
  refine (onGraph_straight (lowerExpression_yields ho)).bind fun σ₁ h₁ => ?_
  refine (onGraph_straight (checkOpen_yields h₁.isOpen)).bind fun σ₂ h₂ => ?_
  have h₂ := h₂.after h₁.toQuiet
  have hr₂ : Rest run ctx false σ σ₂ := .of_quiet h₂.toQuiet
  generalize hu : (!cs.any (·.1.isNone) && (facts (.switch n selector type cs)).isExhaustive) = needed
  have hb := Filling.addBlocks (n := 1 + cs.length + if needed then 1 else 0) h₂.isOpen
  refine (onGraph_yields (setTerminator_yields (isOpen_addBlocks h₂.isOpen))).bind fun σ₃ ⟨g₃, hg₃, hσ₃⟩ => ?_
  subst hσ₃
  have hb := hb.congr hg₃.pending
  let switched : LowerState := { σ₂ with graph := g₃ }
  refine (@setUnmatched_yields switched _ _ _ _ hg₃.closed hb fun hn => ?_).bind fun σ₄ ⟨g₄, hσ₄, hc₄, hb₄⟩ => ?_
  case refine_1 =>
    simp only [hn, if_true, Set.mem_ofPred_eq]
    omega
  subst hσ₄
  have he : (if needed then { b | σ₂.graph.next ≤ b ∧ b < σ₂.graph.next + (1 + cs.length + if needed then 1 else 0) } \
      {σ₂.graph.next + 1 + cs.length} else
      { b | σ₂.graph.next ≤ b ∧ b < σ₂.graph.next + (1 + cs.length + if needed then 1 else 0) }) =
      { b | b = σ₂.graph.next ∨ σ₂.graph.next + 1 ≤ b ∧ b < σ₂.graph.next + 1 + cs.length } := by
    ext b
    cases needed <;>
    · simp only [if_true, if_false, Bool.false_eq_true, Set.mem_sdiff, Set.mem_ofPred_eq, Set.mem_singleton_iff]
      omega
  let unmatched : LowerState := { σ₂ with graph := g₄ }
  have hf₄ : Fits run ctx unmatched := (hr₂.fits hf).graph
  refine (@cases _ _ _ unmatched _ _ _ _ hs hw hc₄ hf₄ (Nat.lt_succ_self _) (he ▸ hb₄)).bind ?_
  intro ⟨σ₅, continuing⟩ ⟨hc₅, hb₅, hr₅, hk, hk'⟩
  have ho₅ : (σ₅.select σ₂.graph.next).isOpen := isOpen_select (hb₅.mem rfl)
  have hp₅ : (σ₅.select σ₂.graph.next).graph.pending = σ.graph.pending := by
    refine ((hb₅.select hc₅ rfl).pending_eq fun b => ?_).trans h₂.pending
    simp
  refine (setUnreachableIf_yields ho₅).bind fun σ₆ h₆ => ?_
  have hr₆ : Rest run ctx (breaksCase cs) σ σ₆ := by
    have hr₅ : Rest run ctx (breaksCase cs) σ₂ σ₅ := hr₅.from_graph rfl
    have hr₆ : Rest run ctx false σ₅ σ₆ := (Rest.of_quiet h₆.toQuiet).from_graph rfl
    simpa using hr₂.trans (hr₅.trans hr₆)
  have hd : (!cs.any (·.1.isNone) && !(facts (.switch n selector type cs)).isExhaustive) = !isExhaustive type cs := by
    change (!cs.any (·.1.isNone) && !isExhaustive type cs) = _
    cases hd : cs.any (·.1.isNone)
    case false => rfl
    case true  => rw [isExhaustive_of_default hd, Bool.not_true, Bool.and_false]
  have ho₆ : σ₆.isOpen = (continuing || !isExhaustive type cs) := by
    rw [h₆.isOpen, hd, Bool.not_not]
  refine .ok (Lowered.record (b := !isExhaustive type cs || completesCase cs) ⟨h₆.pending.trans hp₅, hr₆, ?_, ?_⟩ rfl)
  case refine_1 =>
    rw [ho₆, Bool.or_comm]
    simp only [Bool.or_eq_true]
    exact Or.imp_right hk
  case refine_2 =>
    rw [ho₆, Bool.or_comm continuing]
    simp only [Bool.or_eq_true]
    exact fun ht => Or.imp_right (hk' ht)

end Sound

-- What a deferred statement needs to be lowered later.
def RunsDeferred (ν : Type) (run : Statement Facts → LowerState → Except String LowerState) : Prop :=
  ∀ (ctx : Context) (d : Statement ν), 0 < ctx.functionDepth → 0 < ctx.deferDepth → d.WellPlaced ctx →
    Runnable run d.mark

theorem sound (hr : ctx.deferDepth = 0 → RunsDeferred ν run) (hw : s.WellPlaced ctx) : Sound run ctx s := by
  induction s using Statement.ind generalizing ctx
  case absent => exact .absent
  case declaration => exact .declaration
  case vars => exact .vars
  case action => exact .action
  case asm => exact .asm
  case ret => exact .ret hw
  case defer d hd => exact .defer hw (hr hw.2.1 ctx.inDefer d hw.1 (Nat.succ_pos _) hw.2.2)
  case block hs => exact .block (fun s hm hw => hs s hm hr hw) hw
  case cond ht he => exact .cond (ht hr hw.1) (he hr hw.2)
  case compileIf ht he => exact .compileIf hw (ht hr) (he hr)
  case loop hs => exact .loop (hs hr hw)
  case steps hs => exact .steps (hs hr hw)
  case leave => exact .leave hw
  case next => exact .next hw
  case switch hs => exact .switch (fun p hm hw => hs p hm hr hw) hw.2

-- A deferred statement only needs to know how to lower its own parts.
theorem runsDeferred_lowerStatement : RunsDeferred ν (lowerStatement run) := by
  intro ctx d hf hd hw σ ho
  have hz : ctx.deferDepth ≠ 0 := Nat.ne_of_gt hd
  have hfits : Fits run ctx σ := ⟨fun h => absurd h hz, fun h => absurd h hz, fun h => absurd h (Nat.ne_of_gt hf)⟩
  refine (sound (fun h => absurd h hz) hw σ ho hfits).mono fun σ' h => ⟨h.pending, ?_, ?_, h.rest.log⟩
  case refine_1 =>
    obtain ⟨b, hl, hb, -⟩ := h.rest.loop
    have hb : b = false := Bool.eq_false_iff.mpr fun h => Bool.noConfusion ((breaks_eq_false hw hd).symm.trans (hb h))
    rw [hl, hb, Rest.map_breakIf_false]
  case refine_2 =>
    obtain ⟨new, hn, -, hd⟩ := h.rest.deferred
    have : new = [] := by
      by_contra hne
      exact hz (hd hne).2
    rw [hn, this, List.nil_append]

theorem runsDeferred_lower {depth : Nat} : RunsDeferred ν (lower (depth + 1)) :=
  runsDeferred_lowerStatement

end Coglet.Control
