import Coglet.Control.TraceRules
import Mathlib.Tactic.Abel

open scoped Computability Matrix

namespace Coglet.Control

open Outcome BlockBuilder Graph Behaviour Statement

variable {run : Statement Facts → LowerState → Except String LowerState} {ctx : Context} {ν : Type}
variable {σ σ' σ₁ σ₂ σ₃ : LowerState} {s t e : Statement ν} {ss : List (Statement ν)} {n : ν} {note : Facts}
variable {cs : List (Option Key × Statement ν)} {new old : List (Statement Facts)} {l : Language Event} {r : Behaviour}

-- The state in which a statement of the context is lowered.
structure Ready (run : Statement Facts → LowerState → Except String LowerState) (ctx : Context) (σ : LowerState) :
    Prop where
  deferred : ctx.deferDepth = 0 → ∀ d ∈ σ.deferred, Undefers run d
  nested   : σ.Nested

-- The lowered code runs like the statement, which is deferred as well where it says so.
structure Lowers (s : Statement ν) (σ σ' : LowerState) : Prop where
  follows  : Follows s.runs σ σ σ'
  deferred : σ'.deferred = s.deferrals.map mark ++ σ.deferred

def Faithful (run : Statement Facts → LowerState → Except String LowerState) (ctx : Context) (s : Statement ν) : Prop :=
  ∀ σ : LowerState, σ.isOpen → Ready run ctx σ → Ensures (lowerStatement run s.mark σ) (Lowers s σ)

theorem Lowers.record (h : Lowers s σ σ') : Lowers s σ (σ'.record note) :=
  ⟨⟨h.follows.grows, h.follows.loop, h.follows.closed, h.follows.tail⟩, h.deferred⟩

theorem Lowers.of_does (h : Does l σ σ') (hr : s.runs = ends .normal l) (hd : s.deferrals = []) : Lowers s σ σ' :=
  ⟨hr ▸ h.follows, by rw [hd]; exact h.deferred⟩

theorem Ready.of_eq (h : Ready run ctx σ) {b : Bool} (hl : σ'.loop = σ.loop.map (·.breakIf b))
    (hd : σ'.deferred = σ.deferred) : Ready run ctx σ' where
  deferred hz := hd ▸ h.deferred hz
  nested      := h.nested.mono ⟨b, hl⟩ (congrArg List.length hd).ge

-- The lowering of a branch from the fresh block `b` on, which goes on in the block `merge` where it ends. The blocks
-- of the graph `g` were there before the fresh ones.
structure Branch (r : Behaviour) (g : Graph) (b merge : Nat) (σ σ' : LowerState) : Prop where
  grows    : Grows g σ'.graph
  within   : Within σ.graph.blocks σ'.graph.blocks
  fresh    : ∀ b' ≠ b, Fresh σ.graph b' → Fresh σ'.graph b'
  loop     : ∃ b, σ'.loop = σ.loop.map (·.breakIf b) ∧ (b = false → r .break = 0)
  deferred : σ'.deferred = σ.deferred
  upTo (blocks : Blocks) : Within σ'.graph.blocks blocks → Unfolds (fun n => events.upTo blocks n b) fun n =>
    r ⬝ᵥ σ.after (events.upTo blocks n) (events.upTo blocks n merge)

theorem Ready.enterLoop {g : Graph} {exit nxt : Nat} (h : Ready run ctx σ) :
    Ready run ctx.inLoop (LowerState.enterLoop { σ with graph := g } exit nxt) where
  deferred      := h.deferred
  nested _ hm   := Option.some.inj hm ▸ Nat.le_refl _

-- What a deferred statement needs to be run later.
def RunsUndeferred (ν : Type) (run : Statement Facts → LowerState → Except String LowerState) : Prop :=
  ∀ (ctx : Context) (d : Statement ν), 0 < ctx.functionDepth → 0 < ctx.deferDepth → d.WellPlaced ctx → d.Scoped →
    Undefers run d.mark

theorem undefers_of_mem (hu : ctx.deferDepth = 0 → RunsUndeferred ν run) (hw : s.WellPlaced ctx) (hs : s.Scoped)
    {d : Statement Facts} (hd : d ∈ s.deferrals.map mark) : Undefers run d := by
  obtain ⟨d', hd', rfl⟩ := List.mem_map.mp hd
  obtain ⟨hf, hz, hw'⟩ := wellPlaced_of_mem_deferrals hw hd'
  exact hu hz ctx.inDefer d' hf (Nat.succ_pos _) hw' (scoped_of_mem_deferrals hs hd')

theorem Lowers.ready (h : Lowers s σ σ') (hu : ctx.deferDepth = 0 → RunsUndeferred ν run) (hw : s.WellPlaced ctx)
    (hs : s.Scoped) (hr : Ready run ctx σ) : Ready run ctx σ' where
  deferred hz d hd := by
    rw [h.deferred, List.mem_append] at hd
    exact hd.elim (undefers_of_mem hu hw hs) (hr.deferred hz d)
  nested := by
    obtain ⟨b, hl, -⟩ := h.follows.loop
    refine hr.nested.mono ⟨b, hl⟩ ?_
    rw [h.deferred, List.length_append]
    exact Nat.le_add_left ..

namespace Faithful

theorem absent : Faithful run ctx (.absent : Statement ν) :=
  fun _ ho _ => .ok (.of_does (.refl ho) rfl rfl)

theorem declaration : Faithful run ctx (.declaration n) :=
  fun _ ho _ => .ok (Lowers.of_does (.refl ho) rfl rfl).record

theorem vars {ds : List Declaration} : Faithful run ctx (.variables n ds) :=
  fun _ ho _ => (onGraph_does lowerVariableDeclarations_ensures ho).bind fun _ h =>
    .ok (Lowers.of_does h.1 rfl rfl).record

theorem action {a : Action} : Faithful run ctx (.action n a) :=
  fun _ ho _ => (onGraph_does lowerStatementExpression_ensures ho).bind fun _ h =>
    .ok (Lowers.of_does h.1 rfl rfl).record

theorem asm {l : Nat} {es : List Expression} : Faithful run ctx (.asm n l es) :=
  fun _ ho _ => (onGraph_does (lowerExpression_ensures (e := .operation l es)) ho).bind fun _ h =>
    .ok (Lowers.of_does h.1 rfl rfl).record

theorem ret {v : Option Expression} (hw : (Statement.return n v).WellPlaced ctx) :
    Faithful run ctx (.return n v) := by
  intro σ ho hr
  refine Ensures.bind (Q := Lowers (.return n v) σ) ?_ fun _ h => .ok h.record
  refine (onGraph_does lowerReturnValue_ensures ho).bind fun σ₁ h => ?_
  obtain ⟨h₁, ho₁⟩ := h
  have hn₁ : σ₁.Nested := hr.nested.mono h₁.loop (congrArg List.length h₁.deferred).ge
  refine (runDeferredFrom_does (h₁.deferred ▸ hr.deferred hw.1) ho₁ hn₁).bind fun σ₂ h₂ => ?_
  refine ((h₁.trans h₂).close setTerminator_ensures).mono fun σ₃ h₃ => ⟨h₃.follows nofun nofun fun _ => ?_, h₃.deferred⟩
  simp [LowerState.jump, h₁.deferred]

theorem leave (hw : (Statement.break n).WellPlaced ctx) : Faithful run ctx (.break n) := by
  intro σ ho hr
  refine Ensures.bind (Q := Lowers (.break n) σ) ?_ fun _ h => .ok h.record
  unfold lowerBreakStatement
  cases hl : σ.loop
  case none => exact .error
  case some loop =>
    have hd : ∀ d ∈ σ.markBreak.deferred, Undefers run d := hr.deferred hw.1
    have hl' : σ.markBreak.loop = σ.loop.map (·.breakIf true) := by
      simp [LowerState.markBreak, LoopContext.breakIf]
    have hn : σ.markBreak.Nested := hr.nested.mono ⟨true, hl'⟩ (Nat.le_refl _)
    refine (runDeferredFrom_does hd ho hn).bind fun σ₂ h₂ => ?_
    refine (h₂.close setBranch_ensures).mono fun σ₃ h₃ => ⟨⟨h₃.leaves.grows, ⟨true, ?_, fun h => Bool.noConfusion h⟩, ?_, ?_⟩, h₃.deferred⟩
    case refine_1 =>
      obtain ⟨b, hb⟩ := h₃.loop
      simp [hb, LowerState.markBreak, LoopContext.breakIf, hl]
    case refine_2 => exact fun _ => ends_of_ne (by decide)
    case refine_3 =>
      intro blocks hw
      refine (h₃.leaves.tail blocks hw).trans (.of_eq (funext fun n => ?_))
      simp [runs, after_of_ne, LowerState.jump, hl, LowerState.markBreak]

theorem next (hw : (Statement.continue n).WellPlaced ctx) : Faithful run ctx (.continue n) := by
  intro σ ho hr
  refine Ensures.bind (Q := Lowers (.continue n) σ) ?_ fun _ h => .ok h.record
  unfold lowerContinueStatement
  cases hl : σ.loop
  case none => exact .error
  case some loop =>
    refine (runDeferredFrom_does (hr.deferred hw.1) ho hr.nested).bind fun σ₂ h₂ => ?_
    refine (h₂.close setBranch_ensures).mono fun σ₃ h₃ => ⟨h₃.follows nofun nofun fun _ => ?_, h₃.deferred⟩
    simp [LowerState.jump, hl]

theorem defer {d : Statement ν} : Faithful run ctx (.defer n d) := by
  intro σ ho _
  have hl : σ.loop = σ.loop.map (·.breakIf false) := Rest.map_breakIf_false.symm
  refine .ok ⟨⟨.refl, ⟨false, hl, fun _ => ends_of_ne nofun⟩, absurd ho, fun blocks _ => ?_⟩, rfl⟩
  refine .of_eq (funext fun n => ?_)
  simp only [runs, ends_dotProduct, after_normal, one_mul]
  rfl

theorem undeferred_deferrals : undeferred (s.deferrals.map mark) = s.deferral := by
  rw [deferral_eq, undeferred, List.map_map]
  exact congrArg _ (List.map_congr_left fun d _ => congrFun runs_mark.1 _)

theorem jump_append (hd : σ.deferred = new ++ old) (hn : LowerState.Nested { σ with deferred := old })
    (next : Nat → Language Event) {o : Ending} (ho : o ≠ .normal) :
    σ.jump next o = undeferred new * LowerState.jump { σ with deferred := old } next o := by
  cases o
  case normal => exact absurd rfl ho
  case «return» => exact (congrArg undeferred hd).trans undeferred_append
  all_goals
    simp only [LowerState.jump]
    cases hl : σ.loop
    case none => exact (mul_zero _).symm
    case some loop =>
      have hb : (new ++ old).length - loop.deferBase = new.length + (old.length - loop.deferBase) := by
        rw [List.length_append, Nat.add_sub_assoc (hn loop hl)]
      simp only [Option.elim_some, hd, hb, List.take_length_add_append, undeferred_append, mul_assoc]

theorem statements (hs : ∀ s ∈ ss, s.WellPlaced ctx → s.Scoped → Faithful run ctx s) (hw : AllWellPlaced ctx ss)
    (hc : AllScoped ss) (hu : ctx.deferDepth = 0 → RunsUndeferred ν run) (ho : σ.isOpen) (hr : Ready run ctx σ)
    (hd : σ.deferred = new ++ old) (hn : ∀ d ∈ new, Undefers run d)
    (hl : LowerState.Nested { σ with deferred := old }) :
    Ensures (lowerStatements run (markAll ss) σ) fun σ₁ => Ensures (leaveScope run old.length σ₁) fun σ₂ =>
      Follows (runsAll ss (undeferred new)) { σ with deferred := old } σ σ₂ ∧ ∃ new, σ₂.deferred = new ++ old := by
  induction ss generalizing σ new
  case nil =>
    refine .ok ?_
    rw [leaveScope, if_pos ho, runDeferredFrom, hd, List.length_append, Nat.add_sub_cancel, List.take_left]
    exact (runDeferred_does hn ho hr.nested).mono fun σ₁ h₁ => ⟨h₁.follows, new, h₁.deferred.trans hd⟩
  case cons s ss hi =>
    rw [List.forall_mem_cons] at hs
    rw [markAll, lowerStatements, if_pos ho]
    refine (hs.1 hw.1 hc.1 σ ho hr).bind fun σ₁ h₁ => ?_
    have hj (next : Nat → Language Event) (o : Ending) (ho : o ≠ .normal) := jump_append hd hl next ho
    by_cases ho₁ : σ₁.isOpen
    case pos =>
      have hd₁ : σ₁.deferred = (s.deferrals.map mark ++ new) ++ old := by rw [h₁.deferred, hd, List.append_assoc]
      have hn₁ : ∀ d ∈ s.deferrals.map mark ++ new, Undefers run d := fun d hd =>
        (List.mem_append.mp hd).elim (undefers_of_mem hu hw.1 hc.1) (hn d)
      obtain ⟨b, hb, -⟩ := h₁.follows.loop
      have hl₁ : LowerState.Nested { σ₁ with deferred := old } := hl.mono ⟨b, hb⟩ (Nat.le_refl _)
      refine (hi hs.2 hw.2.2 hc.2 ho₁ (h₁.ready hu hw.1 hc.1 hr) hd₁ hn₁ hl₁).mono fun σ₂ h₂ => ?_
      refine h₂.mono fun σ₃ h₃ => ⟨?_, h₃.2⟩
      rw [undeferred_append, undeferred_deferrals] at h₃
      exact h₁.follows.seq (h₃.1.congr fun _ => Eq.symm (jump_congr hb rfl)) hj
    case neg =>
      have hs₁ : lowerStatements run (markAll ss) σ₁ = .ok σ₁ := by
        cases ss
        case nil => rfl
        case cons => rw [markAll, lowerStatements, if_neg ho₁]
      refine hs₁ ▸ .ok ?_
      rw [leaveScope, if_neg ho₁]
      refine .ok ⟨h₁.follows.stop ho₁ hj, s.deferrals.map mark ++ new, ?_⟩
      rw [h₁.deferred, hd, List.append_assoc]

theorem block (hs : ∀ s ∈ ss, s.WellPlaced ctx → s.Scoped → Faithful run ctx s) (hw : AllWellPlaced ctx ss)
    (hc : AllScoped ss) (hu : ctx.deferDepth = 0 → RunsUndeferred ν run) : Faithful run ctx (.block n ss) := by
  intro σ ho hr
  refine (statements hs hw hc hu ho hr (List.nil_append σ.deferred).symm nofun hr.nested).bind fun σ₁ h₁ => ?_
  refine h₁.bind fun σ₂ h₂ => ?_
  obtain ⟨h₂, new, hd₂⟩ := h₂
  refine .ok ⟨⟨h₂.grows, h₂.loop, h₂.closed, h₂.tail⟩, ?_⟩
  simp [LowerState.record, LowerState.truncateDefers, hd₂, deferrals]

theorem compileIf {c : Expression} (hw : (Statement.compileIf n c t e).WellPlaced ctx)
    (hs : (Statement.compileIf n c t e).Scoped) (ht : t.WellPlaced ctx → t.Scoped → Faithful run ctx t)
    (he : e.WellPlaced ctx → e.Scoped → Faithful run ctx e) : Faithful run ctx (.compileIf n c t e) := by
  intro σ ho hr
  obtain ⟨rfl, hw⟩ | ⟨rfl, hw⟩ := wellPlaced_compileIf hw
  case inl => exact (ht hw hs σ ho hr).bind fun _ h => .ok ⟨h.record.follows, h.deferred⟩
  case inr =>
    by_cases ha : e.isAbsent
    case pos =>
      cases eq_absent ha
      exact .ok (Lowers.of_does (.refl ho) rfl rfl).record
    case neg =>
      have hs' : compileTimeSelection (.constant (.boolean false)) e = 2 := by
        simp [compileTimeSelection, Expression.constBoolValue, ha]
      simp only [mark, lowerStatement, Expression.constBoolValue, facts, hs']
      exact (he hw hs σ ho hr).bind fun _ h => .ok ⟨h.record.follows, h.deferred⟩

theorem branch {g : Graph} {b : Nat} (hs : Faithful run ctx s) (hd : s.deferrals = []) (hr : Ready run ctx σ)
    (hg : Grows g σ.graph) (hb : g.next ≤ b) (hf : Fresh σ.graph b) :
    Ensures (lowerStatement run s.mark (σ.select b)) fun σ₁ => (¬σ₁.isOpen → s.runs .normal = 0) ∧
      ∀ merge, Ensures (σ₁.fallTo merge) (Branch s.runs g b merge σ) := by
  refine (hs (σ.select b) hf.isOpen_select ⟨hr.deferred, hr.nested⟩).mono fun σ₁ h₁ => ?_
  refine ⟨h₁.follows.closed, fun merge => ?_⟩
  refine h₁.follows.fallTo.mono fun σ₂ h => ?_
  obtain ⟨g', hσ, hg'⟩ := h
  subst hσ
  have hd₁ : σ₁.deferred = σ.deferred := by rw [h₁.deferred, hd]; rfl
  refine ⟨(hg.select hb hf.lt_next).trans hg'.grows, hg'.grows.of_select, fun b' hn hf' => ?_, h₁.follows.loop, hd₁, ?_⟩
  case refine_1 => exact hg'.grows.fresh (hf'.select hf.lt_next hn)
  case refine_2 => exact fun blocks hw => hg'.upTo hf hw

theorem test_unfolds {a : Language Event} {f x y : Nat → Language Event} {r₁ r₂ : Behaviour}
    {k : Nat → Ending → Language Event}
    (h : Unfolds f fun n => a * 1 * (happens (.test true) * x n + happens (.test false) * y n))
    (hx : Unfolds x fun n => r₁ ⬝ᵥ k n) (hy : Unfolds y fun n => r₂ ⬝ᵥ k n) :
    Unfolds f fun n => (a • (happens (.test true) • r₁ + happens (.test false) • r₂)) ⬝ᵥ k n := by
  refine h.trans ((hx.mul.add hy.mul).mul.trans (.of_eq (funext fun n => ?_)))
  rw [mul_one, smul_dotProduct_eq, add_dotProduct, smul_dotProduct_eq, smul_dotProduct_eq]

theorem cond {c : Expression} (ht : Faithful run ctx t) (he : Faithful run ctx e) (hdt : t.deferrals = [])
    (hde : e.deferrals = []) : Faithful run ctx (.if n c t e) := by
  intro σ ho hr
  simp only [mark, lowerStatement, Sound.isAbsent_mark]
  refine (onGraph_ensures lowerExpression_ensures).bind fun _ h => ?_
  obtain ⟨g₁, h₁, hσ⟩ := h
  subst hσ
  refine (onGraph_ensures checkOpen_ensures).bind fun _ h => ?_
  obtain ⟨g₁, hg, hσ⟩ := h
  subst hσ hg
  refine (onGraph_ensures setCondBranch_ensures).bind fun _ h => ?_
  obtain ⟨g₂, h₂, hσ⟩ := h
  subst hσ
  have hf (b : Nat) (hb : g₁.next ≤ b) (hn : b < g₁.next + if e.isAbsent then 2 else 3) : Fresh g₂ b :=
    h₂.grows.fresh (fresh_addBlocks hb hn)
  have h₂ := (h₁.trans .addBlocks).leaves h₂
  have hn := h₁.grows.next_le
  have hr₂ : Ready run ctx { σ with graph := g₂ } := ⟨hr.deferred, hr.nested⟩
  have hft := hf g₁.next (Nat.le_refl _) (by split <;> omega)
  refine (branch ht hdt hr₂ h₂.grows hn hft).bind fun σ₃ h => ?_
  obtain ⟨hc₃, h₃⟩ := h
  refine (h₃ (g₁.next + 1)).bind fun σ₄ h₄ => ?_
  obtain ⟨b₄, hl₄, hb₄⟩ := h₄.loop
  have hm₄ := h₄.fresh (g₁.next + 1) (by omega) (hf _ (by omega) (by split <;> omega))
  by_cases ha : e.isAbsent
  case pos =>
    cases eq_absent ha
    have hg := h₄.grows.select (Nat.le_succ_of_le hn) hm₄.lt_next
    refine .ok (Lowers.record ⟨⟨hg, ⟨b₄, hl₄, fun hb => ?_⟩, absurd hm₄.isOpen_select, ?_⟩, h₄.deferred⟩)
    case refine_1 => simp [runs, hb₄ hb, ends_of_ne]
    case refine_2 =>
      intro blocks hw
      have hw : Within σ₄.graph.blocks blocks := blocks_select (g := σ₄.graph) ▸ hw
      have hm := upTo_of_fresh blocks hm₄
      refine test_unfolds (h₂.tail blocks (h₄.within.trans hw)) ((h₄.upTo blocks hw).trans (unfolds_after hm)) ?_
      exact hm.trans (.of_eq (by simp [runs, after_normal, LowerState.select]))
  case neg =>
    simp only [if_neg ha] at h₂ ⊢
    have hfe := h₄.fresh (g₁.next + 2) (by omega) (hf _ (by omega) (by rw [if_neg ha]; omega))
    have hr₄ : Ready run ctx σ₄ := hr₂.of_eq hl₄ h₄.deferred
    refine (branch he hde hr₄ h₄.grows (Nat.le_add_right_of_le hn) hfe).bind fun σ₅ h => ?_
    obtain ⟨hc₅, h₅⟩ := h
    refine (h₅ (g₁.next + 1)).bind fun σ₆ h₆ => ?_
    obtain ⟨b₆, hl₆, hb₆⟩ := h₆.loop
    have hm₆ := h₆.fresh (g₁.next + 1) (by omega) hm₄
    have hj (next : Nat → Language Event) (l : Language Event) : σ₄.after next l = σ.after next l := by
      rw [LowerState.after, jump_congr hl₄ h₄.deferred]
      rfl
    have h₇ : Follows (Statement.if n c t e).runs σ σ (σ₆.select (g₁.next + 1)) := by
      have hg := h₆.grows.select (Nat.le_succ_of_le hn) hm₆.lt_next
      refine ⟨hg, ⟨b₄ || b₆, ?_, fun hb => ?_⟩, absurd hm₆.isOpen_select, ?_⟩
      case refine_1 => exact hl₆.trans (hl₄ ▸ map_breakIf_map)
      case refine_2 =>
        obtain ⟨h₁, h₂⟩ := Bool.or_eq_false_iff.mp hb
        simp [runs, hb₄ h₁, hb₆ h₂]
      case refine_3 =>
        intro blocks hw
        have hw : Within σ₆.graph.blocks blocks := blocks_select (g := σ₆.graph) ▸ hw
        have hw₄ := h₆.within.trans hw
        have hm := upTo_of_fresh blocks hm₆
        refine test_unfolds (h₂.tail blocks (h₄.within.trans hw₄)) ((h₄.upTo blocks hw₄).trans (unfolds_after hm)) ?_
        have he := (h₆.upTo blocks hw).trans (unfolds_after hm)
        simp only [hj] at he
        exact he
    refine (h₇.unreachableIf fun h => ?_).bind fun σ₇ h₇ => .ok (Lowers.record ⟨h₇.1, ?_⟩)
    case refine_1 =>
      simp only [Bool.and_eq_true, Bool.not_eq_true', ← Bool.not_eq_true] at h
      simp [runs, hc₃ h.1, hc₅ h.2]
    case refine_2 => exact h₇.2.trans (h₆.deferred.trans h₄.deferred)

theorem exitsLoop_of_always {c : Option Expression} (h : alwaysTrue c) : exitsLoop c = 0 := by
  cases c
  case none => rfl
  case some c =>
    have hc : c.constBoolValue = some true := by simpa [alwaysTrue] using h
    simp [exitsLoop, hc]

theorem condition_unfolds {g g' : Graph} {b : Nat} {k : (Nat → Language Event) → Language Event} {blocks : Blocks}
    (h : Leaves k (g.select b) g') (hf : Fresh g b) (hw : Within g'.blocks blocks) :
    Unfolds (fun n => events.upTo blocks (n + 1) b) fun n => k (events.upTo blocks n) := by
  simp only [← tail_select hf]
  exact h.tail blocks hw

-- The condition `f` is followed by the body `x` and by the exit `e`, what comes after the body is `y`.
theorem loop_unfolds {f x y e k : Nat → Language Event} {enter exit post l : Language Event} (h₀ : f 0 = 0)
    (hk : Monotone k) (hf : Unfolds (fun n => f (n + 1)) fun n => enter * x n + exit * e n) (he : Unfolds e k)
    (hx : Unfolds x fun n => r .normal * y n + (r .break * e n + (r .continue * y n + r .return * l)))
    (hy : Unfolds y fun n => post * f n) : Unfolds f fun n => (enter * (r .normal + r .continue) * post)∗ *
      ((exit + enter * r .break) * k n + enter * r .return * l) := by
  refine .loop h₀ (fun m n h => add_le_add_left (mul_le_mul_right (hk h) _) _) (hf.trans ?_)
  have hx := hx.trans (hy.mul.add (he.mul.add (hy.mul.add .refl)))
  refine (hx.mul.add he.mul).trans (.of_eq (funext fun n => ?_))
  simp only [mul_add, add_mul, mul_assoc]
  abel

theorem dotProduct_enterLoop {exit nxt : Nat} {next : Nat → Language Event} {k : Language Event} :
    r ⬝ᵥ (σ.enterLoop exit nxt).after next k =
      r .normal * k + (r .break * next exit + (r .continue * next nxt + r .return * undeferred σ.deferred)) := by
  rw [dotProduct_eq, after_normal, after_of_ne (by decide), after_of_ne (by decide), after_of_ne (by decide)]
  simp [LowerState.jump, LowerState.enterLoop, undeferred]

theorem leaveLoop {c : Option Expression} {exit : Nat} (post : Language Event) (hg : Grows σ.graph σ'.graph)
    (hf : Fresh σ'.graph exit) (hn : σ.graph.next ≤ exit) (hd : σ'.deferred = σ.deferred)
    (hb : σ'.hasBreak = false → r .break = 0) (ht : ∀ blocks, Within σ'.graph.blocks blocks →
      Unfolds (tail events blocks σ.graph) fun n => (entersLoop c * (r .normal + r .continue) * post)∗ *
        ((exitsLoop c + entersLoop c * r .break) * tail events blocks (σ'.graph.select exit) n +
          entersLoop c * r .return * undeferred σ.deferred)) :
    Ensures (σ'.leaveLoop σ.loop exit (alwaysTrue c)) fun σ₁ =>
      Follows (Behaviour.loop (entersLoop c) (exitsLoop c) post r) σ σ σ₁ ∧ σ₁.deferred = σ.deferred := by
  have h : Follows (Behaviour.loop (entersLoop c) (exitsLoop c) post r) σ σ { σ'.select exit with loop := σ.loop } := by
    have hl : σ.loop = σ.loop.map (·.breakIf false) := Rest.map_breakIf_false.symm
    refine ⟨hg.select hn hf.lt_next, ⟨false, hl, fun _ => loop_break⟩, absurd hf.isOpen_select, fun blocks hw => ?_⟩
    have hw : Within σ'.graph.blocks blocks := blocks_select (g := σ'.graph) ▸ hw
    simp only [loop_dotProduct, after_normal, after_of_ne, ne_eq, reduceCtorEq, not_false_eq_true]
    exact ht blocks hw
  refine (h.unreachableIf fun hc => ?_).mono fun σ₁ h₁ => ⟨h₁.1, h₁.2.trans hd⟩
  rw [Bool.and_eq_true, Bool.not_eq_true'] at hc
  rw [loop_normal, exitsLoop_of_always hc.1, hb hc.2, mul_zero, add_zero, mul_zero]

theorem loop {c : Expression} (hs : Faithful run ctx.inLoop s) (hd : s.deferrals = []) :
    Faithful run ctx (.while n c s) := by
  intro σ ho hr
  refine (onGraph_ensures setBranch_ensures).bind fun _ h => ?_
  obtain ⟨g₁, h₁, hσ⟩ := h
  subst hσ
  refine (onGraph_ensures lowerLoopCondition_ensures).bind fun _ h => ?_
  obtain ⟨g₂, h₂, hσ⟩ := h
  subst hσ
  have hf (b : Nat) (hb : σ.graph.next ≤ b) (hn : b < σ.graph.next + 3) : Fresh g₁ b :=
    h₁.grows.fresh (fresh_addBlocks hb hn)
  have hc := hf σ.graph.next (Nat.le_refl _) (by omega)
  have hf₂ (b : Nat) (hb : σ.graph.next < b) (hn : b < σ.graph.next + 3) : Fresh g₂ b :=
    h₂.grows.fresh ((hf b (Nat.le_of_lt hb) hn).select hc.lt_next (by omega))
  have h₁ := Emits.addBlocks.leaves h₁
  have hg := (h₁.grows.select (Nat.le_refl _) hc.lt_next).trans h₂.grows
  refine (branch hs hd (hr.enterLoop) hg (Nat.le_succ _) (hf₂ _ (by omega) (by omega))).bind fun σ₃ h => ?_
  obtain ⟨_, h₃⟩ := h
  refine (h₃ σ.graph.next).bind fun σ₄ h₄ => ?_
  have hx := h₄.fresh (σ.graph.next + 2) (by omega) (hf₂ _ (by omega) (by omega))
  obtain ⟨b, hl, hb⟩ := h₄.loop
  have hb : σ₄.hasBreak = false → s.runs .break = 0 := by
    rw [LowerState.hasBreak, hl]
    exact hb
  refine (leaveLoop 1 h₄.grows hx (Nat.le_add_right ..) h₄.deferred hb fun blocks hw => ?_).bind fun σ₅ h₅ =>
    .ok (Lowers.record ⟨h₅.1, h₅.2⟩)
  have hw₂ := h₄.within.trans hw
  have hcond := condition_unfolds h₂ hc hw₂
  have hbody := (h₄.upTo blocks hw).trans (.of_eq (funext fun n => dotProduct_enterLoop))
  have hpost := Unfolds.of_eq (funext fun n => (one_mul (events.upTo blocks n σ.graph.next)).symm)
  refine (h₁.tail blocks (h₂.grows.of_select.trans hw₂)).trans (Unfolds.trans (.of_eq (funext fun n => one_mul _)) ?_)
  exact loop_unfolds rfl monotone_tail hcond (upTo_of_fresh blocks hx) hbody hpost

theorem steps {c : Option Expression} {post : Option Action} (hs : Faithful run ctx.inLoop s) (hd : s.deferrals = []) :
    Faithful run ctx (.for n c post s) := by
  intro σ ho hr
  refine (onGraph_ensures setBranch_ensures).bind fun _ h => ?_
  obtain ⟨g₁, h₁, hσ⟩ := h
  subst hσ
  refine (onGraph_ensures lowerLoopCondition_ensures).bind fun _ h => ?_
  obtain ⟨g₂, h₂, hσ⟩ := h
  subst hσ
  have hf (b : Nat) (hb : σ.graph.next ≤ b) (hn : b < σ.graph.next + 4) : Fresh g₁ b :=
    h₁.grows.fresh (fresh_addBlocks hb hn)
  have hc := hf σ.graph.next (Nat.le_refl _) (by omega)
  have hf₂ (b : Nat) (hb : σ.graph.next < b) (hn : b < σ.graph.next + 4) : Fresh g₂ b :=
    h₂.grows.fresh ((hf b (Nat.le_of_lt hb) hn).select hc.lt_next (by omega))
  have h₁ := Emits.addBlocks.leaves h₁
  have hg := (h₁.grows.select (Nat.le_refl _) hc.lt_next).trans h₂.grows
  refine (branch hs hd hr.enterLoop hg (Nat.le_succ _) (hf₂ _ (by omega) (by omega))).bind fun σ₃ h => ?_
  obtain ⟨_, h₃⟩ := h
  refine (h₃ (σ.graph.next + 2)).bind fun σ₄ h₄ => ?_
  have hp := h₄.fresh (σ.graph.next + 2) (by omega) (hf₂ _ (by omega) (by omega))
  have hx := (h₄.fresh (σ.graph.next + 3) (by omega) (hf₂ _ (by omega) (by omega))).select hp.lt_next (by omega)
  obtain ⟨b, hl, hb⟩ := h₄.loop
  have hb : σ₄.hasBreak = false → s.runs .break = 0 := by
    rw [LowerState.hasBreak, hl]
    exact hb
  refine (onGraph_ensures lowerPost_ensures).bind fun _ h => ?_
  obtain ⟨g₅, h₅, hσ⟩ := h
  subst hσ
  refine fallTo_ensures.bind fun _ h => ?_
  obtain ⟨g₆, hσ, h₆⟩ := h
  subst hσ
  have h₆ : Leaves (fun next => next σ.graph.next) g₅ g₆ := h₆.of_eq fun next => if_pos (h₅.isOpen hp.isOpen_select)
  have h₆ := h₅.leaves h₆
  have hx := h₆.grows.fresh hx
  have hg := (h₄.grows.select (Nat.le_add_right ..) hp.lt_next).trans h₆.grows
  let stepped : LowerState := { σ₄ with graph := g₆ }
  have hp₁ : σ.graph.next ≤ σ.graph.next + 3 := Nat.le_add_right ..
  refine (@leaveLoop _ stepped _ c _ (post.elim 1 Action.performs) hg hx hp₁ h₄.deferred hb fun blocks hw => ?_).bind
    fun σ₅ h₅ => .ok (Lowers.record ⟨h₅.1, h₅.2⟩)
  have hw₄ := h₆.grows.of_select.trans hw
  have hw₂ := h₄.within.trans hw₄
  have hcond := condition_unfolds h₂ hc hw₂
  have hbody := (h₄.upTo blocks hw₄).trans (.of_eq (funext fun n => dotProduct_enterLoop))
  have hpost := h₆.upTo hp hw
  refine (h₁.tail blocks (h₂.grows.of_select.trans hw₂)).trans (Unfolds.trans (.of_eq (funext fun n => one_mul _)) ?_)
  exact loop_unfolds rfl monotone_tail hcond (upTo_of_fresh blocks hx) hbody hpost

section Switch

variable {next : Nat → Language Event} {block otherwise i : Nat}

-- The edges to the blocks of the cases, which follow each other from `block`. Those that are not the default one are
-- counted from `i`.
def caseEdges (next : Nat → Language Event) : Nat → Nat → List (Option Key × Statement ν) → Language Event
  | _, _, []                    => 0
  | i, block, (some _, _) :: cs => happens (.choose (some i)) * next block + caseEdges next (i + 1) (block + 1) cs
  | i, block, (none, _) :: cs   => happens (.choose none) * next block + caseEdges next i (block + 1) cs

def labelEdges (next : Nat → Language Event) (i : Nat) (blocks : List Nat) : Language Event :=
  ((blocks.zipIdx i).map fun p => happens (.choose (some p.2)) * next p.1).sum

theorem leave_switch {targets : List Nat} {default : Nat} : events.leave next (.switch targets default) =
    labelEdges next 0 targets + happens (.choose none) * next default := by
  simp [BlockTraces.leave, events, BlockTraces.target, labelEdges, Function.comp_def]

theorem caseEdges_of_labelled {cs : List (Option Key × Statement Facts)} (h : none ∉ cs.map (·.1)) :
    caseEdges next i block cs = labelEdges next i (switchTargets block cs) := by
  induction cs generalizing i block
  case nil => rfl
  case cons p cs hi =>
    obtain ⟨label, s⟩ := p
    simp only [List.map_cons, List.mem_cons, not_or] at h
    cases label
    case none => exact absurd rfl h.1
    case some => exact congrArg _ (hi h.2)

theorem defaultTarget_of_labelled {cs : List (Option Key × Statement Facts)} (h : none ∉ cs.map (·.1)) :
    defaultTarget block otherwise cs = otherwise := by
  induction cs generalizing block
  case nil => rfl
  case cons p cs hi =>
    obtain ⟨label, s⟩ := p
    simp only [List.map_cons, List.mem_cons, not_or] at h
    cases label
    case none => exact absurd rfl h.1
    case some => exact hi h.2

-- At most one of the cases is the default one.
theorem caseEdges_eq {cs : List (Option Key × Statement Facts)} (h : (cs.map (·.1)).Nodup) :
    labelEdges next i (switchTargets block cs) + happens (.choose none) * next (defaultTarget block otherwise cs) =
      caseEdges next i block cs + if cs.any (·.1.isNone) then 0 else happens (.choose none) * next otherwise := by
  induction cs generalizing i block
  case nil => rfl
  case cons p cs hi =>
    obtain ⟨label, s⟩ := p
    rw [List.map_cons, List.nodup_cons] at h
    cases label
    case none =>
      change labelEdges next i (switchTargets (block + 1) cs) +
        happens (.choose none) * next (defaultTarget (block + 1) block cs) = _
      rw [defaultTarget_of_labelled h.1, ← caseEdges_of_labelled h.1, caseEdges, List.any_cons, Option.isNone_none,
        Bool.true_or, if_pos rfl, add_zero, add_comm]
    case some key =>
      change happens (.choose (some i)) * next block + labelEdges next (i + 1) (switchTargets (block + 1) cs) +
        happens (.choose none) * next (defaultTarget (block + 1) otherwise cs) = _
      rw [add_assoc, hi h.2, caseEdges, List.any_cons, Option.isNone_some, Bool.false_or, add_assoc]

theorem caseEdges_markCases : caseEdges next i block (markCases cs) = caseEdges next i block cs := by
  induction cs generalizing i block
  case nil => rfl
  case cons p cs hi =>
    obtain ⟨label, s⟩ := p
    cases label <;> exact congrArg _ hi

-- What is known behind the cases from the block `block` on. The block `merge` is still empty.
structure Cases (cs : List (Option Key × Statement ν)) (g : Graph) (merge block : Nat) (σ σ' : LowerState) : Prop where
  grows    : Grows g σ'.graph
  within   : Within σ.graph.blocks σ'.graph.blocks
  fresh    : Fresh σ'.graph merge
  loop     : ∃ b, σ'.loop = σ.loop.map (·.breakIf b) ∧ (b = false → ∀ i, runsCases i cs .break = 0)
  deferred : σ'.deferred = σ.deferred
  upTo (blocks : Blocks) : Within σ'.graph.blocks blocks → ∀ i,
    Unfolds (fun n => caseEdges (events.upTo blocks n) i block cs) fun n =>
      runsCases i cs ⬝ᵥ σ.after (events.upTo blocks n) (events.upTo blocks n merge)

theorem cases {g : Graph} {merge : Nat} (hs : ∀ p ∈ cs, p.2.WellPlaced ctx → p.2.Scoped → Faithful run ctx p.2)
    (hw : CasesWellPlaced ctx cs) (hc : CasesScoped cs) (hr : Ready run ctx σ) (hg : Grows g σ.graph)
    (hb : g.next ≤ block) (hm : merge < block) (hfm : Fresh σ.graph merge)
    (hf : ∀ b, block ≤ b → b < block + cs.length → Fresh σ.graph b) :
    Ensures (lowerCases run merge block (markCases cs) σ) fun p =>
      Cases cs g merge block σ p.1 ∧ (p.2 = false → ∀ i, runsCases i cs .normal = 0) := by
  induction cs generalizing σ block
  case nil =>
    have hl : σ.loop = σ.loop.map (·.breakIf false) := Rest.map_breakIf_false.symm
    refine .ok ⟨⟨hg, .refl, hfm, ⟨false, hl, fun _ _ => rfl⟩, rfl, fun blocks _ i => ?_⟩, fun _ _ => rfl⟩
    exact .of_eq (funext fun n => (zero_dotProduct _).symm)
  case cons p cs hi =>
    obtain ⟨label, s⟩ := p
    rw [List.forall_mem_cons] at hs
    have hfs := hf block (Nat.le_refl _) (by simp)
    refine (branch (hs.1 hw.1 hc.1.1) hc.1.2 hr hg hb hfs).bind fun σ₁ h => ?_
    obtain ⟨hc₁, h₁⟩ := h
    refine (h₁ merge).bind fun σ₂ h₂ => ?_
    obtain ⟨b₂, hl₂, hb₂⟩ := h₂.loop
    have hf₂ (b : Nat) (hl : block + 1 ≤ b) (hn : b < block + 1 + cs.length) : Fresh σ₂.graph b :=
      h₂.fresh b (by omega) (hf b (by omega) (by simp only [List.length_cons]; omega))
    refine (hi hs.2 hw.2 hc.2 (hr.of_eq hl₂ h₂.deferred) h₂.grows (Nat.le_succ_of_le hb) (Nat.lt_succ_of_lt hm)
      (h₂.fresh merge (Nat.ne_of_lt hm) hfm) hf₂).bind ?_
    rintro ⟨σ₃, continuing⟩ ⟨h₃, hc₃⟩
    obtain ⟨b₃, hl₃, hb₃⟩ := h₃.loop
    have hj (next : Nat → Language Event) (l : Language Event) : σ₂.after next l = σ.after next l := by
      rw [LowerState.after, jump_congr hl₂ h₂.deferred, LowerState.after]
    refine .ok ⟨⟨h₃.grows, h₂.within.trans h₃.within, h₃.fresh, ⟨b₂ || b₃, hl₃.trans (hl₂ ▸ map_breakIf_map), ?_⟩,
      h₃.deferred.trans h₂.deferred, ?_⟩, ?_⟩
    case refine_1 =>
      intro hb i
      obtain ⟨hs₂, hs₃⟩ := Bool.or_eq_false_iff.mp hb
      cases label <;> simp [runsCases, hb₂ hs₂, hb₃ hs₃]
    case refine_2 =>
      intro blocks hw i
      have h₂ := h₂.upTo blocks (h₃.within.trans hw)
      have h₃ := h₃.upTo blocks hw
      simp only [hj] at h₃
      cases label
      case none =>
        refine (h₂.mul.add (h₃ i)).trans (.of_eq (funext fun n => ?_))
        rw [runsCases, add_dotProduct, smul_dotProduct_eq]
      case some =>
        refine (h₂.mul.add (h₃ (i + 1))).trans (.of_eq (funext fun n => ?_))
        rw [runsCases, add_dotProduct, smul_dotProduct_eq]
    case refine_3 =>
      intro h i
      obtain ⟨hs₂, hs₃⟩ := Bool.or_eq_false_iff.mp h
      have hs := hc₁ (Bool.eq_false_iff.mp hs₂)
      cases label <;> simp [runsCases, hs, hc₃ hs₃]

-- The block for values that no case of an exhaustive switch has.
theorem unmatched_ensures {g : Graph} {c : Bool} (hg : Grows g σ.graph) (hb : g.next ≤ block)
    (hf : c → Fresh σ.graph block) :
    Ensures (σ.setUnmatched block c) fun σ' => ∃ g', σ' = { σ with graph := g' } ∧ Grows g g' ∧
      Within σ.graph.blocks g'.blocks ∧ (∀ b' ≠ block, Fresh σ.graph b' → Fresh g' b') ∧
      ∀ blocks, Within g'.blocks blocks → c → Unfolds (fun n => events.upTo blocks n block) 0 := by
  unfold LowerState.setUnmatched
  split
  case isTrue h =>
    have hf := hf h
    refine (onGraph_ensures setTerminator_ensures).mono fun _ h => ?_
    obtain ⟨g', hg', hσ⟩ := h
    refine ⟨g', hσ, (hg.select hb hf.lt_next).trans hg'.grows, hg'.grows.of_select, ?_, ?_⟩
    case refine_1 => exact fun b' hn hf' => hg'.grows.fresh (hf'.select hf.lt_next hn)
    case refine_2 => exact fun blocks hw _ => hg'.upTo hf hw
  case isFalse h => exact .ok ⟨σ.graph, rfl, hg, .refl, fun _ _ => id, fun _ _ hc => absurd hc h⟩

-- Where the values go that no case has.
theorem otherwise_unfolds {type : SwitchType} {c : Bool} {unmatched merge : Nat} {f : Nat → Language Event}
    {blocks : Blocks} (hc : (!cs.any (·.1.isNone) && isExhaustive type cs) = c) (hm : Unfolds (fun n => events.upTo blocks n merge) f)
    (hu : c → Unfolds (fun n => events.upTo blocks n unmatched) 0) :
    Unfolds (fun n => if cs.any (·.1.isNone) then 0
      else happens (.choose none) * events.upTo blocks n (if c then unmatched else merge))
      fun n => (if isExhaustive type cs then 0 else happens (.choose none)) * f n := by
  cases hd : cs.any (·.1.isNone)
  case true =>
    simp only [Sound.isExhaustive_of_default hd, if_true, zero_mul]
    exact .refl
  case false =>
    rw [hd, Bool.not_false, Bool.true_and] at hc
    subst hc
    cases he : isExhaustive type cs
    case false => simpa using hm.mul
    case true =>
      have hu := (hu he).mul (a := happens (.choose none))
      simpa using hu

theorem switch {selector : Expression} {type : SwitchType}
    (hs : ∀ p ∈ cs, p.2.WellPlaced ctx → p.2.Scoped → Faithful run ctx p.2) (hl : (cs.map (·.1)).Nodup)
    (hw : CasesWellPlaced ctx cs) (hc : CasesScoped cs) : Faithful run ctx (.switch n selector type cs) := by
  intro σ ho hr
  simp only [mark, lowerStatement, Sound.length_markCases, Sound.any_markCases]
  refine (onGraph_ensures lowerExpression_ensures).bind fun _ h => ?_
  obtain ⟨g₁, h₁, hσ⟩ := h
  subst hσ
  refine (onGraph_ensures checkOpen_ensures).bind fun _ h => ?_
  obtain ⟨g₁, hg, hσ⟩ := h
  subst hσ hg
  dsimp only
  generalize hu : (!cs.any (·.1.isNone) && (facts (.switch n selector type cs)).isExhaustive) = needed
  refine (onGraph_ensures setTerminator_ensures).bind fun _ h => ?_
  obtain ⟨g₂, h₂, hσ⟩ := h
  subst hσ
  have hf (b : Nat) (hb : g₁.next ≤ b) (hn : b < g₁.next + (1 + cs.length + if needed then 1 else 0)) : Fresh g₂ b :=
    h₂.grows.fresh (fresh_addBlocks hb hn)
  have h₂ := (h₁.trans .addBlocks).leaves h₂
  have hn := h₁.grows.next_le
  let switched : LowerState := { σ with graph := g₂ }
  have hfu (hc : needed) : Fresh switched.graph (g₁.next + 1 + cs.length) :=
    hf _ (by omega) (by rw [if_pos hc]; omega)
  refine (unmatched_ensures h₂.grows (by omega) hfu).bind fun _ h => ?_
  obtain ⟨g₃, hσ, hg₃, hw₃, hf₃, hu₃⟩ := h
  subst hσ
  have hr₃ : Ready run ctx { σ with graph := g₃ } := ⟨hr.deferred, hr.nested⟩
  have hf₃ (b : Nat) (hb : g₁.next ≤ b) (hn : b < g₁.next + 1 + cs.length) : Fresh g₃ b :=
    hf₃ b (by omega) (hf b hb (by omega))
  refine (cases hs hw hc hr₃ hg₃ (Nat.le_succ_of_le hn) (Nat.lt_succ_self _) (hf₃ _ (Nat.le_refl _) (by omega))
    fun b hb hn => hf₃ b (Nat.le_of_succ_le hb) hn).bind ?_
  rintro ⟨σ₄, continuing⟩ ⟨h₄, hc₄⟩
  obtain ⟨b, hl₄, hb₄⟩ := h₄.loop
  have h₅ : Follows (Statement.switch n selector type cs).runs σ σ (σ₄.select g₁.next) := by
    have hg := h₄.grows.select hn h₄.fresh.lt_next
    refine ⟨hg, ⟨b, hl₄, fun hb => ?_⟩, absurd h₄.fresh.isOpen_select, fun blocks hw => ?_⟩
    case refine_1 => simp [runs, hb₄ hb, ends_of_ne]
    case refine_2 =>
      have hw : Within σ₄.graph.blocks blocks := blocks_select (g := σ₄.graph) ▸ hw
      have hm := upTo_of_fresh blocks h₄.fresh
      have hcs := (h₄.upTo blocks hw 0).trans (unfolds_after hm)
      have ht := h₂.tail blocks (hw₃.trans (h₄.within.trans hw))
      simp only [leave_switch, caseEdges_eq (map_markCases ▸ hl), caseEdges_markCases, Sound.any_markCases] at ht
      refine ht.trans ((hcs.add (otherwise_unfolds hu hm fun hn => ?_)).mul.trans (.of_eq (funext fun n => ?_)))
      case refine_1 => exact hu₃ blocks (h₄.within.trans hw) hn
      case refine_2 =>
        rw [runs, mul_one, smul_dotProduct_eq, add_dotProduct, ends_dotProduct, after_normal]
        rfl
  refine (h₅.unreachableIf fun h => ?_).bind fun σ₆ h₆ => .ok (Lowers.record ⟨h₆.1, h₆.2.trans h₄.deferred⟩)
  simp only [Bool.not_eq_true', Bool.or_eq_false_iff] at h
  have he : isExhaustive type cs := by
    cases hd : cs.any (·.1.isNone)
    case true  => exact Sound.isExhaustive_of_default hd
    case false => simpa [hd, facts] using h.2
  simp [runs, hc₄ h.1, he, ends]

end Switch

end Faithful

-- The code of a statement runs like the statement.
theorem faithful (hu : ctx.deferDepth = 0 → RunsUndeferred ν run) (hw : s.WellPlaced ctx) (hs : s.Scoped) :
    Faithful run ctx s := by
  induction s using Statement.ind generalizing ctx
  case absent => exact .absent
  case declaration => exact .declaration
  case vars => exact .vars
  case action => exact .action
  case asm => exact .asm
  case ret => exact .ret hw
  case defer => exact .defer
  case block hi => exact .block (fun s hm hw hs => hi s hm hu hw hs) hw hs hu
  case cond ht he => exact .cond (ht hu hw.1 hs.1.1) (he hu hw.2 hs.2.1) hs.1.2 hs.2.2
  case compileIf ht he => exact .compileIf hw hs (ht hu) (he hu)
  case loop hi => exact .loop (hi hu hw hs.1) hs.2
  case steps hi => exact .steps (hi hu hw hs.1) hs.2
  case leave => exact .leave hw
  case next => exact .next hw
  case switch hi => exact .switch (fun p hm hw hs => hi p hm hu hw hs) hw.1 hw.2 hs

-- A deferred statement defers nothing itself and cannot be left by a jump.
theorem Follows.does {outer : LowerState} (h : Follows r outer σ σ') (hd : σ'.deferred = σ.deferred)
    (hr : ∀ o ≠ .normal, r o = 0) : Does (r .normal) σ σ' where
  grows          := h.grows
  loop           := h.loop.imp fun _ hl => hl.1
  deferred       := hd
  closed         := h.closed
  tail blocks hw := by
    refine (h.tail blocks hw).trans (.of_eq (funext fun n => ?_))
    rw [dotProduct_eq, after_normal, hr .break nofun, hr .continue nofun, hr .return nofun]
    simp only [zero_mul, add_zero]

theorem runsUndeferred_lowerStatement : RunsUndeferred ν (lowerStatement run) := by
  intro ctx d hf hd hw hs σ ho hn
  have hz : ctx.deferDepth ≠ 0 := Nat.ne_of_gt hd
  refine (faithful (fun h => absurd h hz) hw hs σ ho ⟨fun h => absurd h hz, hn⟩).mono fun σ' h => ?_
  rw [runs_mark.1]
  refine h.follows.does ?_ fun o ho => runs_eq_zero hw fun ha => ?_
  case refine_2 =>
    cases o
    case normal => exact ho rfl
    all_goals exact hz ha.1
  rw [h.deferred, deferrals_eq_nil hw fun ha => hz ha.1]
  rfl

end Coglet.Control
