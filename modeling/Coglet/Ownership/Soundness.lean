import Coglet.Ownership.Tracking

open Path

namespace Coglet.Ownership

section

variable (owns : VariableId → Bool) (permitsCopies : Bool)

def Expr.Permitted (e : Expr) : Prop :=
  permitsCopies = true ∨ e.CopyFree owns

def Simple.Traceable : Simple → Prop
  | assign _ value => value.Permitted owns permitsCopies
  | expr e         => e.Permitted owns permitsCopies

def Stmt.isVarDecl : Stmt → Bool
  | varDecl .. => true
  | _          => false

mutual

-- The checker is able to keep track of all variables: the value of a return statement does not use an owner
-- again whose move has been forgotten, and the body of a case that declares a variable is a block.
def Stmt.Traceable : Stmt → Prop
  | .simple statement             => statement.Traceable owns permitsCopies
  | .varDecl _ initializer        => ∀ e ∈ initializer, e.Permitted owns permitsCopies
  | .block statements             => TraceableStatements statements
  | .ifStmt c thenBranch none     => c.Permitted owns permitsCopies ∧ thenBranch.Traceable
  | .ifStmt c thenBranch (some s) => c.Permitted owns permitsCopies ∧ thenBranch.Traceable ∧ s.Traceable
  | .whileStmt c body             => c.Permitted owns permitsCopies ∧ body.Traceable
  | .forStmt c body post          =>
    (∀ e ∈ c, e.Permitted owns permitsCopies) ∧ body.Traceable ∧ ∀ p ∈ post, p.Traceable owns permitsCopies
  | .switchStmt c cases _         => c.Permitted owns permitsCopies ∧ TraceableCases cases
  | .breakStmt | .continueStmt    => True
  | .returnStmt value             => ∀ e ∈ value, e.Permitted owns permitsCopies ∧ e.NoReuse

def TraceableStatements : List Stmt → Prop
  | []      => True
  | s :: ss => s.Traceable ∧ TraceableStatements ss

def TraceableCases : List Stmt → Prop
  | []      => True
  | s :: ss => s.isVarDecl = false ∧ s.Traceable ∧ TraceableCases ss

end

end

section Records

variable {owns : VariableId → Bool} {K : VariableId → Prop} {S : List VariableId} {o : Option FlowState} {f : FlowState} {n : Nat} {s : State}

-- A state is one of those that a flow state describes, and control gets there.
def At (owns : VariableId → Bool) (S : List VariableId) (f : FlowState) (s : State) : Prop :=
  f.reachable = true ∧ Holds owns S f [] 0 s

def Covered (owns : VariableId → Bool) (K : VariableId → Prop) (S : List VariableId) (o : Option FlowState) : Prop :=
  ∀ f, o = some f → Covers owns K S f

-- A state is one of those that have been recorded.
def Recorded (owns : VariableId → Bool) (S : List VariableId) (o : Option FlowState) (s : State) : Prop :=
  ∃ f, o = some f ∧ At owns S f s

theorem Covered.accumulate (ho : Covered owns K S o) (hf : Covers owns K S f) (hn : ∀ x ∈ S, x < n) :
    Covered owns K S (FlowState.accumulateReachablePath o f n) := by
  intro g hg
  unfold FlowState.accumulateReachablePath at hg
  split at hg
  case isTrue  => exact ho g hg
  case isFalse =>
    cases o <;> cases hg
    case none   => exact hf.truncateTo hn
    case some g => exact (ho g rfl).merge hf hn

-- Whatever has been recorded remains so.
theorem Recorded.accumulate (h : Recorded owns S o s) (ho : Covered owns K S o) (hf : Covers owns K S f) (hn : ∀ x ∈ S, x < n) :
    Recorded owns S (FlowState.accumulateReachablePath o f n) s := by
  unfold FlowState.accumulateReachablePath
  split
  case isTrue  => exact h
  case isFalse =>
    obtain ⟨g, rfl, hr, h⟩ := h
    exact ⟨_, rfl, by simp [merge_reachable, hr], h.mergeLeft (fun _ => hr) (ho g rfl) hf hn⟩

theorem Recorded.of_path (h : Holds owns S f [] 0 s) (hr : f.reachable = true) (ho : Covered owns K S o) (hf : Covers owns K S f)
    (hn : ∀ x ∈ S, x < n) : Recorded owns S (FlowState.accumulateReachablePath o f n) s := by
  unfold FlowState.accumulateReachablePath
  rw [hr]
  cases o
  case none   => exact ⟨_, rfl, hr, h.truncateTo hn⟩
  case some g => exact ⟨_, rfl, by simp [merge_reachable, hr], h.mergeRight hr (ho g rfl) hf hn⟩

end Records

-- The records of a loop are about the variables `S` that exist in front of it.
structure RecordsOf (owns : VariableId → Bool) (K : VariableId → Prop) (S : List VariableId) (loop : LoopFlowContext) : Prop where
  active    : ∀ x ∈ S, x < loop.activeVariableCount
  breaks    : Covered owns K S loop.breakFlow
  continues : Covered owns K S loop.continueFlow

def Broke (owns : VariableId → Bool) (S : List VariableId) (loop : Option LoopFlowContext) (s : State) : Prop :=
  ∃ l, loop = some l ∧ Recorded owns S l.breakFlow s

def Continued (owns : VariableId → Bool) (S : List VariableId) (loop : Option LoopFlowContext) (s : State) : Prop :=
  ∃ l, loop = some l ∧ Recorded owns S l.continueFlow s

-- What the check of a statement does to the records of the surrounding loop.
structure Extends (owns : VariableId → Bool) (K : VariableId → Prop) (S : List VariableId) (loop loop' : Option LoopFlowContext) : Prop where
  records   : ∀ l, loop' = some l → RecordsOf owns K S l
  broke     : ∀ s, Broke owns S loop s → Broke owns S loop' s
  continued : ∀ s, Continued owns S loop s → Continued owns S loop' s

namespace Extends

variable {owns : VariableId → Bool} {K : VariableId → Prop} {S : List VariableId} {l : LoopFlowContext}
  {f : FlowState} {loop loop' loop'' : Option LoopFlowContext}

theorem refl (h : ∀ l, loop = some l → RecordsOf owns K S l) : Extends owns K S loop loop :=
  ⟨h, fun _ => id, fun _ => id⟩

theorem trans (h : Extends owns K S loop loop') (h' : Extends owns K S loop' loop'') : Extends owns K S loop loop'' :=
  ⟨h'.records, fun s hs => h'.broke s (h.broke s hs), fun s hs => h'.continued s (h.continued s hs)⟩

theorem recordBreak (h : RecordsOf owns K S l) (hf : Covers owns K S f) : Extends owns K S (some l) (some (l.recordBreak f)) where
  records := by
    rintro _ ⟨⟩
    exact ⟨h.active, h.breaks.accumulate hf h.active, h.continues⟩
  broke := by
    rintro s ⟨_, ⟨⟩, hs⟩
    exact ⟨_, rfl, hs.accumulate h.breaks hf h.active⟩
  continued := by
    rintro s ⟨_, ⟨⟩, hs⟩
    exact ⟨_, rfl, hs⟩

theorem recordContinue (h : RecordsOf owns K S l) (hf : Covers owns K S f) :
    Extends owns K S (some l) (some (l.recordContinue f)) where
  records := by
    rintro _ ⟨⟩
    exact ⟨h.active, h.breaks, h.continues.accumulate hf h.active⟩
  broke := by
    rintro s ⟨_, ⟨⟩, hs⟩
    exact ⟨_, rfl, hs⟩
  continued := by
    rintro s ⟨_, ⟨⟩, hs⟩
    exact ⟨_, rfl, hs.accumulate h.continues hf h.active⟩

end Extends

-- What holds after a statement, depending on how control leaves it.
def Post (owns : VariableId → Bool) (N : State → Prop) (S : List VariableId) (loop : Option LoopFlowContext) : Exit → State → Prop
  | .normal    => N
  | .broke     => Broke owns S loop
  | .continued => Continued owns S loop
  | _          => fun _ => True

theorem Post.mono (h : Post owns N S loop e s) (hn : e = .normal → N s → N' s) (hl : Extends owns K S loop loop') : Post owns N' S loop' e s := by
  cases e
  case normal    => exact hn rfl h
  case broke     => exact hl.broke s h
  case continued => exact hl.continued s h
  all_goals exact True.intro

-- The check of a statement is sound, if the surrounding loop started with the variables `S`.
structure Sound (owns : VariableId → Bool) (K : VariableId → Prop) (permitsCopies : Bool)
    (S : List VariableId) (state state' : CheckState) (paths : List Event → Exit → Prop) : Prop where
  covers : Covers owns K state'.scope state'.flow
  scope  : state.scope ⊆ state'.scope
  loop   : Extends owns K S state.loop state'.loop
  triple : ∀ p e, paths p e →
    Triple (State.transfer permitsCopies) (At owns state.scope state.flow) p (Post owns (At owns state'.scope state'.flow) S state'.loop e)

-- What the check of a statement may rely on.
structure Checkable (owns : VariableId → Bool) (K : VariableId → Prop) (S : List VariableId) (state : CheckState) : Prop where
  covers  : Covers owns K state.scope state.flow
  scope   : S ⊆ state.scope
  known   : ∀ x, K x → x ∈ S
  records : ∀ l, state.loop = some l → RecordsOf owns K S l

theorem Sound.checkable (h : Sound owns K permitsCopies S state state' paths) (hs : Checkable owns K S state) : Checkable owns K S state' :=
  ⟨h.covers, List.Subset.trans hs.scope h.scope, hs.known, h.loop.records⟩

section Reachable

variable {spelling : VariableId → Name} {owns : VariableId → Bool} {K : VariableId → Prop} {permitsCopies : Bool}
  {scope : List VariableId} {f g : FlowState} {k : Nat} {e : Expr}

-- On paths that are considered to continue, nothing is lost.
theorem checkExpression_triple (h : checkExpression spelling owns scope e f = .ok g) (hc : Covers owns K scope f)
    (hr : f.reachable = true) (hf : e.Permitted owns permitsCopies) (hp : e.Path owns p) :
    Triple (State.transfer permitsCopies) (Holds owns scope f [] k) p (Holds owns scope g [] (k + e.results owns)) := by
  have h : Triple (State.transfer permitsCopies) (Holds owns scope f [] k) p (Holds owns scope g (e.lostAfter f []) (k + e.results owns)) :=
    checkExpression_sound e h hc hf (.inl hr) (List.disjoint_nil_left _) hp
  simpa [Expr.lostAfter, hr] using h

theorem checkCondition_ok (h : checkCondition spelling owns scope message e f = .ok g) :
    checkExpression spelling owns scope e f = .ok g ∧ e.results owns = 0 := by
  simp only [checkCondition, ok_bind_iff] at h
  obtain ⟨g', h, h'⟩ := h
  split at h'
  case isTrue  => cases h'
  case isFalse hr =>
    cases h'
    exact ⟨h, results_of_not_isResource (by simpa using hr)⟩

theorem checkInitializer_ok (h : checkInitializer spelling owns scope expectsResource e f = .ok g) :
    checkExpression spelling owns scope e f = .ok g ∧ e.isCopy owns = false ∧ e.isResource owns = expectsResource := by
  simp only [checkInitializer, ok_bind_iff] at h
  obtain ⟨g', h, _, ht, h'⟩ := h
  split at h'
  case isTrue  => cases h'
  case isFalse hr =>
    cases h'
    exact ⟨h, checkResourceTransfer_ok ht, not_not.mp hr⟩

theorem checkAssignment_ok (h : checkAssignment spelling owns scope x e f = .ok g) :
    ∃ f', x ∈ scope ∧ (owns x = true → f.initialized x = .definitelyUninitialized) ∧
      checkInitializer spelling owns scope (owns x) e f = .ok f' ∧ g = f'.markVariableInitialized x := by
  unfold checkAssignment at h
  split at h
  case isTrue => cases h
  case isFalse hx =>
    split at h
    case isTrue => cases h
    case isFalse hu =>
      obtain ⟨f', hf, ⟨⟩⟩ := ok_bind_iff.mp h
      exact ⟨f', not_not.mp hx, by simpa [FlowState.variableIsDefinitelyUninitialized] using hu, hf, rfl⟩

theorem checkCondition_triple (h : checkCondition spelling owns scope message e f = .ok g) (hc : Covers owns K scope f)
    (hr : f.reachable = true) (hf : e.Permitted owns permitsCopies) (hp : e.Path owns p) :
    Triple (State.transfer permitsCopies) (Holds owns scope f [] 0) p (Holds owns scope g [] 0) := by
  have ⟨h, hk⟩ := checkCondition_ok h
  simpa [hk] using checkExpression_triple (k := 0) h hc hr hf hp

-- An initializer leaves a resource that no owner holds yet.
theorem checkInitializer_triple (h : checkInitializer spelling owns scope expectsResource e f = .ok g) (hc : Covers owns K scope f)
    (hr : f.reachable = true) (hf : e.Permitted owns permitsCopies) (hp : e.Path owns p) :
    Triple (State.transfer permitsCopies) (Holds owns scope f [] 0) (p ++ e.copies owns)
      (Holds owns scope g [] (0 + if expectsResource then 1 else 0)) := by
  have ⟨h, hl, he⟩ := checkInitializer_ok h
  rw [copies_eq_nil hl, List.append_nil]
  simpa [results_of_not_isCopy hl, he] using checkExpression_triple (k := 0) h hc hr hf hp

theorem checkSimple_covers {s : Simple} (h : checkSimple spelling owns scope s f = .ok g) (hc : Covers owns K scope f) :
    Covers owns K scope g ∧ g.reachable = f.reachable := by
  cases s
  case expr e =>
    have he := checkExpression_effect e h hc
    exact ⟨he.covers, he.reachable⟩
  case assign x e =>
    obtain ⟨f', -, -, hi, rfl⟩ := checkAssignment_ok h
    have he := checkExpression_effect e (checkInitializer_ok hi).left hc
    exact ⟨he.covers.set .definitelyInitialized, he.reachable⟩

theorem checkSimple_triple {s : Simple} (h : checkSimple spelling owns scope s f = .ok g) (hc : Covers owns K scope f)
    (hr : f.reachable = true) (ht : s.Traceable owns permitsCopies) (hp : s.Path owns p) :
    Triple (State.transfer permitsCopies) (Holds owns scope f [] 0) p (Holds owns scope g [] 0) := by
  cases s
  case expr e =>
    obtain ⟨v, hv, rfl⟩ := hp
    have he := checkExpression_triple (k := 0) h hc hr ht hv
    unfold Expr.results at he
    split
    case isTrue hk  =>
      rw [if_pos hk] at he
      exact he.append Holds.triple_drop
    case isFalse hk => simpa [hk] using he
  case assign x e =>
    obtain ⟨v, hv, rfl⟩ := hp
    obtain ⟨f', hx, hu, hi, rfl⟩ := checkAssignment_ok h
    have he := checkExpression_effect e (checkInitializer_ok hi).left hc
    have ht := checkInitializer_triple hi hc hr ht hv
    cases ho : owns x <;> simp only [ho, Bool.false_eq_true, ite_false, ite_true] at ht ⊢
    case true  => exact ht.append (Holds.triple_assign hx (he.reachable.trans hr) ho (he.free x hx (hu ho)))
    case false => exact ht.append (Holds.triple_store ho)

end Reachable

section Loops

variable {owns : VariableId → Bool} {K : VariableId → Prop} {permitsCopies : Bool} {S : List VariableId}
  {l : LoopFlowContext} {f : FlowState} {s : State}

theorem iterationFlow_covers (h : RecordsOf owns K S l) (hf : Covers owns K S f) : Covers owns K S (l.iterationFlow f) := by
  unfold LoopFlowContext.iterationFlow
  cases hc : l.continueFlow
  case none   => exact hf.truncateTo h.active
  case some g => exact (hf.truncateTo h.active).merge (h.continues g hc) h.active

theorem At.iterationFlow (hs : At owns S f s) (h : RecordsOf owns K S l) (hf : Covers owns K S f) : At owns S (l.iterationFlow f) s := by
  have ht := hs.right.truncateTo h.active
  unfold LoopFlowContext.iterationFlow
  cases hc : l.continueFlow
  case none   => exact ⟨hs.left, ht⟩
  case some g =>
    exact ⟨merge_reachable.trans (by simp [FlowState.truncateTo, hs.left]),
      ht.mergeLeft (fun _ => hs.left) (hf.truncateTo h.active) (h.continues g hc) h.active⟩

theorem Recorded.iterationFlow (hs : Recorded owns S l.continueFlow s) (h : RecordsOf owns K S l) (hf : Covers owns K S f) :
    At owns S (l.iterationFlow f) s := by
  obtain ⟨g, hg, hr, hs⟩ := hs
  unfold LoopFlowContext.iterationFlow
  rw [hg]
  exact ⟨merge_reachable.trans (by simp [hr]),
    hs.mergeRight hr (hf.truncateTo h.active) (h.continues g hg) h.active⟩

theorem exitFlow_covers (h : RecordsOf owns K S l) (hf : Covers owns K S f) : Covers owns K S (l.exitFlow f isAlwaysTrue) := by
  unfold LoopFlowContext.exitFlow
  cases hb : l.breakFlow <;> cases isAlwaysTrue
  case none.false   => exact hf
  case none.true    => exact hf
  case some.false g => exact hf.merge (h.breaks g hb) h.active
  case some.true g  => exact h.breaks g hb

theorem At.exitFlow (hs : At owns S f s) (h : RecordsOf owns K S l) (hf : Covers owns K S f) : At owns S (l.exitFlow f false) s := by
  unfold LoopFlowContext.exitFlow
  cases hb : l.breakFlow
  case none   => exact hs
  case some g =>
    exact ⟨merge_reachable.trans (by simp [hs.left]),
      hs.right.mergeLeft (fun _ => hs.left) hf (h.breaks g hb) h.active⟩

theorem Recorded.exitFlow (hs : Recorded owns S l.breakFlow s) (h : RecordsOf owns K S l) (hf : Covers owns K S f) :
    At owns S (l.exitFlow f isAlwaysTrue) s := by
  obtain ⟨g, hg, hr, hs⟩ := hs
  unfold LoopFlowContext.exitFlow
  rw [hg]
  cases isAlwaysTrue
  case true  => exact ⟨hr, hs⟩
  case false => exact ⟨merge_reachable.trans (by simp [hr]), hs.mergeRight hr hf (h.breaks g hg) h.active⟩

-- Each iteration starts from the same states. Owners are in the same state again, and all other variables that
-- are initialized remain so.
theorem At.backedge (hs : At owns S g s) (hc : f.changedOnBackedge g f.count = none) (hf : Covers owns K S f)
    (hg : Covers owns K S g) (hk : ∀ x ∈ S, f.initialized x = .definitelyInitialized → K x)
    (hr : f.reachable = true) : At owns S f s := by
  have hi x (hx : x ∈ S) (how : owns x = true) : f.initialized x = g.initialized x := by
    have ⟨hn, ho, _⟩ := hf x hx
    unfold FlowState.changedOnBackedge at hc
    simp only [hs.left, Bool.not_true, Bool.false_eq_true, ite_false, List.find?_eq_none, List.mem_range] at hc
    simpa [ho, how] using hc x hn
  refine ⟨hr, fun x hx hl h => hs.right.held x hx hl ?_,
    fun _ x hx ho h => hs.right.free hs.left x hx ho (hi x hx ho ▸ h), hs.right.depth⟩
  cases ho : owns x
  case true  => exact hi x hx ho ▸ h
  case false => exact (hg x hx).right.right.right ho (hk x hx h)

variable {spelling : VariableId → Name}

theorem checkLoopCondition_covers {condition : Option Expr}
    (h : checkLoopCondition spelling owns S message condition f = .ok g) (hc : Covers owns K S f) :
    Covers owns K S g ∧ g.reachable = f.reachable := by
  cases condition
  case none =>
    cases h
    exact ⟨hc, rfl⟩
  case some c =>
    have he := checkExpression_effect c (checkCondition_ok h).left hc
    exact ⟨he.covers, he.reachable⟩

theorem checkLoopCondition_triple {condition : Option Expr}
    (h : checkLoopCondition spelling owns S message condition f = .ok g) (hc : Covers owns K S f) (hr : f.reachable = true)
    (hf : ∀ e ∈ condition, e.Permitted owns permitsCopies) (hp : conditionPath owns value condition p) :
    Triple (State.transfer permitsCopies) (At owns S f) p (At owns S g) := by
  have hg := (checkLoopCondition_covers h hc).right.trans hr
  cases condition
  case none =>
    cases h
    obtain ⟨-, rfl⟩ := hp
    exact .nil fun _ => id
  case some c =>
    exact (checkCondition_triple h hc hr (hf c rfl) hp.left).consequence (fun _ h => h.right) fun _ h => ⟨hg, h⟩

theorem checkPost_covers {post : Option Simple} (h : checkPost spelling owns S post f = .ok g)
    (hc : Covers owns K S f) : Covers owns K S g := by
  cases post
  case none =>
    cases h
    exact hc
  case some s => exact (checkSimple_covers h hc).left

theorem checkPost_triple {post : Option Simple} (h : checkPost spelling owns S post f = .ok g) (hc : Covers owns K S f)
    (ht : ∀ s ∈ post, s.Traceable owns permitsCopies) (hp : postPath owns post p) : Triple (State.transfer permitsCopies) (At owns S f) p (At owns S g) := by
  cases post
  case none =>
    cases h
    cases hp
    exact .nil fun _ => id
  case some s =>
    intro t hs
    have hg := (checkSimple_covers h hc).right.trans hs.left
    exact (checkSimple_triple h hc hs.left (ht s rfl) hp).consequence (fun _ h => h) (fun _ h => ⟨hg, h⟩) t hs.right

-- A loop whose condition is known to be true is not left by its condition.
theorem conditionPath_false (hp : conditionPath owns false condition p) :
    condition.all (·.compileTimeBool = some true) = false := by
  cases condition
  case none   => cases hp.left
  case some c => simpa [Expr.mayBe] using hp.right

theorem checkLoop_ok (h : checkLoop spelling owns condition message post checkBody state = .ok state') :
    ∃ c body b, checkLoopCondition spelling owns state.scope message condition state.flow = .ok c ∧
      checkBody { state with flow := c, loop := some (.enter state.flow.count) } = .ok body ∧
      checkPost spelling owns state.scope post ((body.loop.getD (.enter state.flow.count)).iterationFlow body.flow) = .ok b ∧
      state.flow.changedOnBackedge b state.flow.count = none ∧
      state' = { state with
        flow := (body.loop.getD (.enter state.flow.count)).exitFlow c (condition.all (·.compileTimeBool = some true)) } := by
  simp only [checkLoop, ok_bind_iff] at h
  obtain ⟨c, hc, body, hb, b, hp, h⟩ := h
  split at h
  case h_1 => cases h
  case h_2 hx =>
    cases h
    exact ⟨c, body, b, hc, hb, hp, hx, rfl⟩

theorem RecordsOf.enter (hf : Covers owns K S f) : RecordsOf owns K S (.enter f.count) where
  active x hx := (hf x hx).left
  breaks      := fun _ h => by cases h
  continues   := fun _ h => by cases h

theorem RecordsOf.getD {o : Option LoopFlowContext} (h : ∀ l, o = some l → RecordsOf owns K S l) (hl : RecordsOf owns K S l) :
    RecordsOf owns K S (o.getD l) := by
  cases o
  case none   => exact hl
  case some l => exact h l rfl

-- How control leaves a loop other than normally.
def Leaves : Exit → State → Prop :=
  fun e _ => e = .returned ∨ e = .interrupted

-- What holds after the body of a loop, whose records are `l`.
theorem Post.after_body {result : CheckState} {o : Option LoopFlowContext} (h : Post owns (At owns result.scope result.flow) S result.loop e s)
    (hs : S ⊆ result.scope) (hr : result.loop = o) (hl : RecordsOf owns K S (o.getD l)) (hf : Covers owns K S result.flow)
    (hc : Covers owns K S c) :
    after (At owns S ((o.getD l).iterationFlow result.flow)) (At owns S ((o.getD l).exitFlow c isAlwaysTrue)) Leaves e s := by
  cases e
  case normal => exact At.iterationFlow ⟨h.left, h.right.subset hs⟩ hl hf
  case broke =>
    obtain ⟨l', hl', h⟩ := h
    obtain rfl := hr.symm.trans hl'
    exact h.exitFlow hl hc
  case continued =>
    obtain ⟨l', hl', h⟩ := h
    obtain rfl := hr.symm.trans hl'
    exact h.iterationFlow hl hf
  case returned    => exact .inl rfl
  case interrupted => exact .inr rfl

-- The variables that are known to be initialized in front of a loop.
def CheckState.Known (state : CheckState) (x : VariableId) : Prop :=
  x ∈ state.scope ∧ state.flow.initialized x = .definitelyInitialized

theorem Checkable.covers_known (hs : Checkable owns K S state) : Covers owns state.Known state.scope state.flow := by
  intro x hx
  have ⟨hn, ho, hi, _⟩ := hs.covers x hx
  exact ⟨hn, ho, hi, fun _ hk => hk.right⟩

theorem Checkable.known_of (hs : Checkable owns K S state) (x : VariableId) (hx : x ∈ state.scope)
    (ho : owns x = false) (hk : K x) : state.Known x :=
  ⟨hx, (hs.covers x hx).right.right.right ho hk⟩

-- What holds after a loop can be derived from its invariant, which is that each iteration starts in one of
-- the states that have been considered by the check.
theorem checkLoop_sound {condition : Option Expr} {post : Option Simple} {body : List Event → Exit → Prop}
    (h : checkLoop spelling owns condition message post checkBody state = .ok state')
    (hs : Checkable owns K S state) (hr : state.flow.reachable = true)
    (hf : ∀ e ∈ condition, e.Permitted owns permitsCopies) (ht : ∀ s ∈ post, s.Traceable owns permitsCopies)
    (hb : ∀ K s s', checkBody s = .ok s' → Checkable owns K s.scope s → s.flow.reachable = true →
      Sound owns K permitsCopies s.scope s s' body) :
    Sound owns K permitsCopies S state state'
      (Loop (conditionPath owns true condition) (conditionPath owns false condition) body (postPath owns post)) := by
  obtain ⟨c, result, b, hc, hbody, hp, hx, rfl⟩ := checkLoop_ok h
  have hk := hs.covers_known
  have ⟨hcc, hcr⟩ := checkLoopCondition_covers hc hk
  have henter := RecordsOf.enter hk
  have hbody := hb state.Known _ result hbody
    ⟨hcc, List.Subset.refl _, fun _ h => h.left, fun l hl => by cases hl; exact henter⟩ (hcr.trans hr)
  have hcov := hbody.covers.subset hbody.scope
  have hl := RecordsOf.getD hbody.loop.records henter
  have hcond v q (hq : conditionPath owns v condition q) := checkLoopCondition_triple hc hk hr hf hq
  have hi := iterationFlow_covers hl hcov
  refine ⟨(exitFlow_covers hl hcc).weaken hs.known_of, List.Subset.refl _, .refl hs.records, fun p e hp' => ?_⟩
  have ht := hp'.triple (hcond true)
    (fun q hq => (hcond false q hq).consequence (fun _ h => h) fun s h => conditionPath_false hq ▸ h.exitFlow hl hcc)
    (fun q e hq => (hbody.triple q e hq).consequence (fun _ h => h) fun s h =>
      h.after_body hbody.scope rfl hl hcov hcc)
    (fun q hq => (checkPost_triple hp hi ht hq).consequence (fun _ h => h) fun s h =>
      h.backedge hx hk (checkPost_covers hp hi) (fun x hx hi => ⟨hx, hi⟩) hr)
    (fun _ _ => .inr rfl)
  refine ht.consequence (fun _ h => h) fun s h => ?_
  cases e
  case normal => exact h
  all_goals first | exact True.intro | rcases h with h | h <;> cases h

end Loops

section Statements

variable {spelling : VariableId → Name} {owns : VariableId → Bool} {K : VariableId → Prop} {permitsCopies : Bool}
  {returnType : ReturnType} {S scope : List VariableId} {f g : FlowState}
  {state state' : CheckState}

theorem checkSimple_sound {s : Simple} (h : checkSimple spelling owns state.scope s state.flow = .ok f)
    (hs : Checkable owns K S state) (ht : s.Traceable owns permitsCopies) :
    Sound owns K permitsCopies S state { state with flow := f } (fun p e => s.Path owns p ∧ e = .normal) := by
  have ⟨hc, hr⟩ := checkSimple_covers h hs.covers
  refine ⟨hc, List.Subset.refl _, .refl hs.records, ?_⟩
  rintro p _ ⟨hp, rfl⟩ s hs'
  exact (checkSimple_triple h hs.covers hs'.left ht hp).consequence (fun _ h => h)
    (fun _ h => ⟨hr.trans hs'.left, h⟩) s hs'.right

theorem declare_sound (hs : Checkable owns K S state) (hx : x ∉ state.scope) :
    Sound owns K permitsCopies S state
      { state with flow := state.flow.registerVariable x false (owns x), scope := x :: state.scope }
      (fun p e => p = [.declare x] ∧ e = .normal) := by
  have hk : ¬K x := fun hk => hx (hs.scope (hs.known x hk))
  refine ⟨hs.covers.register (.inr hk), List.subset_cons_self .., .refl hs.records, ?_⟩
  rintro _ _ ⟨rfl, rfl⟩ s hs
  exact Holds.triple_declare.consequence (fun _ h => h) (fun _ h => ⟨hs.left, h⟩) s hs.right

theorem bind_sound (h : checkInitializer spelling owns state.scope (owns x) e state.flow = .ok f)
    (hs : Checkable owns K S state) (hf : e.Permitted owns permitsCopies) :
    Sound owns K permitsCopies S state
      { state with flow := f.registerVariable x true (owns x), scope := x :: state.scope }
      (fun p exit => ∃ v, e.Path owns v ∧ p = v ++ e.copies owns ++ [if owns x then .bind x else .store x] ∧
        exit = .normal) := by
  have he := checkExpression_effect e (checkInitializer_ok h).left hs.covers
  refine ⟨he.covers.register (.inl rfl), List.subset_cons_self .., .refl hs.records, ?_⟩
  rintro _ _ ⟨v, hv, rfl, rfl⟩ s hs'
  have ht := checkInitializer_triple h hs.covers hs'.left hf hv
  have ht : Triple (State.transfer permitsCopies) (Holds owns state.scope state.flow [] 0)
      (v ++ e.copies owns ++ [if owns x then .bind x else .store x])
      (Holds owns (x :: state.scope) (f.registerVariable x true (owns x)) [] 0) := by
    by_cases ho : owns x = true
    case pos =>
      rw [if_pos ho] at ht ⊢
      exact ht.append (Holds.triple_bind ho)
    case neg =>
      rw [if_neg ho] at ht ⊢
      exact ht.append (Holds.triple_define (by simpa using ho))
  exact ht.consequence (fun _ h => h) (fun _ h => ⟨he.reachable.trans hs'.left, h⟩) s hs'.right

theorem break_sound (hs : Checkable owns K S state) (hl : state.loop = some l) :
    Sound owns K permitsCopies S state { state with flow := state.flow.markUnreachable, loop := some (l.recordBreak state.flow) }
      (fun p e => p = [] ∧ e = .broke) := by
  have hc := hs.covers.subset hs.scope
  have hr := hs.records l hl
  refine ⟨hs.covers, List.Subset.refl _, hl ▸ .recordBreak hr hc, ?_⟩
  rintro _ _ ⟨rfl, rfl⟩
  exact .nil fun s h => ⟨_, rfl, .of_path (h.right.subset hs.scope) h.left hr.breaks hc hr.active⟩

theorem continue_sound (hs : Checkable owns K S state) (hl : state.loop = some l) :
    Sound owns K permitsCopies S state { state with flow := state.flow.markUnreachable, loop := some (l.recordContinue state.flow) }
      (fun p e => p = [] ∧ e = .continued) := by
  have hc := hs.covers.subset hs.scope
  have hr := hs.records l hl
  refine ⟨hs.covers, List.Subset.refl _, hl ▸ .recordContinue hr hc, ?_⟩
  rintro _ _ ⟨rfl, rfl⟩
  exact .nil fun s h => ⟨_, rfl, .of_path (h.right.subset hs.scope) h.left hr.continues hc hr.active⟩

theorem checkReturn_none_ok (h : checkReturn spelling owns returnType none scope f = .ok g) : f = g := by
  unfold checkReturn at h
  cases returnType <;> cases h
  rfl

theorem checkReturn_some_ok (h : checkReturn spelling owns returnType (some e) scope f = .ok g) :
    ∃ b, checkInitializer spelling owns scope b e f = .ok g := by
  unfold checkReturn at h
  cases returnType
  case void     => cases h
  case other    => exact ⟨_, h⟩
  case resource => exact ⟨_, h⟩

-- While a returned value is checked, the flow state is marked as unreachable already.
theorem return_sound (h : checkInitializer spelling owns state.scope b e state.flow.markUnreachable = .ok f)
    (hs : Checkable owns K S state) (hf : e.Permitted owns permitsCopies) (hn : e.NoReuse) :
    Sound owns K permitsCopies S state { state with flow := f }
      (fun p exit => ∃ v, e.Path owns v ∧ p = v ++ e.copies owns ++ (if e.isResource owns then [.drop] else []) ∧ exit = .returned) := by
  obtain ⟨h, hl, -⟩ := checkInitializer_ok h
  have hc : Covers owns K state.scope state.flow.markUnreachable := hs.covers
  have he := checkExpression_effect e h hc
  refine ⟨he.covers, List.Subset.refl _, .refl hs.records, ?_⟩
  rintro _ _ ⟨v, hv, rfl, rfl⟩
  have ht : Triple (State.transfer permitsCopies) (Holds owns state.scope state.flow.markUnreachable [] 0) v
      (Holds owns state.scope f (e.lostAfter state.flow.markUnreachable []) (0 + e.results owns)) :=
    checkExpression_sound e h hc hf (.inr hn) (List.disjoint_nil_left _) hv
  rw [copies_eq_nil hl, List.append_nil]
  rw [results_of_not_isCopy hl] at ht
  have ht : Triple (State.transfer permitsCopies) (Holds owns state.scope state.flow.markUnreachable [] 0)
      (v ++ if e.isResource owns then [.drop] else [])
      (Holds owns state.scope f (e.lostAfter state.flow.markUnreachable []) 0) := by
    cases hr : e.isResource owns <;> simp only [hr, ite_true, Bool.false_eq_true, ite_false] at ht ⊢
    case true  => exact ht.append Holds.triple_drop
    case false => exact ht.append (.nil fun _ => id)
  exact ht.consequence (fun _ h => ⟨h.right.held, fun h' => (by cases h'), h.right.depth⟩) fun _ _ => True.intro

theorem mergeCase_covers {merged : Option FlowState} (hm : Covered owns K scope merged) (hf : Covers owns K scope f)
    (hn : ∀ x ∈ scope, x < n) : Covers owns K scope (mergeCase merged f n) := by
  cases merged
  case none   => exact hf.truncateTo hn
  case some m => exact (hm m rfl).merge hf hn

theorem Recorded.mergeCase {merged : Option FlowState} (h : Recorded owns scope merged s) (hm : Covered owns K scope merged)
    (hf : Covers owns K scope f) (hn : ∀ x ∈ scope, x < n) : At owns scope (mergeCase merged f n) s := by
  obtain ⟨m, rfl, hr, h⟩ := h
  exact ⟨merge_reachable.trans (by simp [hr]), h.mergeLeft (fun _ => hr) (hm m rfl) hf hn⟩

theorem At.mergeCase {merged : Option FlowState} (h : At owns scope f s) (hm : Covered owns K scope merged)
    (hf : Covers owns K scope f) (hn : ∀ x ∈ scope, x < n) : At owns scope (mergeCase merged f n) s := by
  cases merged
  case none   => exact ⟨h.left, h.right.truncateTo hn⟩
  case some m =>
    exact ⟨merge_reachable.trans (by simp [h.left]), h.right.mergeRight h.left (hm m rfl) hf hn⟩

theorem At.mergeLeft (h : At owns scope f s) (hf : Covers owns K scope f) (hg : Covers owns K scope g) (hn : ∀ x ∈ scope, x < n) :
    At owns scope (f.mergeContinuingPaths g n) s :=
  ⟨merge_reachable.trans (by simp [h.left]), h.right.mergeLeft (fun _ => h.left) hf hg hn⟩

theorem At.mergeRight (h : At owns scope g s) (hf : Covers owns K scope f) (hg : Covers owns K scope g) (hn : ∀ x ∈ scope, x < n) :
    At owns scope (f.mergeContinuingPaths g n) s :=
  ⟨merge_reachable.trans (by simp [h.left]), h.right.mergeRight h.left hf hg hn⟩

theorem At.subset (h : At owns scope f s) (hs : scope' ⊆ scope) : At owns scope' f s :=
  ⟨h.left, h.right.subset hs⟩

-- The check of the cases of a switch is sound, where `merged` is the state of previous cases.
structure CasesSound (owns : VariableId → Bool) (K : VariableId → Prop) (permitsCopies : Bool)
    (S : List VariableId) (state : CheckState) (merged merged' : Option FlowState)
    (loop' : Option LoopFlowContext) (paths : List Event → Exit → Prop) : Prop where
  covered  : Covered owns K state.scope merged'
  recorded : ∀ s, Recorded owns state.scope merged s → Recorded owns state.scope merged' s
  loop     : Extends owns K S state.loop loop'
  triple   : ∀ p e, paths p e →
    Triple (State.transfer permitsCopies) (At owns state.scope state.flow) p (Post owns (Recorded owns state.scope merged') S loop' e)

theorem checkCondition_at (h : checkCondition spelling owns scope message e f = .ok g) (hc : Covers owns K scope f)
    (hf : e.Permitted owns permitsCopies) (hp : e.Path owns p) : Triple (State.transfer permitsCopies) (At owns scope f) p (At owns scope g) := by
  have he := checkExpression_effect e (checkCondition_ok h).left hc
  exact fun s hs => (checkCondition_triple h hc hs.left hf hp).consequence (fun _ h => h)
    (fun _ h => ⟨he.reachable.trans hs.left, h⟩) s hs.right

theorem skip_sound (hs : Checkable owns K S state) : Sound owns K permitsCopies S state state (fun p e => p = [] ∧ e = .normal) := by
  refine ⟨hs.covers, List.Subset.refl _, .refl hs.records, ?_⟩
  rintro _ _ ⟨rfl, rfl⟩
  exact .nil fun _ => id

-- The second branch is checked with the records of the first one, and one of them is taken.
theorem branches_sound {thenState elseState : CheckState} {thenPaths elsePaths paths : List Event → Exit → Prop}
    (hs : Checkable owns K S state) (hc : checkCondition spelling owns state.scope message c state.flow = .ok f)
    (hf : c.Permitted owns permitsCopies) (h₁ : Sound owns K permitsCopies S { state with flow := f } thenState thenPaths)
    (h₂ : Sound owns K permitsCopies S { state with flow := f, loop := thenState.loop } elseState elsePaths)
    (hp : ∀ p e, paths p e → ∃ q b, c.Path owns q ∧ p = q ++ b ∧ (thenPaths b e ∨ elsePaths b e)) :
    Sound owns K permitsCopies S state { elseState with
      flow := thenState.flow.mergeContinuingPaths elseState.flow f.count, scope := state.scope } paths := by
  have he := checkExpression_effect c (checkCondition_ok hc).left hs.covers
  have hn x (hx : x ∈ state.scope) := (he.covers x hx).left
  have hc₁ := h₁.covers.subset h₁.scope
  have hc₂ := h₂.covers.subset h₂.scope
  refine ⟨hc₁.merge hc₂ hn, List.Subset.refl _, h₁.loop.trans h₂.loop, fun p e hp' => ?_⟩
  obtain ⟨q, b, hq, rfl, hb⟩ := hp p e hp'
  refine (checkCondition_at hc hs.covers hf hq).append ?_
  rcases hb with hb | hb
  case inl =>
    exact (h₁.triple b e hb).consequence (fun _ h => h) fun s h =>
      h.mono (fun _ h => (h.subset h₁.scope).mergeLeft hc₁ hc₂ hn) h₂.loop
  case inr =>
    exact (h₂.triple b e hb).consequence (fun _ h => h) fun s h =>
      h.mono (fun _ h => (h.subset h₂.scope).mergeRight hc₁ hc₂ hn) (.refl h₂.loop.records)

-- A switch without a matching case does nothing.
theorem switch_sound {merged : FlowState} {loop : Option LoopFlowContext} {casePaths paths : List Event → Exit → Prop}
    (hs : Checkable owns K S state) (hc : checkCondition spelling owns state.scope message c state.flow = .ok f)
    (hf : c.Permitted owns permitsCopies) (h : CasesSound owns K permitsCopies S { state with flow := f } none (some merged) loop casePaths)
    (hp : ∀ p e, paths p e → ∃ q b, c.Path owns q ∧ p = q ++ b ∧
      (casePaths b e ∨ isExhaustive = false ∧ b = [] ∧ e = .normal)) :
    Sound owns K permitsCopies S state { state with
      flow := if isExhaustive then merged else merged.mergeContinuingPaths f f.count, loop } paths := by
  have he := checkExpression_effect c (checkCondition_ok hc).left hs.covers
  have hn x (hx : x ∈ state.scope) := (he.covers x hx).left
  have hm : Covers owns K state.scope merged := h.covered merged rfl
  have hcov : Covers owns K state.scope (if isExhaustive then merged else merged.mergeContinuingPaths f f.count) := by
    cases isExhaustive
    case true  => exact hm
    case false => exact hm.merge he.covers hn
  refine ⟨hcov, List.Subset.refl _, h.loop, fun p e hp' => ?_⟩
  obtain ⟨q, b, hq, rfl, hb⟩ := hp p e hp'
  refine (checkCondition_at hc hs.covers hf hq).append ?_
  rcases hb with hb | ⟨rfl, rfl, rfl⟩
  case inl =>
    refine (h.triple b e hb).consequence (fun _ h => h) fun s hs =>
      hs.mono (fun _ hr => ?_) (.refl h.loop.records)
    obtain ⟨_, ⟨⟩, hr⟩ := hr
    cases isExhaustive
    case true  => exact hr
    case false => exact hr.mergeLeft hm he.covers hn
  case inr => exact .nil fun s h => h.mergeRight hm he.covers hn

theorem checkVarDecl_ok {initializer : Option Expr}
    (h : checkStatement spelling owns returnType (.varDecl x initializer) state = .ok state') :
    x ∉ state.scope ∧ ∃ f, (∀ e, initializer = some e →
        checkInitializer spelling owns state.scope (owns x) e state.flow = .ok f) ∧
      (initializer = none → f = state.flow) ∧
      state' = { state with flow := f.registerVariable x initializer.isSome (owns x), scope := x :: state.scope } := by
  simp only [checkStatement] at h
  split at h
  case isTrue => cases h
  case isFalse hx =>
    cases initializer
    case none =>
      cases h
      exact ⟨hx, state.flow, fun _ h => (by cases h), fun _ => rfl, rfl⟩
    case some e =>
      obtain ⟨f, hf, ⟨⟩⟩ := ok_bind_iff.mp h
      exact ⟨hx, f, fun _ h => (by cases h; exact hf), fun h => (by cases h), rfl⟩

theorem checkSwitch_ok
    (h : checkStatement spelling owns returnType (.switchStmt c cases isExhaustive) state = .ok state') :
    ∃ f merged result, checkCondition spelling owns state.scope "switch expression must be integer, bool, or enum" c
        state.flow = .ok f ∧
      checkCases spelling owns returnType cases { state with flow := f } none = .ok (merged, result) ∧
      ((merged = none ∧ state' = result) ∨ ∃ m, merged = some m ∧
        state' = { result with flow := if isExhaustive then m else m.mergeContinuingPaths f f.count }) := by
  simp only [checkStatement, ok_bind_iff] at h
  obtain ⟨f, hc, ⟨merged, result⟩, hcases, h⟩ := h
  refine ⟨f, merged, result, hc, hcases, ?_⟩
  cases merged
  case none =>
    cases h
    exact .inl ⟨rfl, rfl⟩
  case some m =>
    cases h
    exact .inr ⟨m, rfl, rfl⟩

theorem checkCases_ok {state : CheckState} {merged : Option FlowState} {result : Option FlowState × CheckState}
    (h : checkCases spelling owns returnType (s :: ss) state merged = .ok result) :
    ∃ next, checkStatement spelling owns returnType s state = .ok next ∧
      checkCases spelling owns returnType ss { next with flow := state.flow }
        (some (mergeCase merged next.flow state.flow.count)) = .ok result := by
  simp only [checkCases, ok_bind_iff] at h
  exact h

theorem checkCases_isSome {state state' : CheckState} {merged merged' : Option FlowState} : (ss : List Stmt) →
    checkCases spelling owns returnType ss state merged = .ok (merged', state') →
    ss ≠ [] ∨ merged.isSome = true → merged'.isSome = true
  | [], h, hm => by
    cases h
    exact hm.resolve_left (absurd rfl)
  | s :: ss, h, hm => by
    obtain ⟨next, -, h⟩ := checkCases_ok h
    exact checkCases_isSome ss h (.inr rfl)

mutual

-- All statements but declarations are scopes of their own.
theorem checkStatement_scope {state state' : CheckState} : (s : Stmt) →
    checkStatement spelling owns returnType s state = .ok state' → s.Traceable owns permitsCopies →
    s.isVarDecl = false → state'.scope = state.scope
  | .simple _, h, _, _ | .returnStmt _, h, _, _ => by
    simp only [checkStatement, ok_bind_iff] at h
    obtain ⟨_, _, ⟨⟩⟩ := h
    rfl
  | .varDecl .., _, _, hd => by cases hd
  | .block _, h, _, _ => by
    simp only [checkStatement, ok_bind_iff] at h
    obtain ⟨_, _, ⟨⟩⟩ := h
    rfl
  | .ifStmt .., h, _, _ => by
    simp only [checkStatement, ok_bind_iff] at h
    obtain ⟨_, _, _, _, h⟩ := h
    split at h
    all_goals
      obtain ⟨_, _, ⟨⟩⟩ := ok_bind_iff.mp h
      rfl
  | .whileStmt .., h, _, _ | .forStmt .., h, _, _ => by
    obtain ⟨_, _, _, _, _, _, _, rfl⟩ := checkLoop_ok h
    rfl
  | .switchStmt c cases _, h, ht, _ => by
    obtain ⟨f, merged, result, -, h, hs⟩ := checkSwitch_ok h
    have hc := checkCases_scope cases h ht.right
    rcases hs with ⟨-, rfl⟩ | ⟨_, -, rfl⟩
    all_goals exact hc.left
  | .breakStmt, h, _, _ | .continueStmt, h, _, _ => by
    simp only [checkStatement] at h
    split at h <;> cases h
    rfl

theorem checkCases_scope {state state' : CheckState} {merged merged' : Option FlowState} : (ss : List Stmt) →
    checkCases spelling owns returnType ss state merged = .ok (merged', state') →
    TraceableCases owns permitsCopies ss → state'.scope = state.scope ∧ state'.flow = state.flow
  | [], h, _ => by
    cases h
    exact ⟨rfl, rfl⟩
  | s :: ss, h, ht => by
    obtain ⟨next, hs, h⟩ := checkCases_ok h
    have hn := checkStatement_scope s hs ht.right.left ht.left
    have hss := checkCases_scope ss h ht.right.right
    exact ⟨hss.left.trans hn, hss.right⟩

end

-- A switch without any cases is left by the value of its subject only.
theorem emptySwitch_sound (hs : Checkable owns K S state)
    (hc : checkCondition spelling owns state.scope message c state.flow = .ok f) (hf : c.Permitted owns permitsCopies) :
    Sound owns K permitsCopies S state { state with flow := f } ((Stmt.switchStmt c [] isExhaustive).Path owns) := by
  have he := checkExpression_effect c (checkCondition_ok hc).left hs.covers
  refine ⟨he.covers, List.Subset.refl _, .refl hs.records, ?_⟩
  rintro p e ⟨q, b, hq, rfl, hb⟩
  rcases hb with hb | ⟨-, rfl, rfl⟩
  case inl => cases hb
  case inr => exact (checkCondition_at hc hs.covers hf hq).append (.nil fun _ => id)

mutual

theorem checkStatement_sound {K : VariableId → Prop} {S : List VariableId} {state state' : CheckState} : (s : Stmt) →
    checkStatement spelling owns returnType s state = .ok state' → Checkable owns K S state → state.flow.reachable = true →
    s.Traceable owns permitsCopies → Sound owns K permitsCopies S state state' (s.Path owns)
  | .simple statement, h, hs, _, ht => by
    simp only [checkStatement, ok_bind_iff] at h
    obtain ⟨f, h, ⟨⟩⟩ := h
    exact checkSimple_sound h hs ht
  | .varDecl x none, h, hs, _, ht => by
    obtain ⟨hx, f, -, hf, rfl⟩ := checkVarDecl_ok h
    cases hf rfl
    exact declare_sound hs hx
  | .varDecl x (some e), h, hs, _, ht => by
    obtain ⟨-, f, hf, -, rfl⟩ := checkVarDecl_ok h
    exact bind_sound (hf e rfl) hs (ht e rfl)
  | .block statements, h, hs, hr, ht => by
    simp only [checkStatement, ok_bind_iff, hr] at h
    obtain ⟨result, h, ⟨⟩⟩ := h
    have h := checkStatements_sound statements h hs ht
    have hn x (hx : x ∈ state.scope) := (hs.covers x hx).left
    refine ⟨(h.covers.subset h.scope).truncateTo hn, List.Subset.refl _, h.loop, fun p e hp => ?_⟩
    refine (h.triple p e hp).consequence (fun _ h => h) fun s hp => hp.mono (fun _ hs => ?_) (.refl h.loop.records)
    exact ⟨hs.left, (hs.right.subset h.scope).truncateTo hn⟩
  | .ifStmt c thenBranch none, h, hs, hr, ht => by
    simp only [checkStatement, ok_bind_iff] at h
    obtain ⟨f, hc, thenState, hthen, _, ⟨⟩, ⟨⟩⟩ := h
    have he := checkExpression_effect c (checkCondition_ok hc).left hs.covers
    have h₁ := checkStatement_sound thenBranch hthen ⟨he.covers, hs.scope, hs.known, hs.records⟩ (he.reachable.trans hr) ht.right
    have h₂ : Sound owns K permitsCopies S { state with flow := f, loop := thenState.loop } _ _ :=
      skip_sound ⟨he.covers, hs.scope, hs.known, h₁.loop.records⟩
    refine branches_sound hs hc ht.left h₁ h₂ ?_
    rintro p e ⟨q, value, b, hq, -, rfl, hb⟩
    split at hb
    case isTrue  => exact ⟨q, b, hq, rfl, .inl hb⟩
    case isFalse => exact ⟨q, b, hq, rfl, .inr hb⟩
  | .ifStmt c thenBranch (some elseBranch), h, hs, hr, ht => by
    simp only [checkStatement, ok_bind_iff] at h
    obtain ⟨f, hc, thenState, hthen, elseState, helse, ⟨⟩⟩ := h
    have he := checkExpression_effect c (checkCondition_ok hc).left hs.covers
    have hr := he.reachable.trans hr
    have h₁ := checkStatement_sound thenBranch hthen ⟨he.covers, hs.scope, hs.known, hs.records⟩ hr ht.right.left
    have h₂ := checkStatement_sound elseBranch helse ⟨he.covers, hs.scope, hs.known, h₁.loop.records⟩ hr ht.right.right
    refine branches_sound hs hc ht.left h₁ h₂ ?_
    rintro p e ⟨q, value, b, hq, -, rfl, hb⟩
    split at hb
    case isTrue  => exact ⟨q, b, hq, rfl, .inl hb⟩
    case isFalse => exact ⟨q, b, hq, rfl, .inr hb⟩
  | .whileStmt c body, h, hs, hr, ht => by
    exact checkLoop_sound h hs hr (fun e he => by cases he; exact ht.left) (fun _ h => by cases h)
      fun K s s' hb hc hr => checkStatement_sound body hb hc hr ht.right
  | .forStmt c body post, h, hs, hr, ht => by
    exact checkLoop_sound h hs hr ht.left ht.right.right
      fun K s s' hb hc hr => checkStatement_sound body hb hc hr ht.right.left
  | .switchStmt c cases isExhaustive, h, hs, hr, ht => by
    obtain ⟨f, merged, result, hc, hcases, hm⟩ := checkSwitch_ok h
    have he := checkExpression_effect c (checkCondition_ok hc).left hs.covers
    have h' := checkCases_sound cases hcases ⟨he.covers, hs.scope, hs.known, hs.records⟩ (he.reachable.trans hr)
      (fun _ h => by cases h) ht.right
    obtain ⟨hscope, hflow⟩ := checkCases_scope cases hcases ht.right
    obtain ⟨flow, scope, loop⟩ := result
    dsimp only at hscope hflow
    subst hscope hflow
    rcases hm with ⟨rfl, rfl⟩ | ⟨m, rfl, rfl⟩
    case inl =>
      have hn : cases = [] := by
        by_contra hn
        exact Bool.false_ne_true (checkCases_isSome cases hcases (.inl hn))
      subst hn
      cases hcases
      exact emptySwitch_sound hs hc ht.left
    case inr =>
      refine switch_sound hs hc ht.left h' ?_
      rintro p e ⟨q, b, hq, rfl, hb⟩
      refine ⟨q, b, hq, rfl, hb.imp_right fun ⟨hx, hb⟩ => ⟨hx.resolve_left ?_, hb⟩⟩
      rintro rfl
      cases hcases
  | .breakStmt, h, hs, _, _ => by
    simp only [checkStatement] at h
    split at h <;> cases h
    case h_2 l hl => exact break_sound hs hl
  | .continueStmt, h, hs, _, _ => by
    simp only [checkStatement] at h
    split at h <;> cases h
    case h_2 l hl => exact continue_sound hs hl
  | .returnStmt none, h, hs, _, _ => by
    simp only [checkStatement, ok_bind_iff] at h
    obtain ⟨f, h, ⟨⟩⟩ := h
    cases checkReturn_none_ok h
    refine ⟨hs.covers, List.Subset.refl _, .refl hs.records, ?_⟩
    rintro _ _ ⟨rfl, rfl⟩
    exact .nil fun _ _ => True.intro
  | .returnStmt (some e), h, hs, _, ht => by
    simp only [checkStatement, ok_bind_iff] at h
    obtain ⟨f, h, ⟨⟩⟩ := h
    have ⟨b, h⟩ := checkReturn_some_ok h
    have ⟨hf, hn⟩ := ht e rfl
    exact return_sound h hs hf hn

theorem checkStatements_sound {K : VariableId → Prop} {S : List VariableId} {state state' : CheckState} : (ss : List Stmt) →
    checkStatements spelling owns returnType true ss state = .ok state' → Checkable owns K S state →
    TraceableStatements owns permitsCopies ss → Sound owns K permitsCopies S state state' (BlockPath owns ss)
  | [], h, hs, ht => by
    cases h
    refine ⟨hs.covers, List.Subset.refl _, .refl hs.records, ?_⟩
    rintro _ _ ⟨rfl, rfl⟩
    exact .nil fun _ => id
  | s :: ss, h, hs, ht => by
    simp only [checkStatements, Bool.true_and] at h
    split at h
    case isTrue => cases h
    case isFalse hr =>
      obtain ⟨next, hn, h⟩ := ok_bind_iff.mp h
      have h₁ := checkStatement_sound s hn hs (by simpa using hr) ht.left
      have h₂ := checkStatements_sound ss h (h₁.checkable hs) ht.right
      refine ⟨h₂.covers, List.Subset.trans h₁.scope h₂.scope, h₁.loop.trans h₂.loop, ?_⟩
      rintro p e ⟨a, e', ha, hp⟩
      split at hp
      case isTrue he =>
        obtain ⟨b, hb, rfl⟩ := hp
        exact (he ▸ h₁.triple a e' ha).append (h₂.triple b e hb)
      case isFalse he =>
        obtain ⟨rfl, rfl⟩ := hp
        exact (h₁.triple p e ha).consequence (fun _ h => h) fun s h => h.mono (fun hn => absurd hn he) h₂.loop

theorem checkCases_sound {K : VariableId → Prop} {S : List VariableId} {state state' : CheckState}
    {merged merged' : Option FlowState} : (ss : List Stmt) →
    checkCases spelling owns returnType ss state merged = .ok (merged', state') → Checkable owns K S state →
    state.flow.reachable = true → Covered owns K state.scope merged → TraceableCases owns permitsCopies ss →
    CasesSound owns K permitsCopies S state merged merged' state'.loop (CasesPath owns ss)
  | [], h, hs, _, hm, ht => by
    cases h
    exact ⟨hm, fun _ => id, .refl hs.records, fun _ _ h => by cases h⟩
  | s :: ss, h, hs, hr, hm, ht => by
    obtain ⟨result, hc, h⟩ := checkCases_ok h
    have hn x (hx : x ∈ state.scope) := (hs.covers x hx).left
    have h₁ := checkStatement_sound s hc hs hr ht.right.left
    have hscope := checkStatement_scope s hc ht.right.left ht.left
    have hcov := h₁.covers.subset h₁.scope
    have hm' := mergeCase_covers hm hcov hn
    have h₂ := checkCases_sound ss h ⟨hscope ▸ hs.covers, hscope ▸ hs.scope, hs.known, h₁.loop.records⟩ hr
      (fun f hf => by cases hf; exact hscope ▸ hm') ht.right.right
    rw [hscope] at h₂
    refine ⟨h₂.covered, fun s hr => h₂.recorded s ⟨_, rfl, hr.mergeCase hm hcov hn⟩, h₁.loop.trans h₂.loop, ?_⟩
    rintro p e (hp | hp)
    case inl =>
      refine (h₁.triple p e hp).consequence (fun _ h => h) fun s h => h.mono (fun _ ha => ?_) h₂.loop
      exact h₂.recorded s ⟨_, rfl, (ha.subset h₁.scope).mergeCase hm hcov hn⟩
    case inr => exact h₂.triple p e hp

end

end Statements

end Coglet.Ownership
