import Coglet.Ownership.Soundness

open Path

namespace Coglet.Ownership

-- Each resource is held once, either by an owner or by a temporary.
structure State.Linear (s : State) : Prop where
  unique      : s.Unique
  nodup       : s.temporaries.Nodup
  separate    : ∀ x r, s.owners x = some r → r ∉ s.temporaries
  ownersOld   : ∀ x r, s.owners x = some r → r < s.next
  temporaryOld : ∀ r ∈ s.temporaries, r < s.next

namespace State.Linear

variable {s s' : State}

theorem hold_none (h : s.Linear) (ht : ts.Sublist s.temporaries) : (s.hold x none ts).Linear := by
  have ho y r (hy : (s.hold x none ts).owners y = some r) : s.owners y = some r := by
    by_cases hxy : y = x <;> simp [State.hold, hxy] at hy
    exact hy
  exact {
    unique y z r hy hz := h.unique y z r (ho y r hy) (ho z r hz)
    nodup              := h.nodup.sublist ht
    separate y r hy hr := h.separate y r (ho y r hy) (ht.subset hr)
    ownersOld y r hy   := h.ownersOld y r (ho y r hy)
    temporaryOld r hr  := h.temporaryOld r (ht.subset hr)
  }

theorem hold_some (h : s.Linear) (hr : r < s.next) (hs : ∀ y, s.owners y ≠ some r) (ht : ts.Sublist s.temporaries)
    (hn : r ∉ ts) : (s.hold x (some r) ts).Linear := by
  have ho y r' (hy : (s.hold x (some r) ts).owners y = some r') : y = x ∧ r' = r ∨ s.owners y = some r' := by
    by_cases hxy : y = x
    case pos =>
      simp only [State.hold, hxy, Function.update_self, Option.some.injEq] at hy
      exact .inl ⟨hxy, hy.symm⟩
    case neg =>
      simp only [State.hold, ne_eq, hxy, not_false_eq_true, Function.update_of_ne] at hy
      exact .inr hy
  refine ⟨fun y z r' hy hz => ?_, h.nodup.sublist ht, fun y r' hy hr' => ?_, fun y r' hy => ?_,
    fun r' hr' => h.temporaryOld r' (ht.subset hr')⟩
  case refine_1 =>
    rcases ho y r' hy with ⟨rfl, rfl⟩ | hy' <;> rcases ho z r' hz with ⟨rfl, hr'⟩ | hz'
    case inl.inl => rfl
    case inl.inr => exact absurd hz' (hs z)
    case inr.inl => exact absurd (hr' ▸ hy') (hs y)
    case inr.inr => exact h.unique y z r' hy' hz'
  case refine_2 =>
    rcases ho y r' hy with ⟨rfl, rfl⟩ | hy
    case inl => exact hn hr'
    case inr => exact h.separate y r' hy (ht.subset hr')
  case refine_3 =>
    rcases ho y r' hy with ⟨rfl, rfl⟩ | hy
    case inl => exact hr
    case inr => exact h.ownersOld y r' hy

-- The latest temporary gets an owner.
theorem hold_temporary (h : s.Linear) (ht : s.temporaries = r :: rs) : (s.hold x (some r) rs).Linear := by
  have hn := h.nodup
  rw [ht] at hn
  exact h.hold_some (h.temporaryOld r (by simp [ht])) (fun y hy => h.separate y r hy (by simp [ht]))
    (ht ▸ List.sublist_cons_self r rs) (List.nodup_cons.mp hn).left

theorem temporaries_sublist (h : s.Linear) (ht : ts.Sublist s.temporaries) :
    ({ s with temporaries := ts } : State).Linear where
  unique            := h.unique
  nodup             := h.nodup.sublist ht
  separate x r hx   := fun hr => h.separate x r hx (ht.subset hr)
  ownersOld         := h.ownersOld
  temporaryOld r hr := h.temporaryOld r (ht.subset hr)

theorem temporaries_cons (h : s.Linear) (hs : ∀ y, s.owners y ≠ some r) (hr : r < s.next) (hn : r ∉ s.temporaries) :
    ({ s with temporaries := r :: s.temporaries } : State).Linear where
  unique   := h.unique
  nodup    := List.nodup_cons.mpr ⟨hn, h.nodup⟩
  separate x r' hx hr' := by
    rcases List.mem_cons.mp hr' with rfl | hr'
    case inl => exact hs x hx
    case inr => exact h.separate x r' hx hr'
  ownersOld := h.ownersOld
  temporaryOld r' hr' := by
    rcases List.mem_cons.mp hr' with rfl | hr'
    case inl => exact hr
    case inr => exact h.temporaryOld r' hr'

theorem move (h : s.Linear) (hx : s.owners x = some r) : (s.hold x none (r :: s.temporaries)).Linear := by
  refine (h.hold_none (x := x) (List.Sublist.refl _)).temporaries_cons (fun y hy => ?_) (h.ownersOld x r hx)
    (h.separate x r hx)
  by_cases hxy : y = x
  case pos => simp [State.hold, hxy] at hy
  case neg => exact hxy (h.unique y x r (by simpa [State.hold, hxy] using hy) hx)

theorem fresh (h : s.Linear) :
    ({ s with temporaries := s.next :: s.temporaries, next := s.next + 1 } : State).Linear := by
  have h' : ({ s with next := s.next + 1 } : State).Linear := {
    unique            := h.unique
    nodup             := h.nodup
    separate          := h.separate
    ownersOld x r hx  := Nat.lt_succ_of_lt (h.ownersOld x r hx)
    temporaryOld r hr := Nat.lt_succ_of_lt (h.temporaryOld r hr)
  }
  exact h'.temporaries_cons (fun y hy => Nat.lt_irrefl _ (h.ownersOld y _ hy)) (Nat.lt_succ_self _)
    fun hr => Nat.lt_irrefl _ (h.temporaryOld _ hr)

theorem call (h : s.Linear) (hc : s.call n result = some s') : s'.Linear := by
  have hd := List.drop_sublist n s.temporaries
  cases result
  case none =>
    cases hc
    exact h.temporaries_sublist hd
  case fresh =>
    cases hc
    exact (h.temporaries_sublist hd).fresh
  case passed i =>
    obtain ⟨r, hr, hc⟩ := Option.bind_eq_some_iff.mp hc
    cases hc
    have hm : r ∈ s.temporaries.take n := List.mem_of_getElem? hr
    have hr : r ∈ s.temporaries := List.mem_of_mem_take hm
    refine (h.temporaries_sublist hd).temporaries_cons (fun y hy => h.separate y r hy hr)
      (h.temporaryOld r hr) fun hn => ?_
    exact List.disjoint_take_drop h.nodup (Nat.le_refl n) hm hn

-- No event except for a copy lets a resource be held twice.
theorem transfer (h : s.Linear) (hs : State.transfer false e s = some s') : s'.Linear := by
  cases e <;> simp only [State.transfer, State.step] at hs
  case declare x =>
    cases hs
    have h := h.hold_none (x := x) (List.Sublist.refl _)
    exact ⟨h.unique, h.nodup, h.separate, h.ownersOld, h.temporaryOld⟩
  case load x =>
    split at hs <;> cases hs
    exact h
  case store x =>
    cases hs
    exact ⟨h.unique, h.nodup, h.separate, h.ownersOld, h.temporaryOld⟩
  case read x =>
    obtain ⟨r, -, hs⟩ := Option.bind_eq_some_iff.mp hs
    cases hs
    exact h
  case copy => cases hs
  case move x =>
    obtain ⟨r, hr, hs⟩ := Option.bind_eq_some_iff.mp hs
    cases hs
    exact h.move hr
  case bind x =>
    split at hs <;> cases hs
    case h_2 r rs ht => exact h.hold_temporary ht
  case assign x =>
    split at hs <;> cases hs
    case h_1 r rs ht _ => exact h.hold_temporary ht
  case call n result =>
    split at hs
    case isTrue  => exact h.call hs
    case isFalse => cases hs
  case drop =>
    split at hs <;> cases hs
    case h_2 r rs ht => exact h.temporaries_sublist (ht ▸ List.sublist_cons_self r rs)

end State.Linear

namespace Function

variable {owns : VariableId → Bool} {permitsCopies : Bool} {function : Function} {s : State}

def Traceable (owns : VariableId → Bool) (permitsCopies : Bool) (function : Function) : Prop :=
  TraceableStatements owns permitsCopies function.body

def Registered (owns : VariableId → Bool) (flow : FlowState) (x : VariableId) : Prop :=
  x < flow.count ∧ flow.resourceOwner x = owns x ∧ flow.initialized x = .definitelyInitialized

theorem registered_of_foldl {flow : FlowState} (xs : List VariableId) (h : x ∈ xs ∨ Registered owns flow x) :
    Registered owns (xs.foldl (fun flow x => flow.registerVariable x true (owns x)) flow) x := by
  induction xs generalizing flow
  case nil => exact h.resolve_left List.not_mem_nil
  case cons y ys hi =>
    refine hi ?_
    by_cases hxy : x = y
    case pos =>
      subst hxy
      exact .inr ⟨Nat.lt_of_lt_of_le (Nat.lt_succ_self x) (Nat.le_max_right ..),
        by simp [FlowState.registerVariable], by simp [FlowState.registerVariable, FlowState.set]⟩
    case neg =>
      refine h.imp (fun h => (List.mem_cons.mp h).resolve_left hxy) fun h => ?_
      obtain ⟨hn, ho, hi⟩ := h
      exact ⟨Nat.lt_of_lt_of_le hn (Nat.le_max_left ..), by simpa [FlowState.registerVariable, hxy] using ho,
        by simpa [FlowState.registerVariable, FlowState.set, hxy] using hi⟩

theorem start_registered (hx : x ∈ function.parameters) : Registered owns (function.start owns).flow x :=
  registered_of_foldl function.parameters (.inl hx)

theorem reachable_foldl {flow : FlowState} (xs : List VariableId) :
    (xs.foldl (fun flow x => flow.registerVariable x true (owns x)) flow).reachable = flow.reachable := by
  induction xs generalizing flow
  case nil          => rfl
  case cons y ys hi => exact hi

theorem start_checkable : Checkable owns (fun _ => False) [] (function.start owns) where
  covers x hx := by
    obtain ⟨hn, ho, hi⟩ := start_registered hx
    exact ⟨hn, ho, hi ▸ Tracked.definitelyInitialized⟩
  scope   := List.nil_subset _
  known   := fun _ h => h.elim
  records := fun _ h => by cases h

theorem Starts.at (h : function.Starts owns s) :
    At owns (function.start owns).scope (function.start owns).flow s := by
  obtain ⟨-, -, hp, ht⟩ := h
  refine ⟨reachable_foldl _, fun x hx _ _ => ?_, fun _ x hx _ hu => ?_, by simp [ht]⟩
  case refine_1 =>
    have := hp x hx
    unfold State.Has
    split at this <;> simp_all [Option.isSome_iff_ne_none]
  case refine_2 =>
    cases (start_registered hx).right.right.symm.trans hu

theorem Starts.linear (h : function.Starts owns s) : s.Linear := by
  obtain ⟨hu, hn, -, ht⟩ := h
  exact ⟨hu, by simp [ht], by simp [ht], hn, by simp [ht]⟩

end Function

section

variable {spelling : VariableId → Name} {owns : VariableId → Bool} {permitsCopies : Bool} {function : Function}
  {state : CheckState}

theorem checkFunctionBody_ok (h : checkFunctionBody spelling owns function = .ok state) :
    checkStatements spelling owns function.returnType true function.body (function.start owns) = .ok state ∧
    (state.flow.reachable = true → function.returnType = .void) := by
  simp only [checkFunctionBody, ok_bind_iff] at h
  obtain ⟨result, hr, h⟩ := h
  split at h
  case isTrue => cases h
  case isFalse hv =>
    cases h
    refine ⟨hr, fun hf => ?_⟩
    simpa [hf] using hv

theorem checkFunctionBody_triple (h : checkFunctionBody spelling owns function = .ok state)
    (ht : function.Traceable owns permitsCopies) (hs : function.Starts owns s)
    (hp : BlockPath owns function.body p exit) :
    ∃ t, run (State.transfer permitsCopies) p s = some t ∧
      Post owns (At owns state.scope state.flow) [] state.loop exit t :=
  (checkStatements_sound function.body (checkFunctionBody_ok h).left Function.start_checkable ht).triple p exit hp s
    hs.at

theorem step_of_transfer (h : State.transfer permitsCopies e s = some s') : State.step e s = some s' := by
  cases e
  case copy x =>
    simp only [State.transfer] at h
    split at h
    case isTrue  => exact h
    case isFalse => cases h
  all_goals exact h

-- A resource that is moved back and forth in a loop, which depends on a variable that is initialized in front of it.
def exchange : Function where
  parameters := [0]
  returnType := .resource
  body       := [
    .varDecl 1 none,
    .varDecl 2 none,
    .ifStmt .plain (.block [.simple (.assign 2 .plain)]) (some (.block [.simple (.assign 2 (.address 0))])),
    .whileStmt (.call [.name 2] false) (.block [
      .simple (.assign 1 (.move 0)),
      .ifStmt .plain (.block [.simple (.expr (.address 1))]) none,
      .simple (.assign 0 (.move 1))]),
    .returnStmt (some (.move 0))]

-- The only owner is the first variable.
def singleOwner : State where
  values _    := false
  owners x    := if x = 0 then some 0 else none
  temporaries := []
  next        := 1

theorem starts_singleOwner {function : Function} (hp : function.parameters = [0]) :
    function.Starts (fun _ => true) singleOwner := by
  refine ⟨fun x y r hx hy => ?_, fun x r hx => ?_, fun x hx => ?_, rfl⟩
  case refine_1 =>
    have hx := (Option.ite_none_right_eq_some.mp hx).left
    have hy := (Option.ite_none_right_eq_some.mp hy).left
    exact hx.trans hy.symm
  case refine_2 =>
    have hr : 0 = r := by simpa using (Option.ite_none_right_eq_some.mp hx).right
    exact hr ▸ Nat.zero_lt_one
  case refine_3 => simpa [hp, singleOwner] using hx

-- One of the branches of an if-expression is an owner, which is not moved.
def duplicate : Function where
  parameters := [0]
  returnType := .void
  body       := [.varDecl 1 (some (.ifExpr .plain (.name 0) (.call [] true)))]

-- Whether an owner has been moved by the first argument depends on a condition.
def moveTwice : Function where
  parameters := [0]
  returnType := .other
  body       := [.returnStmt (some (.call [
    .logical .andAnd .plain (.call [.move 0] false),
    .call [.move 0] false] false))]

end

end Coglet.Ownership
