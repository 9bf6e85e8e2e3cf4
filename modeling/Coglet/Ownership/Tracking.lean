import Coglet.Ownership.Execution

open Path

namespace Coglet.Ownership

namespace Expr

section

variable (owns : VariableId → Bool)

-- An owner itself is used as a value.
def isCopy (e : Expr) : Bool :=
  e.isResource owns && e.isLvalue

mutual

-- Owners are never used as branches of if-expressions.
def CopyFree : Expr → Prop
  | call arguments _ => CopyFreeArguments arguments
  | logical _ l r    => l.CopyFree ∧ r.CopyFree
  | ifExpr c a b     => (a.isCopy owns = false ∧ b.isCopy owns = false) ∧ c.CopyFree ∧ a.CopyFree ∧ b.CopyFree
  | _                => True

def CopyFreeArguments : List Expr → Prop
  | []      => True
  | e :: es => e.CopyFree ∧ CopyFreeArguments es

end

end

mutual

def uses : Expr → List VariableId
  | plain | known _             => []
  | name x | address x | move x => [x]
  | call arguments _            => usesOfArguments arguments
  | logical _ l r               => l.uses ++ r.uses
  | ifExpr c a b                => c.uses ++ a.uses ++ b.uses

def usesOfArguments : List Expr → List VariableId
  | []      => []
  | e :: es => e.uses ++ usesOfArguments es

end

mutual

def moves : Expr → List VariableId
  | plain | known _ | name _ | address _ => []
  | move x           => [x]
  | call arguments _ => movesOfArguments arguments
  | logical _ l r    => l.moves ++ r.moves
  | ifExpr c a b     => c.moves ++ a.moves ++ b.moves

def movesOfArguments : List Expr → List VariableId
  | []      => []
  | e :: es => e.moves ++ movesOfArguments es

end

mutual

-- The owners that are moved by the right operand of a short-circuit operator or by the second branch of
-- an if-expression. Their moves are forgotten on paths that are marked as unreachable.
def forgotten : Expr → List VariableId
  | call arguments _ => forgottenByArguments arguments
  | logical op l r   =>
    l.forgotten ++
      match l.compileTimeBool with
      | some b => if op.decidedBy b then [] else r.forgotten
      | none   => r.moves
  | ifExpr c a b     => c.forgotten ++ a.forgotten ++ b.moves
  | _                => []

def forgottenByArguments : List Expr → List VariableId
  | []      => []
  | e :: es => e.forgotten ++ forgottenByArguments es

end

mutual

-- No owner whose move is forgotten is used again.
def NoReuse : Expr → Prop
  | call arguments _ => NoReuseInArguments arguments
  | logical _ l r    => l.NoReuse ∧ r.NoReuse ∧ l.forgotten.Disjoint r.uses
  | ifExpr c a b     => c.NoReuse ∧ a.NoReuse ∧ b.NoReuse ∧ c.forgotten.Disjoint (a.uses ++ b.uses)
  | _                => True

def NoReuseInArguments : List Expr → Prop
  | []      => True
  | e :: es => e.NoReuse ∧ NoReuseInArguments es ∧ e.forgotten.Disjoint (usesOfArguments es)

end

end Expr

-- A variable is initialized.
def State.Has (owns : VariableId → Bool) (s : State) (x : VariableId) : Prop :=
  if owns x then s.owners x ≠ none else s.values x = true

-- The checker knows something about a variable. Variables of `K` that are no owners are known to be initialized.
def Tracked (owns : VariableId → Bool) (K : VariableId → Prop) (x : VariableId) (i : Initialization) : Prop :=
  i ≠ .none ∧ (owns x = false → K x → i = .definitelyInitialized)

def Covers (owns : VariableId → Bool) (K : VariableId → Prop) (scope : List VariableId) (flow : FlowState) : Prop :=
  ∀ x ∈ scope, x < flow.count ∧ flow.resourceOwner x = owns x ∧ Tracked owns K x (flow.initialized x)

-- A state is one of those that a flow state describes, except that the owners in `lost` might have
-- been moved without the checker having noticed.
structure Holds (owns : VariableId → Bool) (scope : List VariableId) (flow : FlowState) (lost : List VariableId)
    (temporaries : Nat) (s : State) : Prop where
  held  : ∀ x ∈ scope, x ∉ lost → flow.initialized x = .definitelyInitialized → s.Has owns x
  free  : flow.reachable → ∀ x ∈ scope, owns x → flow.initialized x = .definitelyUninitialized → s.owners x = none
  depth : s.temporaries.length = temporaries

theorem ok_bind_iff {x : Checked α} {f : α → Checked β} :
    (x >>= f) = .ok b ↔ ∃ a, x = .ok a ∧ f a = .ok b := by
  cases x
  case ok    => exact ⟨fun h => ⟨_, rfl, h⟩, fun ⟨_, h, h'⟩ => by cases h; exact h'⟩
  case error => exact ⟨nofun, fun ⟨_, h, _⟩ => nomatch h⟩

theorem union_eq_definitelyInitialized {a b : Initialization} (ha : a ≠ .none) (hb : b ≠ .none)
    (h : a.union b = .definitelyInitialized) : a = .definitelyInitialized ∧ b = .definitelyInitialized := by
  obtain ⟨a₁, a₂⟩ := a
  obtain ⟨b₁, b₂⟩ := b
  revert ha hb h
  revert a₁ a₂ b₁ b₂
  decide

theorem union_eq_definitelyUninitialized {a b : Initialization} (ha : a ≠ .none) (hb : b ≠ .none)
    (h : a.union b = .definitelyUninitialized) :
    a = .definitelyUninitialized ∧ b = .definitelyUninitialized := by
  obtain ⟨a₁, a₂⟩ := a
  obtain ⟨b₁, b₂⟩ := b
  revert ha hb h
  revert a₁ a₂ b₁ b₂
  decide

theorem union_self (a : Initialization) : a.union a = a := by
  simp [Initialization.union]

theorem union_ne_none {a b : Initialization} (ha : a ≠ .none) : a.union b ≠ .none := by
  obtain ⟨a₁, a₂⟩ := a
  obtain ⟨b₁, b₂⟩ := b
  revert ha
  revert a₁ a₂ b₁ b₂
  decide

section Flow

variable {owns : VariableId → Bool} {K : VariableId → Prop} {scope lost : List VariableId} {f g : FlowState} {n k : Nat}

theorem Covers.subset (h : Covers owns K scope f) (hs : scope' ⊆ scope) : Covers owns K scope' f :=
  fun x hx => h x (hs hx)

theorem Tracked.definitelyInitialized : Tracked owns K x .definitelyInitialized :=
  ⟨by decide, fun _ _ => rfl⟩

theorem Tracked.definitelyUninitialized (h : owns x = false → ¬K x) : Tracked owns K x .definitelyUninitialized :=
  ⟨by decide, fun ho hk => absurd hk (h ho)⟩

theorem Tracked.union (ha : Tracked owns K x a) (hb : Tracked owns K x b) : Tracked owns K x (a.union b) := by
  refine ⟨union_ne_none ha.left, fun ho hk => ?_⟩
  rw [ha.right ho hk, hb.right ho hk, union_self]

theorem Covers.set (h : Covers owns K scope f) (hi : Tracked owns K x i) : Covers owns K scope (f.set x i) := by
  intro y hy
  have ⟨hn, ho, hi'⟩ := h y hy
  refine ⟨hn, ho, ?_⟩
  by_cases hxy : y = x
  case pos => simpa [FlowState.set, hxy] using hi
  case neg => simpa [FlowState.set, hxy] using hi'

theorem Covers.register (h : Covers owns K scope f) (hk : b = true ∨ ¬K x) :
    Covers owns K (x :: scope) (f.registerVariable x b (owns x)) := by
  have hi : Tracked owns K x (if b then .definitelyInitialized else .definitelyUninitialized) := by
    cases b
    case true  => exact .definitelyInitialized
    case false => exact .definitelyUninitialized fun _ => hk.resolve_left Bool.false_ne_true
  intro y hy
  by_cases hxy : y = x
  case pos =>
    subst hxy
    exact ⟨Nat.lt_of_lt_of_le (Nat.lt_succ_self y) (Nat.le_max_right ..), by simp [FlowState.registerVariable],
      by simpa [FlowState.registerVariable, FlowState.set] using hi⟩
  case neg =>
    have ⟨hn, ho, hi⟩ := h.set hi y (by simpa [hxy] using hy)
    exact ⟨Nat.lt_of_lt_of_le hn (Nat.le_max_left ..),
      by simpa [FlowState.registerVariable, FlowState.set, hxy] using ho, hi⟩

theorem Covers.truncateTo (h : Covers owns K scope f) (hn : ∀ x ∈ scope, x < n) :
    Covers owns K scope (f.truncateTo n) := by
  intro x hx
  have ⟨_, ho, hi⟩ := h x hx
  simpa [FlowState.truncateTo, hn x hx, ho] using hi

theorem Covers.weaken (h : Covers owns K scope f) (hk : ∀ x ∈ scope, owns x = false → K' x → K x) :
    Covers owns K' scope f := by
  intro x hx
  have ⟨hn, ho, hi, hk'⟩ := h x hx
  exact ⟨hn, ho, hi, fun hx' hk'' => hk' hx' (hk x hx hx' hk'')⟩

theorem Holds.truncateTo (h : Holds owns scope f lost k s) (hn : ∀ x ∈ scope, x < n) :
    Holds owns scope (f.truncateTo n) lost k s where
  held x hx hl hi    := h.held x hx hl (by simpa [FlowState.truncateTo, hn x hx] using hi)
  free hr x hx ho hi := h.free hr x hx ho (by simpa [FlowState.truncateTo, hn x hx] using hi)
  depth              := h.depth

theorem merge_reachable : (f.mergeContinuingPaths g n).reachable = (f.reachable || g.reachable) := by
  cases hf : f.reachable <;> cases hg : g.reachable <;>
    simp [FlowState.mergeContinuingPaths, FlowState.truncateTo, hf, hg]

theorem merge_count : (f.mergeContinuingPaths g n).count = n := by
  cases hf : f.reachable <;> cases hg : g.reachable <;>
    simp [FlowState.mergeContinuingPaths, FlowState.truncateTo, hf, hg]

-- What a merge knows about a variable is what is known on the paths that continue.
theorem merge_initialized (hx : x < n) :
    (f.mergeContinuingPaths g n).initialized x =
      if f.reachable && g.reachable then (f.initialized x).union (g.initialized x)
      else if g.reachable then g.initialized x
      else f.initialized x := by
  cases hf : f.reachable <;> cases hg : g.reachable <;>
    simp [FlowState.mergeContinuingPaths, FlowState.truncateTo, hf, hg, hx]

theorem merge_resourceOwner (hx : x < n) (hf : f.resourceOwner x = b) (hg : g.resourceOwner x = b) :
    (f.mergeContinuingPaths g n).resourceOwner x = b := by
  cases hf : f.reachable <;> cases hg : g.reachable <;>
    simp [FlowState.mergeContinuingPaths, FlowState.truncateTo, *]

theorem Covers.merge (hf : Covers owns K scope f) (hg : Covers owns K scope g) (hn : ∀ x ∈ scope, x < n) :
    Covers owns K scope (f.mergeContinuingPaths g n) := by
  intro x hx
  have ⟨_, hfo, hfi⟩ := hf x hx
  have ⟨_, hgo, hgi⟩ := hg x hx
  refine ⟨merge_count ▸ hn x hx, merge_resourceOwner (hn x hx) hfo hgo, ?_⟩
  rw [merge_initialized (hn x hx)]
  split
  case isTrue => exact hfi.union hgi
  case isFalse =>
    split
    case isTrue  => exact hgi
    case isFalse => exact hfi

theorem Holds.mergeLeft (h : Holds owns scope f lost k s) (hr : g.reachable → f.reachable) (hf : Covers owns K scope f)
    (hg : Covers owns K scope g) (hn : ∀ x ∈ scope, x < n) :
    Holds owns scope (f.mergeContinuingPaths g n) lost k s := by
  refine ⟨fun x hx hl hi => ?_, fun hr' x hx ho hi => ?_, h.depth⟩
  all_goals
    have ⟨_, _, hfi⟩ := hf x hx
    have ⟨_, _, hgi⟩ := hg x hx
    rw [merge_initialized (hn x hx)] at hi
    cases hfr : f.reachable <;> cases hgr : g.reachable <;> simp [hfr, hgr] at hr hi
  case refine_1.true.true  => exact h.held x hx hl (union_eq_definitelyInitialized hfi.left hgi.left hi).left
  case refine_2.true.true  => exact h.free hfr x hx ho (union_eq_definitelyUninitialized hfi.left hgi.left hi).left
  case refine_2.false.false => simp [merge_reachable, hfr, hgr] at hr'
  case refine_2.true.false => exact h.free hfr x hx ho hi
  all_goals exact h.held x hx hl hi

theorem Holds.mergeRight (h : Holds owns scope g lost k s) (hr : g.reachable) (hf : Covers owns K scope f)
    (hg : Covers owns K scope g) (hn : ∀ x ∈ scope, x < n) :
    Holds owns scope (f.mergeContinuingPaths g n) lost k s := by
  refine ⟨fun x hx hl hi => ?_, fun _ x hx ho hi => ?_, h.depth⟩
  all_goals
    have ⟨_, _, hfi⟩ := hf x hx
    have ⟨_, _, hgi⟩ := hg x hx
    rw [merge_initialized (hn x hx)] at hi
    cases hfr : f.reachable <;> simp [hfr, hr] at hi
  case refine_1.true  => exact h.held x hx hl (union_eq_definitelyInitialized hfi.left hgi.left hi).right
  case refine_2.true  => exact h.free hr x hx ho (union_eq_definitelyUninitialized hfi.left hgi.left hi).right
  case refine_1.false => exact h.held x hx hl hi
  case refine_2.false => exact h.free hr x hx ho hi

end Flow

-- What the check of an expression does to the flow state: owners are moved, and nothing else.
structure Effect (owns : VariableId → Bool) (K : VariableId → Prop) (scope moved : List VariableId) (f g : FlowState) : Prop where
  reachable : g.reachable = f.reachable
  count     : g.count = f.count
  covers    : Covers owns K scope g
  unmoved   : ∀ x ∈ scope, x ∉ moved → g.initialized x = f.initialized x
  held      : ∀ x ∈ scope, g.initialized x = .definitelyInitialized → f.initialized x = .definitelyInitialized
  free      : ∀ x ∈ scope, f.initialized x = .definitelyUninitialized → g.initialized x = .definitelyUninitialized

namespace Effect

variable {owns : VariableId → Bool} {K : VariableId → Prop} {scope m m' : List VariableId} {f g h : FlowState}

theorem refl (hc : Covers owns K scope f) : Effect owns K scope m f f :=
  ⟨rfl, rfl, hc, fun _ _ _ => rfl, fun _ _ => id, fun _ _ => id⟩

theorem trans (h₁ : Effect owns K scope m f g) (h₂ : Effect owns K scope m' g h) : Effect owns K scope (m ++ m') f h where
  reachable := h₂.reachable.trans h₁.reachable
  count     := h₂.count.trans h₁.count
  covers    := h₂.covers
  unmoved x hx hm := by
    simp only [List.mem_append, not_or] at hm
    exact (h₂.unmoved x hx hm.right).trans (h₁.unmoved x hx hm.left)
  held x hx hi := h₁.held x hx (h₂.held x hx hi)
  free x hx hi := h₂.free x hx (h₁.free x hx hi)

theorem mono (h : Effect owns K scope m f g) (hm : m ⊆ m') : Effect owns K scope m' f g :=
  { h with unmoved := fun x hx hn => h.unmoved x hx fun hx' => hn (hm hx') }

theorem move (hc : Covers owns K scope f) (ho : owns x = true) : Effect owns K scope [x] f (f.markVariableUninitialized x) where
  reachable := rfl
  count     := rfl
  covers    := hc.set (.definitelyUninitialized fun h => by simp [ho] at h)
  unmoved y hy hm := by
    simp only [List.mem_singleton] at hm
    simp [FlowState.markVariableUninitialized, FlowState.set, hm]
  held y hy hi := by
    by_cases hxy : y = x
    case pos =>
      simp only [FlowState.markVariableUninitialized, FlowState.set, hxy, Function.update_self] at hi
      cases hi
    case neg => simpa [FlowState.markVariableUninitialized, FlowState.set, hxy] using hi
  free y hy hi := by
    by_cases hxy : y = x
    case pos => simp [FlowState.markVariableUninitialized, FlowState.set, hxy]
    case neg => simpa [FlowState.markVariableUninitialized, FlowState.set, hxy] using hi

theorem merge (hg : Effect owns K scope m f g) (hh : Effect owns K scope m' f h) :
    Effect owns K scope (m ++ m') f (g.mergeContinuingPaths h f.count) := by
  have hn x (hx : x ∈ scope) : x < f.count := hg.count ▸ (hg.covers x hx).left
  have hi x (hx : x ∈ scope) : (g.mergeContinuingPaths h f.count).initialized x =
      if f.reachable then (g.initialized x).union (h.initialized x) else g.initialized x := by
    rw [merge_initialized (hn x hx), hg.reachable, hh.reachable]
    cases f.reachable <;> rfl
  refine ⟨?_, merge_count, hg.covers.merge hh.covers hn, fun x hx hm => ?_, fun x hx h => ?_, fun x hx hu => ?_⟩
  case refine_1 => rw [merge_reachable, hg.reachable, hh.reachable, Bool.or_self]
  case refine_2 =>
    simp only [List.mem_append, not_or] at hm
    rw [hi x hx, hg.unmoved x hx hm.left, hh.unmoved x hx hm.right, union_self, ite_self]
  case refine_3 =>
    rw [hi x hx] at h
    split at h
    case isTrue =>
      exact hg.held x hx (union_eq_definitelyInitialized (hg.covers x hx).right.right.left (hh.covers x hx).right.right.left h).left
    case isFalse => exact hg.held x hx h
  case refine_4 => rw [hi x hx, hg.free x hx hu, hh.free x hx hu, union_self, ite_self]

end Effect

section Expressions

variable {spelling : VariableId → Name} {owns : VariableId → Bool} {K : VariableId → Prop} {permitsCopies : Bool}
  {scope lost : List VariableId} {f g : FlowState} {k : Nat}

theorem checkIdentifierRead_ok (h : checkIdentifierRead spelling owns scope f x = .ok u) :
    x ∈ scope ∧ f.initialized x = .definitelyInitialized := by
  unfold checkIdentifierRead at h
  split at h
  case isTrue => cases h
  case isFalse hx =>
    split at h
    case isTrue => cases h
    case isFalse hi => exact ⟨not_not.mp hx, by simpa [FlowState.variableIsInitialized] using hi⟩

-- Whatever is transferred is a temporary already.
theorem checkResourceTransfer_ok (h : checkResourceTransfer owns e = .ok u) : e.isCopy owns = false := by
  unfold checkResourceTransfer at h
  split at h
  case isTrue     => cases h
  case isFalse hc => simpa [Expr.isCopy] using hc

theorem copies_eq_nil (h : Expr.isCopy owns e = false) : e.copies owns = [] := by
  cases e
  case name x => simpa [Expr.isCopy, Expr.isResource, Expr.isLvalue, Expr.copies] using h
  all_goals rfl

theorem checkMove_ok (h : checkExpression spelling owns scope (.move x) f = .ok g) :
    x ∈ scope ∧ f.initialized x = .definitelyInitialized ∧ owns x = true ∧ g = f.markVariableUninitialized x := by
  simp only [checkExpression, ok_bind_iff] at h
  obtain ⟨_, hr, h⟩ := h
  split at h
  case isTrue => cases h
  case isFalse ho =>
    cases h
    have ⟨hx, hi⟩ := checkIdentifierRead_ok hr
    exact ⟨hx, hi, by simpa using ho, rfl⟩

-- The check of an operation with several operands, one after the other.
theorem checkLogical_ok (h : checkExpression spelling owns scope (.logical op l r) f = .ok g) :
    ∃ fl fr, checkExpression spelling owns scope l f = .ok fl ∧ checkExpression spelling owns scope r fl = .ok fr ∧
      l.isResource owns = false ∧ r.isResource owns = false ∧
      g = match l.compileTimeBool with
        | some b => if op.decidedBy b then fl else fr
        | none   => fl.mergeContinuingPaths fr fl.count := by
  simp only [checkExpression, ok_bind_iff] at h
  obtain ⟨fl, hl, fr, hr, h⟩ := h
  refine ⟨fl, fr, hl, hr, ?_⟩
  split at h
  case isTrue => cases h
  case isFalse hl' =>
    split at h
    case isTrue => cases h
    case isFalse hr' =>
      refine ⟨by simpa using hl', by simpa using hr', ?_⟩
      split at h <;> cases h <;> simp [*]

theorem checkIfExpr_ok (h : checkExpression spelling owns scope (.ifExpr c a b) f = .ok g) :
    ∃ fc fa fb, checkExpression spelling owns scope c f = .ok fc ∧ checkExpression spelling owns scope a fc = .ok fa ∧
      checkExpression spelling owns scope b fc = .ok fb ∧ c.isResource owns = false ∧ a.isResource owns = b.isResource owns ∧
      g = fa.mergeContinuingPaths fb fc.count := by
  simp only [checkExpression, ok_bind_iff] at h
  obtain ⟨fc, hc, h⟩ := h
  split at h
  case isTrue => cases h
  case isFalse hc' =>
    simp only [ok_bind_iff] at h
    obtain ⟨fa, ha, fb, hb, h⟩ := h
    split at h
    case isTrue => cases h
    case isFalse hr =>
      cases h
      exact ⟨fc, fa, fb, hc, ha, hb, by simpa using hc', by simpa using hr, rfl⟩

theorem checkArguments_ok (h : checkArguments spelling owns scope (e :: es) f = .ok g) :
    ∃ f', checkExpression spelling owns scope e f = .ok f' ∧ e.isCopy owns = false ∧
      checkArguments spelling owns scope es f' = .ok g := by
  simp only [checkArguments, ok_bind_iff] at h
  obtain ⟨f', he, _, ht, h⟩ := h
  exact ⟨f', he, checkResourceTransfer_ok ht, h⟩

mutual

theorem checkExpression_effect {f g : FlowState} : (e : Expr) →
    checkExpression spelling owns scope e f = .ok g → Covers owns K scope f → Effect owns K scope e.moves f g
  | .plain, h, hc | .known _, h, hc => by
    cases h
    exact .refl hc
  | .name x, h, hc | .address x, h, hc => by
    simp only [checkExpression, ok_bind_iff] at h
    obtain ⟨_, -, ⟨⟩⟩ := h
    exact .refl hc
  | .move x, h, hc => by
    obtain ⟨-, -, ho, rfl⟩ := checkMove_ok h
    exact .move hc ho
  | .call arguments _, h, hc => checkArguments_effect arguments (by simpa [checkExpression] using h) hc
  | .logical op l r, h, hc => by
    obtain ⟨fl, fr, hl, hr, -, -, rfl⟩ := checkLogical_ok h
    have hl := checkExpression_effect l hl hc
    have hr := checkExpression_effect r hr hl.covers
    split
    case h_1 =>
      split
      case isTrue  => exact hl.mono (List.subset_append_left ..)
      case isFalse => exact hl.trans hr
    case h_2 => exact hl.trans ((Effect.refl (m := []) hl.covers).merge hr)
  | .ifExpr c a b, h, hc => by
    obtain ⟨fc, fa, fb, hcc, ha, hb, -, -, rfl⟩ := checkIfExpr_ok h
    have hcc := checkExpression_effect c hcc hc
    have ha := checkExpression_effect a ha hcc.covers
    have hb := checkExpression_effect b hb hcc.covers
    exact (hcc.trans (ha.merge hb)).mono (by simp [Expr.moves])

theorem checkArguments_effect {f g : FlowState} : (es : List Expr) →
    checkArguments spelling owns scope es f = .ok g → Covers owns K scope f → Effect owns K scope (Expr.movesOfArguments es) f g
  | [], h, hc => by
    cases h
    exact .refl hc
  | e :: es, h, hc => by
    obtain ⟨f', he, -, hes⟩ := checkArguments_ok h
    have he := checkExpression_effect e he hc
    exact he.trans (checkArguments_effect es hes he.covers)

end

theorem Holds.subset (h : Holds owns scope f lost k s) (hs : scope' ⊆ scope) : Holds owns scope' f lost k s where
  held x hx    := h.held x (hs hx)
  free hr x hx := h.free hr x (hs hx)
  depth        := h.depth

-- The state of a single variable changes, and the checker takes notice.
theorem Holds.update (h : Holds owns scope f lost k s) {x : VariableId} {i : Initialization} {t : State}
    (ho : ∀ y, y ≠ x → t.owners y = s.owners y) (hv : ∀ y, y ≠ x → t.values y = s.values y)
    (hh : i = .definitelyInitialized → t.Has owns x)
    (hf : owns x → i = .definitelyUninitialized → t.owners x = none) (hd : t.temporaries.length = n) :
    Holds owns (x :: scope) (f.set x i) lost n t where
  held y hy hl hi := by
    by_cases hxy : y = x
    case pos =>
      subst hxy
      exact hh (by simpa [FlowState.set] using hi)
    case neg =>
      have := h.held y (by simpa [hxy] using hy) hl (by simpa [FlowState.set, hxy] using hi)
      unfold State.Has at this ⊢
      rwa [ho y hxy, hv y hxy]
  free hr y hy how hi := by
    by_cases hxy : y = x
    case pos =>
      subst hxy
      exact hf how (by simpa [FlowState.set] using hi)
    case neg =>
      rw [ho y hxy]
      exact h.free hr y (by simpa [hxy] using hy) how (by simpa [FlowState.set, hxy] using hi)
  depth := hd

theorem Holds.vacate (h : Holds owns scope f lost k s) (x : VariableId) (ts : List Resource) :
    Holds owns (x :: scope) (f.set x .definitelyUninitialized) lost ts.length (s.hold x none ts) :=
  h.update (fun y hy => by simp [State.hold, hy]) (fun _ _ => rfl) (fun h => by cases h)
    (fun _ _ => by simp [State.hold]) rfl

theorem Holds.occupy (h : Holds owns scope f lost k s) (hx : owns x = true) (r : Resource) (ts : List Resource) :
    Holds owns (x :: scope) (f.set x .definitelyInitialized) lost ts.length (s.hold x (some r) ts) :=
  h.update (fun y hy => by simp [State.hold, hy]) (fun _ _ => rfl) (fun _ => by simp [State.Has, State.hold, hx])
    (fun _ h => by cases h) rfl

theorem Holds.exists_resource (h : Holds owns scope f lost k s) (hx : x ∈ scope)
    (hi : f.initialized x = .definitelyInitialized) (hl : x ∉ lost) (ho : owns x = true) :
    ∃ r, s.owners x = some r := by
  have := h.held x hx hl hi
  simp only [State.Has, ho, ite_true] at this
  exact Option.ne_none_iff_exists'.mp this

theorem Holds.triple_read (hx : x ∈ scope) (hi : f.initialized x = .definitelyInitialized) (hl : x ∉ lost) :
    Triple (State.transfer permitsCopies) (Holds owns scope f lost k) [if owns x then .read x else .load x]
      (Holds owns scope f lost k) := by
  refine .single fun s h => ⟨s, ?_, h⟩
  cases ho : owns x
  case true =>
    have ⟨r, hr⟩ := h.exists_resource hx hi hl ho
    simp [State.transfer, State.step, hr]
  case false =>
    have := h.held x hx hl hi
    simp only [State.Has, ho, Bool.false_eq_true, ite_false] at this
    simp [State.transfer, State.step, this]

theorem Holds.triple_copy (hx : x ∈ scope) (hi : f.initialized x = .definitelyInitialized) (hl : x ∉ lost)
    (ho : owns x = true) (hp : permitsCopies = true) :
    Triple (State.transfer permitsCopies) (Holds owns scope f lost k) [.copy x]
      (Holds owns scope f lost (k + 1)) := by
  refine .single fun s h => ?_
  have ⟨r, hr⟩ := h.exists_resource hx hi hl ho
  exact ⟨{ s with temporaries := r :: s.temporaries }, by simp [State.transfer, State.step, hp, hr],
    h.held, h.free, by simp [h.depth]⟩

theorem Holds.triple_move (hx : x ∈ scope) (hi : f.initialized x = .definitelyInitialized) (hl : x ∉ lost)
    (ho : owns x = true) :
    Triple (State.transfer permitsCopies) (Holds owns scope f lost k) [.move x]
      (Holds owns scope (f.markVariableUninitialized x) lost (k + 1)) := by
  refine .single fun s h => ?_
  have ⟨r, hr⟩ := h.exists_resource hx hi hl ho
  have hv := h.vacate x (r :: s.temporaries)
  rw [List.length_cons, h.depth] at hv
  exact ⟨s.hold x none (r :: s.temporaries), by simp [State.transfer, State.step, hr],
    hv.subset (List.subset_cons_self x scope)⟩

theorem Holds.of_owners (h : Holds owns scope f lost k s) (ho : t.owners = s.owners) (hv : t.values = s.values)
    (hd : t.temporaries.length = n) : Holds owns scope f lost n t := by
  have hh x : t.Has owns x ↔ s.Has owns x := by rw [State.Has, State.Has, ho, hv]
  exact ⟨fun x hx hl hi => (hh x).mpr (h.held x hx hl hi), ho ▸ h.free, hd⟩

theorem Holds.exists_temporary (h : Holds owns scope f lost (k + 1) s) :
    ∃ r rs, s.temporaries = r :: rs ∧ rs.length = k :=
  List.exists_of_length_succ s.temporaries h.depth |>.imp fun _ ⟨rs, hs⟩ =>
    ⟨rs, hs, Nat.succ.inj (by simpa [hs] using h.depth)⟩

theorem Holds.triple_drop :
    Triple (State.transfer permitsCopies) (Holds owns scope f lost (k + 1)) [.drop] (Holds owns scope f lost k) := by
  refine .single fun s h => ?_
  obtain ⟨r, rs, hs, rfl⟩ := h.exists_temporary
  exact ⟨{ s with temporaries := rs }, by simp [State.transfer, State.step, hs], h.of_owners rfl rfl rfl⟩

theorem Holds.triple_declare :
    Triple (State.transfer permitsCopies) (Holds owns scope f lost k) [.declare x]
      (Holds owns (x :: scope) (f.registerVariable x false (owns x)) lost k) := by
  refine .single fun s h => ⟨_, rfl, ?_⟩
  have hv := h.update (x := x) (i := .definitelyUninitialized)
    (t := { s.hold x none s.temporaries with values := Function.update s.values x false })
    (fun y hy => by simp [State.hold, hy]) (fun y hy => by simp [hy]) (fun h => by cases h)
    (fun _ _ => by simp [State.hold]) h.depth
  exact ⟨hv.held, hv.free, hv.depth⟩

theorem Holds.triple_bind (hx : owns x = true) :
    Triple (State.transfer permitsCopies) (Holds owns scope f lost (k + 1)) [.bind x]
      (Holds owns (x :: scope) (f.registerVariable x true (owns x)) lost k) := by
  refine .single fun s h => ?_
  obtain ⟨r, rs, hs, rfl⟩ := h.exists_temporary
  have ho := h.occupy hx r rs
  exact ⟨_, by simp only [State.transfer, State.step, hs], ho.held, ho.free, rfl⟩

theorem Holds.triple_assign (hx : x ∈ scope) (hr : f.reachable = true) (ho : owns x = true)
    (hu : f.initialized x = .definitelyUninitialized) :
    Triple (State.transfer permitsCopies) (Holds owns scope f lost (k + 1)) [.assign x]
      (Holds owns scope (f.markVariableInitialized x) lost k) := by
  refine .single fun s h => ?_
  obtain ⟨r, rs, hs, rfl⟩ := h.exists_temporary
  have hh := (h.occupy ho r rs).subset (List.subset_cons_self x scope)
  exact ⟨_, by simp only [State.transfer, State.step, hs, h.free hr x hx ho hu], hh⟩

theorem Holds.store (h : Holds owns scope f lost k s) (hx : owns x = false) :
    Holds owns (x :: scope) (f.set x .definitelyInitialized) lost k
      { s with values := Function.update s.values x true } :=
  h.update (fun _ _ => rfl) (fun y hy => by simp [hy]) (fun _ => by simp [State.Has, hx])
    (fun _ h => by cases h) h.depth

theorem Holds.triple_store (ho : owns x = false) :
    Triple (State.transfer permitsCopies) (Holds owns scope f lost k) [.store x]
      (Holds owns scope (f.markVariableInitialized x) lost k) :=
  .single fun _ h => ⟨_, rfl, (h.store ho).subset (List.subset_cons_self x scope)⟩

theorem Holds.triple_define (ho : owns x = false) :
    Triple (State.transfer permitsCopies) (Holds owns scope f lost k) [.store x]
      (Holds owns (x :: scope) (f.registerVariable x true (owns x)) lost k) :=
  .single fun _ h => ⟨_, rfl, (h.store ho).held, (h.store ho).free, h.depth⟩

theorem Holds.triple_call (hn : result = .none ↔ returnsResource = false)
    (hp : ∀ i, result = .passed i → i < n) :
    Triple (State.transfer permitsCopies) (Holds owns scope f lost (k + n)) [.call n result]
      (Holds owns scope f lost (k + if returnsResource then 1 else 0)) := by
  refine .single fun s h => ?_
  have hd := h.depth
  have hle : n ≤ s.temporaries.length := by omega
  simp only [State.transfer, State.step, hle, ite_true]
  cases result
  case none =>
    simp only [true_iff] at hn
    exact ⟨_, rfl, h.of_owners rfl rfl (by simp [hn, hd])⟩
  case fresh =>
    have hn : returnsResource = true := by simpa using hn
    exact ⟨_, rfl, h.of_owners rfl rfl (by simp [hn, hd])⟩
  case passed i =>
    have hn : returnsResource = true := by simpa using hn
    have hi := hp i rfl
    have hr : (s.temporaries.take n)[i]? = some s.temporaries[i] := by
      rw [List.getElem?_take_of_lt hi, List.getElem?_eq_getElem]
    exact ⟨{ s with temporaries := s.temporaries[i] :: s.temporaries.drop n }, by simp [State.call, hr],
      h.of_owners rfl rfl (by simp [hn, hd])⟩

-- The temporaries that the evaluation of an expression leaves behind.
def Expr.results (owns : VariableId → Bool) (e : Expr) : Nat :=
  if e.isResource owns && !e.isLvalue then 1 else 0

theorem results_of_not_isResource (h : Expr.isResource owns e = false) : e.results owns = 0 := by
  simp [Expr.results, h]

theorem results_of_not_isCopy (h : Expr.isCopy owns e = false) :
    e.results owns = if e.isResource owns then 1 else 0 := by
  unfold Expr.isCopy at h
  unfold Expr.results
  cases hr : e.isResource owns <;> simp_all

-- On a path that is marked as unreachable, the checker loses track of owners.
def Expr.lostAfter (e : Expr) (flow : FlowState) (lost : List VariableId) : List VariableId :=
  if flow.reachable then lost else lost ++ e.forgotten

theorem Holds.mono (h : Holds owns scope f lost k s) (hs : lost ⊆ lost') : Holds owns scope f lost' k s :=
  { h with held := fun x hx hl => h.held x hx fun hx' => hl (hs hx') }

-- If neither of two paths is considered to continue, then the moves of the second one are lost.
theorem Holds.mergeUnreachable (h : Holds owns scope g lost k s) (hf : Effect owns K scope m c f) (hg : Effect owns K scope m' c g)
    (hr : c.reachable = false) : Holds owns scope (f.mergeContinuingPaths g c.count) (lost ++ m') k s := by
  have hn x (hx : x ∈ scope) : x < c.count := hf.count ▸ (hf.covers x hx).left
  refine ⟨fun x hx hl hi => ?_, fun hr' => ?_, h.depth⟩
  case refine_1 =>
    simp only [List.mem_append, not_or] at hl
    simp only [merge_initialized (hn x hx), hf.reachable, hg.reachable, hr, Bool.and_self, Bool.false_eq_true,
      ite_false] at hi
    exact h.held x hx hl.left ((hg.unmoved x hx hl.right).trans (hf.held x hx hi))
  case refine_2 => simp [merge_reachable, hf.reachable, hg.reachable, hr] at hr'

mutual

theorem forgotten_subset_moves : (e : Expr) → e.forgotten ⊆ e.moves
  | .plain | .known _ | .name _ | .address _ => List.Subset.refl _
  | .move _           => List.nil_subset _
  | .call arguments _ => forgottenByArguments_subset arguments
  | .logical op l r   => by
    refine List.append_subset.mpr
      ⟨List.Subset.trans (forgotten_subset_moves l) (List.subset_append_left ..), ?_⟩
    have hr := forgotten_subset_moves r
    split
    case h_1 =>
      split
      case isTrue  => exact List.nil_subset _
      case isFalse => exact List.Subset.trans hr (List.subset_append_right ..)
    case h_2 => exact List.subset_append_right ..
  | .ifExpr c a b     => by
    have hc := forgotten_subset_moves c
    have ha := forgotten_subset_moves a
    simp only [Expr.forgotten, Expr.moves]
    intro x
    simp only [List.mem_append]
    exact Or.imp_left (Or.imp (@hc x) (@ha x))

theorem forgottenByArguments_subset : (es : List Expr) →
    Expr.forgottenByArguments es ⊆ Expr.movesOfArguments es
  | []      => List.Subset.refl _
  | e :: es => by
    have he := forgotten_subset_moves e
    have hes := forgottenByArguments_subset es
    simp only [Expr.forgottenByArguments, Expr.movesOfArguments]
    intro x
    simp only [List.mem_append]
    exact Or.imp (@he x) (@hes x)

end

theorem subset_lostAfter (e : Expr) : lost ⊆ e.lostAfter f lost := by
  unfold Expr.lostAfter
  split
  case isTrue  => exact List.Subset.refl _
  case isFalse => exact List.subset_append_left ..

theorem lostAfter_disjoint {e : Expr} (hd : lost.Disjoint (e.uses ++ us))
    (hr : f.reachable = true ∨ e.forgotten.Disjoint us) : (e.lostAfter f lost).Disjoint us := by
  unfold Expr.lostAfter
  split
  case isTrue => exact fun x hx hu => hd hx (List.mem_append_right _ hu)
  case isFalse hf =>
    intro x hx hu
    rcases List.mem_append.mp hx with hx | hx
    case inl => exact hd hx (List.mem_append_right _ hu)
    case inr => exact hr.resolve_left hf hx hu

-- What is lost by the parts of an expression is lost by all of it.
theorem lostAfter_subset {e e' : Expr} (hf : e.forgotten ⊆ e'.forgotten) :
    e.lostAfter f lost ⊆ e'.lostAfter f lost := by
  unfold Expr.lostAfter
  split
  case isTrue  => exact List.Subset.refl _
  case isFalse =>
    exact List.append_subset.mpr
      ⟨List.subset_append_left .., List.Subset.trans hf (List.subset_append_right ..)⟩

theorem lostAfter_lostAfter_subset {e₁ e₂ e : Expr} (hr : g.reachable = f.reachable)
    (hf : e₁.forgotten ++ e₂.forgotten ⊆ e.forgotten) :
    e₂.lostAfter g (e₁.lostAfter f lost) ⊆ e.lostAfter f lost := by
  unfold Expr.lostAfter
  rw [hr]
  split
  case isTrue  => exact List.Subset.refl _
  case isFalse =>
    rw [List.append_assoc]
    exact List.append_subset.mpr
      ⟨List.subset_append_left .., List.Subset.trans hf (List.subset_append_right ..)⟩

-- A path whose last part is the second one of two alternatives.
theorem Holds.mergeSecond {e : Expr} (h : Holds owns scope g (e.lostAfter c lost) k s) (hf : Effect owns K scope m c f)
    (hg : Effect owns K scope e.moves c g) :
    Holds owns scope (f.mergeContinuingPaths g c.count) (if c.reachable then lost else lost ++ e.moves) k s := by
  have hn x (hx : x ∈ scope) : x < c.count := hf.count ▸ (hf.covers x hx).left
  unfold Expr.lostAfter at h
  split
  case isTrue hr =>
    rw [if_pos hr] at h
    exact h.mergeRight (hg.reachable.trans hr) hf.covers hg.covers hn
  case isFalse hr =>
    rw [if_neg hr] at h
    refine (h.mergeUnreachable hf hg (by simpa using hr)).mono ?_
    rw [List.append_assoc]
    exact List.append_subset.mpr ⟨List.subset_append_left .., List.append_subset.mpr
      ⟨List.Subset.trans (forgotten_subset_moves e) (List.subset_append_right ..),
      List.subset_append_right ..⟩⟩

theorem resources_cons (hc : Expr.isCopy owns e = false) :
    Expr.resources owns (e :: es) = e.results owns + Expr.resources owns es := by
  rw [results_of_not_isCopy hc]
  cases hr : e.isResource owns <;> simp [Expr.resources, hr, Nat.add_comm]

-- Using the value of an expression leaves a temporary behind if it is a resource. It might have to be copied.
theorem value_sound (h : checkExpression spelling owns scope e f = .ok g)
    (hc : permitsCopies = true ∨ e.isCopy owns = false) (hd : lost.Disjoint e.uses)
    (ht : Triple (State.transfer permitsCopies) (Holds owns scope f lost k) p
      (Holds owns scope g (e.lostAfter f lost) (k + e.results owns))) :
    Triple (State.transfer permitsCopies) (Holds owns scope f lost k) (p ++ e.copies owns)
      (Holds owns scope g (e.lostAfter f lost) (k + if e.isResource owns then 1 else 0)) := by
  cases hc' : e.isCopy owns
  case false =>
    rw [copies_eq_nil hc', List.append_nil, ← results_of_not_isCopy hc']
    exact ht
  case true =>
    cases e <;> simp only [Expr.isCopy, Expr.isResource, Expr.isLvalue, Bool.and_false, Bool.false_eq_true, Bool.and_true] at hc'
    case name x =>
      have hp := hc.resolve_right (by simp [Expr.isCopy, Expr.isResource, Expr.isLvalue, hc'])
      simp only [checkExpression, ok_bind_iff] at h
      obtain ⟨_, h, ⟨⟩⟩ := h
      have ⟨hx, hi⟩ := checkIdentifierRead_ok h
      have hl : x ∉ (Expr.name x).lostAfter f lost := by
        simp only [Expr.lostAfter, Expr.forgotten, List.append_nil, ite_self]
        exact fun hl => hd hl (List.mem_singleton_self x)
      have hk : k + (Expr.name x).results owns = k := by simp [Expr.results, Expr.isLvalue]
      have hv : (Expr.name x).copies owns = [.copy x] := by simp [Expr.copies, hc']
      have hr : (Expr.name x).isResource owns = true := hc'
      rw [hk] at ht
      rw [hv, hr]
      exact ht.append (Holds.triple_copy hx hi hl hc' hp)

mutual

theorem checkExpression_sound {f g : FlowState} {lost : List VariableId} {k : Nat} {p : List Event} :
    (e : Expr) → checkExpression spelling owns scope e f = .ok g → Covers owns K scope f →
    permitsCopies = true ∨ e.CopyFree owns → f.reachable = true ∨ e.NoReuse → lost.Disjoint e.uses →
    e.Path owns p →
    Triple (State.transfer permitsCopies) (Holds owns scope f lost k) p
      (Holds owns scope g (e.lostAfter f lost) (k + e.results owns))
  | .plain, h, hc, _, _, _, hp | .known _, h, hc, _, _, _, hp => by
    cases h
    cases hp
    exact .nil fun _ h => h.mono (subset_lostAfter _)
  | .name x, h, hc, _, _, hd, hp | .address x, h, hc, _, _, hd, hp => by
    simp only [checkExpression, ok_bind_iff] at h
    obtain ⟨_, h, ⟨⟩⟩ := h
    cases hp
    have ⟨hx, hi⟩ := checkIdentifierRead_ok h
    have hl : x ∉ lost := fun hl => hd hl (List.mem_singleton_self x)
    refine (Holds.triple_read hx hi hl).consequence (fun _ h => h) fun _ h => ?_
    simpa [Expr.results, Expr.isResource, Expr.isLvalue] using h.mono (subset_lostAfter _)
  | .move x, h, hc, _, _, hd, hp => by
    obtain ⟨hx, hi, ho, rfl⟩ := checkMove_ok h
    cases hp
    have hl : x ∉ lost := fun hl => hd hl (List.mem_singleton_self x)
    exact (Holds.triple_move hx hi hl ho).consequence (fun _ h => h) fun _ h => h.mono (subset_lostAfter _)
  | .call arguments returnsResource, h, hc, hf, hr, hd, hp => by
    obtain ⟨a, result, ha, hn, hi, rfl⟩ := hp
    refine .append (checkArguments_sound (b := returnsResource) arguments (by simpa [checkExpression] using h) hc hf hr hd ha) ?_
    rw [results_of_not_isCopy (by simp [Expr.isCopy, Expr.isLvalue])]
    exact Holds.triple_call hn hi
  | .logical op l r, h, hc, hf, hr, hd, hp => by
    obtain ⟨fl, fr, hl, hr', hl', hrr, rfl⟩ := checkLogical_ok h
    obtain ⟨pl, value, hpl, hm, hp⟩ := hp
    have hle := checkExpression_effect l hl hc
    have hre := checkExpression_effect r hr' hle.covers
    have hn x (hx : x ∈ scope) : x < fl.count := (hle.covers x hx).left
    have h₁ := checkExpression_sound (k := k) l hl hc (hf.imp_right (·.left)) (hr.imp_right (·.left))
      (fun x hx hu => hd hx (List.mem_append_left _ hu)) hpl
    rw [results_of_not_isResource hl', Nat.add_zero] at h₁
    have h₂ q (hq : r.Path owns q) := checkExpression_sound (k := k) r hr' hle.covers (hf.imp_right (·.right))
      (hle.reachable ▸ hr.imp_right (·.right.left)) (lostAfter_disjoint hd (hr.imp_right (·.right.right))) hq
    simp only [results_of_not_isResource hrr, Nat.add_zero] at h₂
    have hk : (Expr.logical op l r).results owns = 0 := rfl
    rw [hk, Nat.add_zero]
    cases hb : l.compileTimeBool
    case some b =>
      obtain rfl : b = value := by
        simp only [Expr.mayBe, hb] at hm
        cases b <;> cases value <;> simp_all
      dsimp only
      split at hp
      case isTrue hv =>
        subst hp
        rw [if_pos hv]
        exact h₁.consequence (fun _ h => h) fun _ h => h.mono (lostAfter_subset (List.subset_append_left ..))
      case isFalse hv =>
        obtain ⟨q, hq, rfl⟩ := hp
        rw [if_neg hv]
        refine (h₁.append (h₂ q hq)).consequence (fun _ h => h) fun _ h =>
          h.mono (lostAfter_lostAfter_subset hle.reachable ?_)
        simp [Expr.forgotten, hb, hv]
    case none =>
      split at hp
      case isTrue hv =>
        subst hp
        refine h₁.consequence (fun _ h => h) fun _ h =>
          Holds.mono (h.mergeLeft (hre.reachable ▸ id) hle.covers hre.covers hn)
            (lostAfter_subset (List.subset_append_left ..))
      case isFalse hv =>
        obtain ⟨q, hq, rfl⟩ := hp
        refine (h₁.append (h₂ q hq)).consequence (fun _ h => h) fun _ h =>
          (h.mergeSecond (Effect.refl (m := []) hle.covers) hre).mono ?_
        rw [hle.reachable]
        unfold Expr.lostAfter
        split
        case isTrue  => exact List.Subset.refl _
        case isFalse => simp [Expr.forgotten, hb]
  | .ifExpr c a b, h, hc, hf, hr, hd, hp => by
    obtain ⟨fc, fa, fb, hcc, ha, hb, hc', hab, rfl⟩ := checkIfExpr_ok h
    obtain ⟨pc, value, hpc, -, hp⟩ := hp
    have hce := checkExpression_effect c hcc hc
    have hae := checkExpression_effect a ha hce.covers
    have hbe := checkExpression_effect b hb hce.covers
    have hn x (hx : x ∈ scope) : x < fc.count := (hce.covers x hx).left
    simp only [Expr.uses, List.append_assoc] at hd
    have hdab : (c.lostAfter f lost).Disjoint (a.uses ++ b.uses) :=
      lostAfter_disjoint hd (hr.imp_right (·.right.right.right))
    have hda : (c.lostAfter f lost).Disjoint a.uses := fun x hx hu => hdab hx (List.mem_append_left _ hu)
    have hdb : (c.lostAfter f lost).Disjoint b.uses := fun x hx hu => hdab hx (List.mem_append_right _ hu)
    have h₁ := checkExpression_sound (k := k) c hcc hc (hf.imp_right (·.right.left)) (hr.imp_right (·.left))
      (fun x hx hu => hd hx (List.mem_append_left _ hu)) hpc
    rw [results_of_not_isResource hc', Nat.add_zero] at h₁
    have hk : (Expr.ifExpr c a b).results owns = if a.isResource owns then 1 else 0 := by
      simp [Expr.results, Expr.isResource, Expr.isLvalue]
    rw [hk]
    cases value
    case true =>
      obtain ⟨q, hq, rfl⟩ := hp
      have h₂ := value_sound ha (hf.imp_right (·.left.left)) hda (checkExpression_sound (k := k) a ha hce.covers
        (hf.imp_right (·.right.right.left)) (hce.reachable ▸ hr.imp_right (·.right.left)) hda hq)
      refine (h₁.append h₂).consequence (fun _ h => h) fun _ h =>
        Holds.mono (h.mergeLeft (by rw [hae.reachable, hbe.reachable]; exact id) hae.covers hbe.covers hn)
          (lostAfter_lostAfter_subset hce.reachable ?_)
      exact List.subset_append_left ..
    case false =>
      obtain ⟨q, hq, rfl⟩ := hp
      have h₂ := value_sound hb (hf.imp_right (·.left.right)) hdb (checkExpression_sound (k := k) b hb hce.covers
        (hf.imp_right (·.right.right.right)) (hce.reachable ▸ hr.imp_right (·.right.right.left)) hdb hq)
      rw [hab]
      refine (h₁.append h₂).consequence (fun _ h => h) fun _ h => (h.mergeSecond hae hbe).mono ?_
      rw [hce.reachable]
      unfold Expr.lostAfter
      split
      case isTrue  => exact List.Subset.refl _
      case isFalse =>
        intro x
        simp only [Expr.forgotten, List.mem_append]
        tauto

theorem checkArguments_sound {f g : FlowState} {lost : List VariableId} {k : Nat} {p : List Event} {b : Bool} :
    (es : List Expr) → checkArguments spelling owns scope es f = .ok g → Covers owns K scope f →
    permitsCopies = true ∨ Expr.CopyFreeArguments owns es → f.reachable = true ∨ Expr.NoReuseInArguments es →
    lost.Disjoint (Expr.usesOfArguments es) → Expr.ArgumentsPath owns es p →
    Triple (State.transfer permitsCopies) (Holds owns scope f lost k) p
      (Holds owns scope g ((Expr.call es b).lostAfter f lost) (k + Expr.resources owns es))
  | [], h, hc, _, _, _, hp => by
    cases h
    cases hp
    exact .nil fun _ h => h.mono (subset_lostAfter _)
  | e :: es, h, hc, hf, hr, hd, hp => by
    obtain ⟨f', he, hl, hes⟩ := checkArguments_ok h
    obtain ⟨a, p, ha, hp, rfl⟩ := hp
    have hef := checkExpression_effect e he hc
    have h₁ := checkExpression_sound (k := k) e he hc (hf.imp_right (·.left)) (hr.imp_right (·.left))
      (fun x hx hu => hd hx (List.mem_append_left _ hu)) ha
    have h₂ := checkArguments_sound (k := k + e.results owns) (b := b) es hes hef.covers (hf.imp_right (·.right))
      (hef.reachable ▸ hr.imp_right (·.right.left)) (lostAfter_disjoint hd (hr.imp_right (·.right.right))) hp
    rw [copies_eq_nil hl, List.append_nil]
    refine (h₁.append h₂).consequence (fun _ h => h) fun _ h => ?_
    rw [resources_cons hl, ← Nat.add_assoc]
    exact h.mono (lostAfter_lostAfter_subset hef.reachable (List.Subset.refl _))

end

end Expressions

end Coglet.Ownership
