import Coglet.Control.LowerStatement
import Coglet.Control.TraceExpression

open scoped Computability Matrix

namespace Coglet.Control

open Outcome BlockBuilder Graph Behaviour

variable {run : Statement Facts → LowerState → Except String LowerState} {σ σ' σ₁ σ₂ σ₃ outer : LowerState}
variable {g : Graph} {l l' : Language Event} {k : (Nat → Language Event) → Language Event} {r r₁ r₂ : Behaviour}
variable {ds old new : List (Statement Facts)} {blocks : Blocks} {b base : Nat} {c : Bool} {o : Ending}

-- What the deferred statements let happen, the latest comes first.
def undeferred (ds : List (Statement Facts)) : Language Event :=
  (ds.map fun d => d.runs .normal).prod

-- What happens when a statement of the state is left in another way than at its end.
def LowerState.jump (σ : LowerState) (next : Nat → Language Event) : Ending → Language Event
  | .normal   => 0
  | .break    => σ.loop.elim 0 fun loop =>
    undeferred (σ.deferred.take (σ.deferred.length - loop.deferBase)) * next loop.breakTarget
  | .continue => σ.loop.elim 0 fun loop =>
    undeferred (σ.deferred.take (σ.deferred.length - loop.deferBase)) * next loop.continueTarget
  | .return   => undeferred σ.deferred

-- What happens behind a statement of the state, if `l` does where it ends.
def LowerState.after (σ : LowerState) (next : Nat → Language Event) (l : Language Event) : Ending → Language Event :=
  Function.update (σ.jump next) .normal l

-- The lowering of code that cannot be left, in an open block.
structure Does (l : Language Event) (σ σ' : LowerState) : Prop where
  grows    : Grows σ.graph σ'.graph
  loop     : ∃ b, σ'.loop = σ.loop.map (·.breakIf b)
  deferred : σ'.deferred = σ.deferred
  closed   : ¬σ'.isOpen → l = 0
  tail (blocks : Blocks) : Within σ'.graph.blocks blocks →
    Unfolds (tail events blocks σ.graph) fun n => l * tail events blocks σ'.graph n

-- The lowering of a statement that runs like `r`, where jumps go on as they do in the state `outer`.
structure Follows (r : Behaviour) (outer σ σ' : LowerState) : Prop where
  grows  : Grows σ.graph σ'.graph
  loop   : ∃ b, σ'.loop = σ.loop.map (·.breakIf b) ∧ (b = false → r .break = 0)
  closed : ¬σ'.isOpen → r .normal = 0
  tail (blocks : Blocks) : Within σ'.graph.blocks blocks → Unfolds (tail events blocks σ.graph) fun n =>
    r ⬝ᵥ outer.after (events.upTo blocks n) (tail events blocks σ'.graph n)

-- The lowering of a jump.
structure Jumps (k : (Nat → Language Event) → Language Event) (σ σ' : LowerState) : Prop where
  leaves   : Leaves k σ.graph σ'.graph
  loop     : ∃ b, σ'.loop = σ.loop.map (·.breakIf b)
  deferred : σ'.deferred = σ.deferred

theorem exists_breakIf (h : σ'.loop = σ.loop) : ∃ b, σ'.loop = σ.loop.map (·.breakIf b) :=
  ⟨false, h.trans Rest.map_breakIf_false.symm⟩

theorem map_breakIf_map {loop : Option LoopContext} {b₁ b₂ : Bool} :
    (loop.map (·.breakIf b₁)).map (·.breakIf b₂) = loop.map (·.breakIf (b₁ || b₂)) := by
  simp [Function.comp_def, LoopContext.breakIf, Bool.or_assoc]

theorem exists_breakIf_trans (h₁ : ∃ b, σ₂.loop = σ₁.loop.map (·.breakIf b))
    (h₂ : ∃ b, σ₃.loop = σ₂.loop.map (·.breakIf b)) : ∃ b, σ₃.loop = σ₁.loop.map (·.breakIf b) := by
  obtain ⟨b₁, h₁⟩ := h₁
  obtain ⟨b₂, h₂⟩ := h₂
  exact ⟨b₁ || b₂, by rw [h₂, h₁, map_breakIf_map]⟩

section After

variable {next : Nat → Language Event}

theorem after_normal : σ.after next l .normal = l :=
  Function.update_self ..

theorem after_of_ne (h : o ≠ .normal) : σ.after next l o = σ.jump next o :=
  Function.update_of_ne h ..

theorem jump_congr {b : Bool} (hl : σ'.loop = σ.loop.map (·.breakIf b)) (hd : σ'.deferred = σ.deferred) :
    σ'.jump next = σ.jump next := by
  funext o
  cases o
  case normal => rfl
  case «return» => exact congrArg undeferred hd
  all_goals
    simp only [LowerState.jump, hl, hd]
    cases σ.loop <;> rfl

-- Nothing is known about what happens behind a statement that does not end normally.
theorem dotProduct_after (h : r .normal = 0) (l' : Language Event) :
    r ⬝ᵥ σ.after next l = r ⬝ᵥ σ.after next l' := by
  simp only [dotProduct_eq, h, zero_mul, after_of_ne, ne_eq, reduceCtorEq, not_false_eq_true]

end After

theorem undeferred_append : undeferred (new ++ old) = undeferred new * undeferred old := by
  rw [undeferred, List.map_append, List.prod_append, undeferred, undeferred]

theorem unfolds_after {next : Nat → Nat → Language Event} {f f' : Nat → Language Event} (h : Unfolds f f') :
    Unfolds (fun n => r ⬝ᵥ σ.after (next n) (f n)) fun n => r ⬝ᵥ σ.after (next n) (f' n) := by
  refine .dotProduct fun o => ?_
  by_cases ho : o = .normal
  case pos =>
    subst ho
    simpa only [after_normal] using h
  case neg =>
    simp only [after_of_ne ho]
    exact .refl

namespace Does

theorem refl (h : σ.isOpen) : Does 1 σ σ :=
  ⟨.refl, exists_breakIf rfl, rfl, absurd h, fun _ _ => .of_eq (funext fun _ => (one_mul _).symm)⟩

theorem trans (h₁ : Does l σ₁ σ₂) (h₂ : Does l' σ₂ σ₃) : Does (l * l') σ₁ σ₃ where
  grows         := h₁.grows.trans h₂.grows
  loop          := exists_breakIf_trans h₁.loop h₂.loop
  deferred      := h₂.deferred.trans h₁.deferred
  closed ho     := by rw [h₂.closed ho, mul_zero]
  tail blocks h := by
    simp only [mul_assoc]
    exact (h₁.tail blocks (h₂.grows.within.trans h)).trans (h₂.tail blocks h).mul

-- Nothing more happens in a closed block.
theorem stop (h : Does l σ₁ σ₂) (hc : ¬σ₂.isOpen) : Does (l * l') σ₁ σ₂ where
  grows          := h.grows
  loop           := h.loop
  deferred       := h.deferred
  closed _       := by rw [h.closed hc, zero_mul]
  tail blocks hw := by
    refine (h.tail blocks hw).trans (.of_eq (funext fun n => ?_))
    rw [h.closed hc, zero_mul, zero_mul, zero_mul]

theorem follows (h : Does l σ σ') : Follows (ends .normal l) outer σ σ' where
  grows          := h.grows
  loop           := h.loop.imp fun _ hl => ⟨hl, fun _ => ends_of_ne nofun⟩
  closed ho      := ends_self.trans (h.closed ho)
  tail blocks hw := by
    simp only [ends_dotProduct, after_normal]
    exact h.tail blocks hw

theorem leaves (h₁ : Does l σ₁ σ₂) (h₂ : Jumps k σ₂ σ₃) : Jumps (fun next => l * k next) σ₁ σ₃ where
  leaves.grows          := h₁.grows.trans h₂.leaves.grows
  leaves.closed         := h₂.leaves.closed
  leaves.tail blocks hw :=
    (h₁.tail blocks (h₂.leaves.grows.within.trans hw)).trans (h₂.leaves.tail blocks hw).mul
  loop                  := exists_breakIf_trans h₁.loop h₂.loop
  deferred              := h₂.deferred.trans h₁.deferred

end Does

theorem Jumps.follows (h : Jumps k σ σ') (ho : o ≠ .normal) (hb : o ≠ .break)
    (hk : ∀ next, k next = l * outer.jump next o) : Follows (ends o l) outer σ σ' where
  grows          := h.leaves.grows
  loop           := h.loop.imp fun _ hl => ⟨hl, fun _ => ends_of_ne hb.symm⟩
  closed _       := ends_of_ne ho.symm
  tail blocks hw := by
    simp only [ends_dotProduct, after_of_ne ho, ← hk]
    exact h.leaves.tail blocks hw

-- The jumps out of the first part run what was deferred in front of it.
theorem followed_after {next : Nat → Language Event}
    (hj : ∀ next, ∀ o ≠ .normal, σ.jump next o = l * outer.jump next o) :
    (r₁ ᵥ* followed r₂ l) ⬝ᵥ outer.after next l' = r₁ ⬝ᵥ σ.after next (r₂ ⬝ᵥ outer.after next l') := by
  rw [followed_dotProduct]
  congr 1
  funext o
  by_cases ho : o = .normal
  case pos =>
    subst ho
    rw [after_normal, Function.update_self]
  case neg => rw [after_of_ne ho, Function.update_of_ne ho, hj _ o ho, after_of_ne ho]

namespace Follows

theorem seq (h₁ : Follows r₁ σ₁ σ₁ σ₂) (h₂ : Follows r₂ outer σ₂ σ₃)
    (hj : ∀ next, ∀ o ≠ .normal, σ₁.jump next o = l * outer.jump next o) :
    Follows (r₁ ᵥ* followed r₂ l) outer σ₁ σ₃ where
  grows          := h₁.grows.trans h₂.grows
  loop           := by
    obtain ⟨b₁, hl₁, hb₁⟩ := h₁.loop
    obtain ⟨b₂, hl₂, hb₂⟩ := h₂.loop
    refine ⟨b₁ || b₂, by rw [hl₂, hl₁, map_breakIf_map], fun hb => ?_⟩
    have ⟨h₁, h₂⟩ := Bool.or_eq_false_iff.mp hb
    rw [followed_of_ne (by decide), hb₁ h₁, hb₂ h₂, mul_zero, zero_mul, add_zero]
  closed ho      := by rw [followed_normal, h₂.closed ho, mul_zero]
  tail blocks hw := by
    refine (h₁.tail blocks (h₂.grows.within.trans hw)).trans ((unfolds_after (h₂.tail blocks hw)).trans (.of_eq ?_))
    funext n
    rw [followed_after hj]

theorem stop (h : Follows r₁ σ₁ σ₁ σ₂) (hc : ¬σ₂.isOpen)
    (hj : ∀ next, ∀ o ≠ .normal, σ₁.jump next o = l * outer.jump next o) :
    Follows (r₁ ᵥ* followed r₂ l) outer σ₁ σ₂ where
  grows          := h.grows
  loop           := by
    obtain ⟨b, hl, hb⟩ := h.loop
    refine ⟨b, hl, fun he => ?_⟩
    rw [followed_of_ne (by decide), h.closed hc, hb he, zero_mul, zero_mul, add_zero]
  closed _       := by rw [followed_normal, h.closed hc, zero_mul]
  tail blocks hw := by
    refine (h.tail blocks hw).trans (.of_eq (funext fun n => ?_))
    rw [followed_after hj]
    exact dotProduct_after (h.closed hc) _

end Follows

theorem Follows.congr {outer' : LowerState} (h : Follows r outer σ σ')
    (hj : ∀ next, outer'.jump next = outer.jump next) : Follows r outer' σ σ' where
  grows          := h.grows
  loop           := h.loop
  closed         := h.closed
  tail blocks hw := by
    simp only [LowerState.after, hj]
    exact h.tail blocks hw

theorem onGraph_ensures {f : Graph → Except String Graph} {Q : Graph → Prop} (h : Ensures (f σ.graph) Q) :
    Ensures (σ.onGraph f) fun σ' => ∃ g, Q g ∧ σ' = { σ with graph := g } :=
  h.bind fun g hg => .ok ⟨g, hg, rfl⟩

theorem onGraph_does {f : Graph → Except String Graph} (h : Ensures (f σ.graph) (Emits l σ.graph)) (ho : σ.isOpen) :
    Ensures (σ.onGraph f) fun σ' => Does l σ σ' ∧ σ'.isOpen := by
  refine (onGraph_ensures h).mono fun _ ⟨g, hg, hσ⟩ => ?_
  subst hσ
  exact ⟨⟨hg.grows, exists_breakIf rfl, rfl, absurd (hg.isOpen ho), hg.tail⟩, hg.isOpen ho⟩

theorem onGraph_jumps {f : Graph → Except String Graph} (h : Ensures (f σ.graph) (Leaves k σ.graph)) :
    Ensures (σ.onGraph f) (Jumps k σ) := by
  refine (onGraph_ensures h).mono fun _ ⟨g, hg, hσ⟩ => ?_
  subst hσ
  exact ⟨hg, exists_breakIf rfl, rfl⟩

-- A closed block is not left for another one.
theorem fallTo_ensures : Ensures (σ.fallTo b) fun σ' => ∃ g, σ' = { σ with graph := g } ∧
    Leaves (fun next => if σ.isOpen then next b else 0) σ.graph g := by
  unfold LowerState.fallTo
  split
  case isTrue ho =>
    refine (onGraph_ensures setBranch_ensures).mono fun _ ⟨g, hg, hσ⟩ => ⟨g, hσ, hg.of_eq fun _ => ?_⟩
    rfl
  case isFalse ho =>
    exact .ok ⟨σ.graph, rfl, .refl, ho, fun _ _ => .of_eq (funext fun _ => tail_of_not_isOpen ho)⟩

-- Where a closed block was reached nothing is left to jump from.
theorem Does.close {f : Graph → Except String Graph} (h : Does l σ₁ σ₂)
    (hf : Ensures (f σ₂.graph) (Leaves k σ₂.graph)) :
    Ensures (if σ₂.isOpen then σ₂.onGraph f else .ok σ₂) (Jumps (fun next => l * k next) σ₁) := by
  split
  case isTrue => exact (onGraph_jumps hf).mono fun _ => h.leaves
  case isFalse hc =>
    refine .ok ⟨⟨h.grows, hc, fun blocks hw => ?_⟩, h.loop, h.deferred⟩
    refine (h.tail blocks hw).trans (.of_eq (funext fun n => ?_))
    rw [h.closed hc, zero_mul, zero_mul]

theorem Follows.fallTo (h : Follows r outer σ₁ σ₂) : Ensures (σ₂.fallTo b) fun σ₃ =>
    ∃ g, σ₃ = { σ₂ with graph := g } ∧ Leaves (fun next => r ⬝ᵥ outer.after next (next b)) σ₁.graph g := by
  refine fallTo_ensures.mono fun _ ⟨g, hσ, hg⟩ => ⟨g, hσ, h.grows.trans hg.grows, hg.closed, fun blocks hw => ?_⟩
  refine (h.tail blocks (hg.grows.within.trans hw)).trans ((unfolds_after (hg.tail blocks hw)).trans (.of_eq ?_))
  funext n
  by_cases ho : σ₂.isOpen
  case pos => rw [if_pos ho]
  case neg => exact dotProduct_after (h.closed ho) _

theorem Follows.unreachableIf (h : Follows r outer σ₁ σ₂) (hc : c → r .normal = 0) :
    Ensures (σ₂.setUnreachableIf c) fun σ₃ => Follows r outer σ₁ σ₃ ∧ σ₃.deferred = σ₂.deferred := by
  cases c
  case false => exact .ok ⟨h, rfl⟩
  case true =>
    refine (onGraph_ensures setTerminator_ensures).mono fun _ ⟨g, hg, hσ⟩ => ?_
    subst hσ
    refine ⟨⟨h.grows.trans hg.grows, h.loop, fun _ => hc rfl, fun blocks hw => ?_⟩, rfl⟩
    refine (h.tail blocks (hg.grows.within.trans hw)).trans (.of_eq (funext fun n => ?_))
    exact dotProduct_after (hc rfl) _

-- The statements that were deferred when the loop was entered are still deferred.
def LowerState.Nested (σ : LowerState) : Prop :=
  ∀ loop ∈ σ.loop, loop.deferBase ≤ σ.deferred.length

theorem LowerState.Nested.mono (h : σ.Nested) (hl : ∃ b, σ'.loop = σ.loop.map (·.breakIf b))
    (hd : σ.deferred.length ≤ σ'.deferred.length) : σ'.Nested := by
  obtain ⟨b, hl⟩ := hl
  intro loop hm
  rw [hl, Option.mem_map] at hm
  obtain ⟨loop', hm', rfl⟩ := hm
  exact (h loop' hm').trans hd

-- How a deferred statement is lowered where it is run.
def Undefers (run : Statement Facts → LowerState → Except String LowerState) (d : Statement Facts) : Prop :=
  ∀ σ : LowerState, σ.isOpen → σ.Nested → Ensures (run d σ) (Does (d.runs .normal) σ)

theorem runDeferred_does (h : ∀ d ∈ ds, Undefers run d) (ho : σ.isOpen) (hn : σ.Nested) :
    Ensures (runDeferred run ds σ) (Does (undeferred ds) σ) := by
  induction ds generalizing σ
  case nil => exact .ok (.refl ho)
  case cons d ds hi =>
    rw [List.forall_mem_cons] at h
    rw [runDeferred, if_pos ho]
    refine (h.1 σ ho hn).bind fun σ₁ h₁ => ?_
    by_cases ho₁ : σ₁.isOpen
    case pos =>
      have hn₁ : σ₁.Nested := hn.mono h₁.loop (congrArg List.length h₁.deferred).ge
      exact (hi h.2 ho₁ hn₁).mono fun _ h₂ => h₁.trans h₂
    case neg =>
      have hs : runDeferred run ds σ₁ = .ok σ₁ := by
        cases ds
        case nil => rfl
        case cons => exact if_neg ho₁
      exact hs ▸ .ok (h₁.stop ho₁)

theorem runDeferredFrom_does (h : ∀ d ∈ σ.deferred, Undefers run d) (ho : σ.isOpen) (hn : σ.Nested) :
    Ensures (runDeferredFrom run base σ) (Does (undeferred (σ.deferred.take (σ.deferred.length - base))) σ) :=
  runDeferred_does (fun d hd => h d (List.mem_of_mem_take hd)) ho hn

end Coglet.Control
