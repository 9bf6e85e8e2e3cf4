import Mathlib.Data.Finset.Card
import Mathlib.Data.List.Chain
import Mathlib.Logic.Function.Basic
import Mathlib.Logic.Relation

-- Depth-first search for cycles. Nodes that are being visited are grey, and an edge to a grey node is reported.
namespace DepthFirst

open Relation

inductive Color
  | white | grey | black
deriving DecidableEq, Repr

structure State (α ε : Type) where
  color   : α → Color
  reports : List (α × ε)

variable {α ε : Type} [DecidableEq α]

namespace State

variable (s : State α ε) (a : α) (e : ε)

def paint (c : Color) : State α ε :=
  { s with color := Function.update s.color a c }

def report : State α ε :=
  { s with reports := s.reports ++ [(a, e)] }

@[simp] theorem paint_reports (c : Color) : (s.paint a c).reports = s.reports := rfl

@[simp] theorem paint_self (c : Color) : (s.paint a c).color a = c := by
  simp [paint]

theorem paint_other (c : Color) (h : b ≠ a) : (s.paint a c).color b = s.color b := by
  simp [paint, h]

theorem report_reports_ne : (s.report a e).reports ≠ [] := by
  simp [report]

end State

section Search

variable (next : α → List (ε × α))

def follow (visit : State α ε → α → Option (State α ε)) (a : α) (s : State α ε) (edge : ε × α) :
    Option (State α ε) :=
  if s.color edge.2 = .grey then some (s.report a edge.1) else visit s edge.2

-- The fuel bounds the depth of the search.
def visit : Nat → State α ε → α → Option (State α ε)
  | 0, _, _ => none
  | fuel + 1, s, a =>
    if s.color a ≠ .white then some s
    else do
      let s ← (next a).foldlM (follow (visit fuel) a) (s.paint a .grey)
      some (s.paint a .black)

def search (fuel : Nat) (nodes : List α) : Option (State α ε) :=
  nodes.foldlM (fun s a => if s.color a = .white then visit next fuel s a else some s) ⟨fun _ => .white, []⟩

def Edge (a b : α) : Prop :=
  ∃ e, (e, b) ∈ next a

end Search

variable {next : α → List (ε × α)} {s s' : State α ε} {stack : List α} {a b : α}

section Invariant

-- The state while the nodes of the stack are being visited, the innermost one first.
structure Searching (next : α → List (ε × α)) (stack : List α) (s : State α ε) : Prop where
  grey    : ∀ a, s.color a = .grey ↔ a ∈ stack
  path    : stack.IsChain fun a b => Edge next b a
  sound   : s.reports ≠ [] → ∃ a, TransGen (Edge next) a a
  closed  : s.reports = [] → ∀ a b, s.color a = .black → Edge next a b → s.color b = .black
  acyclic : s.reports = [] → ∀ a, s.color a = .black → ¬TransGen (Edge next) a a

-- What a search does not undo.
structure Progress (s s' : State α ε) : Prop where
  black   : ∀ a, s.color a = .black → s'.color a = .black
  reports : s'.reports = [] → s.reports = []

theorem Progress.refl : Progress s s :=
  ⟨fun _ => id, id⟩

theorem Progress.trans (h₁ : Progress s₁ s₂) (h₂ : Progress s₂ s₃) : Progress s₁ s₃ :=
  ⟨fun a => h₂.black a ∘ h₁.black a, h₁.reports ∘ h₂.reports⟩

theorem reaches_head (h : (a :: stack).IsChain fun a b => Edge next b a) (hb : b ∈ a :: stack) :
    ReflTransGen (Edge next) b a := by
  induction stack generalizing a
  case nil => exact List.mem_singleton.mp hb ▸ .refl
  case cons c stack ih =>
    obtain ⟨hc, hs⟩ := List.isChain_cons_cons.mp h
    cases List.mem_cons.mp hb
    case inl hb => exact hb ▸ .refl
    case inr hb => exact .tail (ih hs hb) hc

theorem Searching.reaches (h : Searching next stack s) (hr : s.reports = []) (ha : s.color a = .black)
    (hp : ReflTransGen (Edge next) a b) : s.color b = .black := by
  induction hp
  case refl => exact ha
  case tail he ih => exact h.closed hr _ _ ih he

theorem Searching.enter (h : Searching next stack s) (hw : s.color a = .white)
    (hp : (a :: stack).IsChain fun a b => Edge next b a) : Searching next (a :: stack) (s.paint a .grey) := by
  have hc {b : α} : (s.paint a .grey).color b = .black ↔ s.color b = .black := by
    by_cases hb : b = a
    case pos => simp [hb, hw]
    case neg => rw [s.paint_other a _ hb]
  refine ⟨fun b => ?_, hp, h.sound, fun hr b c hb he => ?_, fun hr b hb => ?_⟩
  case refine_1 =>
    by_cases hb : b = a
    case pos => simp [hb]
    case neg => simp [s.paint_other a _ hb, h.grey b, hb]
  case refine_2 => exact hc.mpr (h.closed hr b c (hc.mp hb) he)
  case refine_3 => exact h.acyclic hr b (hc.mp hb)

theorem Searching.report (h : Searching next (a :: stack) s) (he : (e, b) ∈ next a) (hb : s.color b = .grey) :
    Searching next (a :: stack) (s.report a e) where
  grey    := h.grey
  path    := h.path
  sound _ := ⟨b, .tail' (reaches_head h.path ((h.grey b).mp hb)) ⟨e, he⟩⟩
  closed  := fun hr => absurd hr (s.report_reports_ne a e)
  acyclic := fun hr => absurd hr (s.report_reports_ne a e)

theorem Searching.leave (h : Searching next (a :: stack) s) (ha : a ∉ stack)
    (hn : s.reports = [] → ∀ b, Edge next a b → s.color b = .black) : Searching next stack (s.paint a .black) := by
  have hg : s.color a = .grey := (h.grey a).mpr List.mem_cons_self
  have hc {b : α} (hb : s.color b = .black) : (s.paint a .black).color b = .black := by
    by_cases he : b = a
    case pos => simp [he]
    case neg => rw [s.paint_other a _ he, hb]
  refine ⟨fun b => ?_, h.path.tail, h.sound, fun hr b c hb he => ?_, fun hr b hb => ?_⟩
  case refine_1 =>
    by_cases hb : b = a
    case pos => simp [hb, ha]
    case neg => simp [s.paint_other a _ hb, h.grey b, hb]
  case refine_2 =>
    by_cases hba : b = a
    case pos => exact hc (hn hr c (hba ▸ he))
    case neg => exact hc (h.closed hr b c (s.paint_other a _ hba ▸ hb) he)
  case refine_3 =>
    by_cases hba : b = a
    case neg => exact h.acyclic hr b (s.paint_other a _ hba ▸ hb)
    case pos =>
      subst hba
      intro ht
      obtain ⟨c, he, hp⟩ := TransGen.head'_iff.mp ht
      have := h.reaches hr (hn hr c he) hp
      rw [hg] at this
      cases this

end Invariant

section Soundness

-- What a visit of a node does while the nodes of the stack are being visited.
def Visits (next : α → List (ε × α)) (visit : State α ε → α → Option (State α ε)) : Prop :=
  ∀ s a s' stack, visit s a = some s' → Searching next stack s → s.color a ≠ .grey →
    (a :: stack).IsChain (fun a b => Edge next b a) →
      Searching next stack s' ∧ Progress s s' ∧ s'.color a = .black

theorem follow_spec {v : State α ε → α → Option (State α ε)} (hv : Visits next v) (he : (e, b) ∈ next a)
    (hf : follow v a s (e, b) = some s') (h : Searching next (a :: stack) s) :
    Searching next (a :: stack) s' ∧ Progress s s' ∧ (s'.reports = [] → s'.color b = .black) := by
  unfold follow at hf
  split at hf
  case isTrue hb =>
    cases hf
    exact ⟨h.report he hb, ⟨fun _ => id, fun hr => absurd hr (s.report_reports_ne a e)⟩,
      fun hr => absurd hr (s.report_reports_ne a e)⟩
  case isFalse hb =>
    obtain ⟨h', hp, hc⟩ := hv s b s' _ hf h hb (List.isChain_cons_cons.mpr ⟨⟨e, he⟩, h.path⟩)
    exact ⟨h', hp, fun _ => hc⟩

theorem foldl_spec {v : State α ε → α → Option (State α ε)} (hv : Visits next v) {edges : List (ε × α)}
    (he : edges ⊆ next a) (hf : edges.foldlM (follow v a) s = some s') (h : Searching next (a :: stack) s) :
    Searching next (a :: stack) s' ∧ Progress s s' ∧
      (s'.reports = [] → ∀ edge ∈ edges, s'.color edge.2 = .black) := by
  induction edges generalizing s
  case nil =>
    cases hf
    exact ⟨h, .refl, fun _ => nofun⟩
  case cons edge edges ih =>
    rw [List.foldlM_cons] at hf
    obtain ⟨s₁, h₁, hf⟩ := Option.bind_eq_some_iff.mp hf
    obtain ⟨hs, hp, hc⟩ := follow_spec hv (he List.mem_cons_self) h₁ h
    obtain ⟨hs', hp', hc'⟩ := ih (fun _ hm => he (List.mem_cons_of_mem _ hm)) hf hs
    refine ⟨hs', hp.trans hp', fun hr edge' hm => ?_⟩
    cases List.mem_cons.mp hm
    case inl hm => exact hm ▸ hp'.black _ (hc (hp'.reports hr))
    case inr hm => exact hc' hr edge' hm

theorem visit_spec (fuel : Nat) : Visits next (visit next fuel) := by
  induction fuel
  case zero => exact fun _ _ _ _ h => nomatch h
  case succ fuel ih =>
    intro s a s' stack hf h hg hp
    rw [visit] at hf
    split at hf
    case isTrue hw =>
      cases hf
      refine ⟨h, .refl, ?_⟩
      cases hc : s.color a <;> simp_all
    case isFalse hw =>
      have hw : s.color a = .white := not_not.mp hw
      obtain ⟨s₁, h₁, hf⟩ := Option.bind_eq_some_iff.mp hf
      cases hf
      obtain ⟨hs, hp', hc⟩ := foldl_spec ih (List.Subset.refl _) h₁ (h.enter hw hp)
      have ha : a ∉ stack := fun ha => hg ((h.grey a).mpr ha)
      refine ⟨hs.leave ha fun hr b ⟨e, he⟩ => hc hr _ he, ⟨fun b hb => ?_, hp'.reports⟩, State.paint_self ..⟩
      have hba : b ≠ a := fun hba => by simp [hba, hw] at hb
      rw [State.paint_other _ _ _ hba]
      exact hp'.black b ((s.paint_other a _ hba).trans hb)

end Soundness

section Termination

-- A node that was left or entered is never white again.
omit [DecidableEq α] in
theorem foldl_white {v : State α ε → α → Option (State α ε)}
    (hv : ∀ s a s', v s a = some s' → ∀ b, s'.color b = .white → s.color b = .white) {edges : List (ε × α)}
    (hf : edges.foldlM (follow v a) s = some s') (hb : s'.color b = .white) : s.color b = .white := by
  induction edges generalizing s
  case nil => cases hf; exact hb
  case cons edge edges ih =>
    rw [List.foldlM_cons] at hf
    obtain ⟨s₁, h₁, hf⟩ := Option.bind_eq_some_iff.mp hf
    have hw := ih hf
    unfold follow at h₁
    split at h₁
    case isTrue => cases h₁; exact hw
    case isFalse => exact hv _ _ _ h₁ b hw

theorem visit_white (fuel : Nat) (s : State α ε) (a : α) (s' : State α ε) (h : visit next fuel s a = some s') (b : α)
    (hb : s'.color b = .white) : s.color b = .white := by
  induction fuel generalizing s a s' b
  case zero => cases h
  case succ fuel ih =>
    rw [visit] at h
    split at h
    case isTrue => cases h; exact hb
    case isFalse =>
      obtain ⟨s₁, h₁, hf⟩ := Option.bind_eq_some_iff.mp h
      cases hf
      have hba : b ≠ a := fun hba => by simp [hba] at hb
      rw [State.paint_other _ _ _ hba] at hb
      have := foldl_white ih h₁ hb
      rwa [State.paint_other _ _ _ hba] at this

variable (nodes : Finset α)

def whites (s : State α ε) : Finset α :=
  nodes.filter fun a => s.color a = .white

variable {nodes}

omit [DecidableEq α] in
theorem whites_card_le (h : ∀ b, s'.color b = .white → s.color b = .white) :
    (whites nodes s').card ≤ (whites nodes s).card := by
  refine Finset.card_le_card fun b hb => ?_
  have hb := Finset.mem_filter.mp hb
  exact Finset.mem_filter.mpr ⟨hb.1, h b hb.2⟩

theorem whites_enter_card_lt (ha : a ∈ nodes) (hw : s.color a = .white) :
    (whites nodes (s.paint a .grey)).card < (whites nodes s).card := by
  refine Finset.card_lt_card ⟨fun b hb => ?_, fun hs => ?_⟩
  case refine_1 =>
    obtain ⟨hn, hb⟩ := Finset.mem_filter.mp hb
    have hba : b ≠ a := fun hba => by simp [hba] at hb
    exact Finset.mem_filter.mpr ⟨hn, State.paint_other _ _ _ hba ▸ hb⟩
  case refine_2 =>
    have := (Finset.mem_filter.mp (hs (Finset.mem_filter.mpr ⟨ha, hw⟩))).2
    simp at this

variable (hn : ∀ a ∈ nodes, ∀ edge ∈ next a, edge.2 ∈ nodes)

include hn

theorem visit_returns (fuel : Nat) (s : State α ε) (a : α) (ha : a ∈ nodes) (hf : (whites nodes s).card < fuel) :
    ∃ s', visit next fuel s a = some s' := by
  induction fuel generalizing s a
  case zero => exact absurd hf (Nat.not_lt_zero _)
  case succ fuel ih =>
    rw [visit]
    split
    case isTrue => exact ⟨s, rfl⟩
    case isFalse hw =>
      have hl := whites_enter_card_lt ha (not_not.mp hw)
      have hfold (edges : List (ε × α)) (he : edges ⊆ next a) (t : State α ε) (ht : (whites nodes t).card < fuel) :
          ∃ t', edges.foldlM (follow (visit next fuel) a) t = some t' := by
        induction edges generalizing t
        case nil => exact ⟨t, rfl⟩
        case cons edge edges ihe =>
          rw [List.foldlM_cons]
          have he' : edges ⊆ next a := fun _ hm => he (List.mem_cons_of_mem _ hm)
          by_cases hg : t.color edge.2 = .grey
          case pos =>
            rw [follow, if_pos hg]
            exact ihe he' _ ht
          case neg =>
            obtain ⟨t₁, h₁⟩ := ih t edge.2 (hn a ha edge (he List.mem_cons_self)) ht
            rw [follow, if_neg hg, h₁]
            exact ihe he' t₁ ((whites_card_le (visit_white fuel t _ t₁ h₁)).trans_lt ht)
      obtain ⟨t, ht⟩ := hfold (next a) (List.Subset.refl _) (s.paint a .grey) (by omega)
      exact ⟨t.paint a .black, by rw [ht]; rfl⟩

end Termination

section Search

theorem searching_initial : Searching next [] (⟨fun _ => .white, []⟩ : State α ε) where
  grey _          := by simp
  path            := .nil
  sound h         := absurd rfl h
  closed _ _ _ h  := nomatch h
  acyclic _ _ h   := nomatch h

theorem search_spec {fuel : Nat} {nodes : List α}
    (hf : nodes.foldlM (fun s a => if s.color a = .white then visit next fuel s a else some s) s = some s')
    (h : Searching next [] s) :
    Searching next [] s' ∧ Progress s s' ∧ ∀ a ∈ nodes, s'.color a = .black := by
  induction nodes generalizing s
  case nil =>
    cases hf
    exact ⟨h, .refl, nofun⟩
  case cons a nodes ih =>
    rw [List.foldlM_cons] at hf
    obtain ⟨s₁, h₁, hf⟩ := Option.bind_eq_some_iff.mp hf
    have hg : s.color a ≠ .grey := fun hg => by simpa using (h.grey a).mp hg
    have ⟨hs, hp, hc⟩ : Searching next [] s₁ ∧ Progress s s₁ ∧ s₁.color a = .black := by
      split at h₁
      case isTrue => exact visit_spec fuel s a s₁ [] h₁ h hg (.singleton a)
      case isFalse hw =>
        cases h₁
        refine ⟨h, .refl, ?_⟩
        cases hc : s.color a <;> simp_all
    obtain ⟨hs', hp', hc'⟩ := ih hf hs
    refine ⟨hs', hp.trans hp', fun b hb => ?_⟩
    cases List.mem_cons.mp hb
    case inl hb => exact hb ▸ hp'.black a hc
    case inr hb => exact hc' b hb

theorem search_returns {nodes : List α} (hn : ∀ a ∈ nodes, ∀ edge ∈ next a, edge.2 ∈ nodes) :
    ∃ s, search next (nodes.length + 1) nodes = some s := by
  have hall (l : List α) (hl : l ⊆ nodes) (s : State α ε) :
      ∃ s', l.foldlM (fun s a => if s.color a = .white then visit next (nodes.length + 1) s a else some s) s =
        some s' := by
    induction l generalizing s
    case nil => exact ⟨s, rfl⟩
    case cons a l ih =>
      rw [List.foldlM_cons]
      have hl' : l ⊆ nodes := fun _ hm => hl (List.mem_cons_of_mem _ hm)
      split
      case isFalse => exact ih hl' s
      case isTrue =>
        have hc : (whites nodes.toFinset s).card < nodes.length + 1 :=
          Nat.lt_succ_of_le ((Finset.card_filter_le _ _).trans nodes.toFinset_card_le)
        obtain ⟨s₁, h₁⟩ := visit_returns (by simpa using hn) _ s a (by simpa using hl List.mem_cons_self) hc
        rw [h₁]
        exact ih hl' s₁
  exact hall nodes (List.Subset.refl _) _

-- The search ends, and it reports an edge exactly if there is a cycle.
theorem search_reports_iff {nodes : List α} (hn : ∀ a ∈ nodes, ∀ edge ∈ next a, edge.2 ∈ nodes)
    (hs : ∀ a, next a ≠ [] → a ∈ nodes) :
    ∃ s, search next (nodes.length + 1) nodes = some s ∧ (s.reports ≠ [] ↔ ∃ a, TransGen (Edge next) a a) := by
  obtain ⟨s, h⟩ := search_returns hn
  obtain ⟨hi, _, hb⟩ := search_spec h searching_initial
  refine ⟨s, h, hi.sound, ?_⟩
  rintro ⟨a, ha⟩ hr
  obtain ⟨b, ⟨e, he⟩, _⟩ := TransGen.head'_iff.mp ha
  exact hi.acyclic hr a (hb a (hs a (List.ne_nil_of_mem he))) ha

end Search

end DepthFirst
