import Mathlib.Data.Finset.Card
import Mathlib.Logic.Relation

-- Repeated sweeps over the nodes of a graph that mark the successors of marked nodes.
namespace Marking

variable {α : Type*} [DecidableEq α] (next : α → List α)

def visit (marked : Finset α) (a : α) : Finset α :=
  if a ∈ marked then marked ∪ (next a).toFinset else marked

def sweep (nodes : List α) (marked : Finset α) : Finset α :=
  nodes.foldl (visit next) marked

section Sweep

variable {next} {nodes : List α} {marked : Finset α}

theorem subset_visit : marked ⊆ visit next marked a := by
  unfold visit
  split
  case isTrue  => exact Finset.subset_union_left
  case isFalse => exact Finset.Subset.refl _

theorem subset_sweep : marked ⊆ sweep next nodes marked := by
  unfold sweep
  induction nodes generalizing marked
  case nil       => exact Finset.Subset.refl _
  case cons _ hi => exact subset_visit.trans hi

theorem mem_visit (h : b ∈ visit next marked a) : b ∈ marked ∨ b ∈ next a := by
  unfold visit at h
  split at h
  case isTrue  => simpa using h
  case isFalse => exact .inl h

theorem mem_sweep (h : b ∈ sweep next nodes marked) : b ∈ marked ∨ ∃ a ∈ nodes, b ∈ next a := by
  unfold sweep at h
  induction nodes generalizing marked
  case nil => exact .inl h
  case cons a nodes hi =>
    cases hi h
    case inl h =>
      cases mem_visit h
      case inl h => exact .inl h
      case inr h => exact .inr ⟨a, by simp, h⟩
    case inr h =>
      obtain ⟨a', ha, hn⟩ := h
      exact .inr ⟨a', by simp [ha], hn⟩

-- If a sweep does not mark anything then the marked nodes are closed under successors.
theorem closed_of_sweep_eq (h : sweep next nodes marked = marked) (ha : a ∈ nodes) (hm : a ∈ marked)
    (hb : b ∈ next a) : b ∈ marked := by
  obtain ⟨before, after, rfl⟩ := List.append_of_mem ha
  have hs : sweep next (before ++ a :: after) marked =
      sweep next after (visit next (sweep next before marked) a) := by
    simp [sweep]
  have hv : b ∈ visit next (sweep next before marked) a := by
    rw [visit, if_pos (subset_sweep hm)]
    simp [hb]
  rw [← h, hs]
  exact subset_sweep hv

theorem unmarked_card_lt (h : sweep next nodes marked ≠ marked) :
    ((nodes.flatMap next).toFinset \ sweep next nodes marked).card <
      ((nodes.flatMap next).toFinset \ marked).card := by
  obtain ⟨b, hb, hn⟩ := Finset.exists_of_ssubset (Finset.ssubset_iff_subset_ne.mpr ⟨subset_sweep, h.symm⟩)
  apply Finset.card_lt_card
  apply Finset.ssubset_iff_subset_ne.mpr
  refine ⟨Finset.sdiff_subset_sdiff (Finset.Subset.refl _) subset_sweep, fun hc => ?_⟩
  have hm : b ∈ (nodes.flatMap next).toFinset \ marked := by
    have := (mem_sweep hb).resolve_left hn
    simpa [hn] using this
  rw [← hc] at hm
  exact (Finset.mem_sdiff.mp hm).right hb

end Sweep

-- Sweeps are repeated for as long as they mark something.
def saturate (nodes : List α) (marked : Finset α) : Finset α :=
  if sweep next nodes marked = marked then marked else saturate nodes (sweep next nodes marked)
termination_by ((nodes.flatMap next).toFinset \ marked).card
decreasing_by exact unmarked_card_lt ‹_›

section Saturate

variable {next} {nodes : List α} {marked : Finset α}

theorem subset_saturate : marked ⊆ saturate next nodes marked := by
  induction marked using saturate.induct next nodes
  case case1 h =>
    rw [saturate, if_pos h]
  case case2 h hi =>
    rw [saturate, if_neg h]
    exact subset_sweep.trans hi

theorem sweep_saturate : sweep next nodes (saturate next nodes marked) = saturate next nodes marked := by
  induction marked using saturate.induct next nodes
  case case1 h =>
    rw [saturate, if_pos h, h]
  case case2 h hi =>
    rw [saturate, if_neg h]
    exact hi

def Reachable (next : α → List α) : α → α → Prop :=
  Relation.ReflTransGen (fun a b => b ∈ next a)

theorem reachable_of_mem_visit (hm : ∀ c ∈ marked, Reachable next r c) (h : b ∈ visit next marked a) :
    Reachable next r b := by
  unfold visit at h
  split at h
  case isTrue ha =>
    cases Finset.mem_union.mp h
    case inl h => exact hm b h
    case inr h => exact .tail (hm a ha) (List.mem_toFinset.mp h)
  case isFalse => exact hm b h

theorem reachable_of_mem_sweep (hm : ∀ c ∈ marked, Reachable next r c) (h : b ∈ sweep next nodes marked) :
    Reachable next r b := by
  unfold sweep at h
  induction nodes generalizing marked
  case nil       => exact hm b h
  case cons _ hi => exact hi (fun _ => reachable_of_mem_visit hm) h

theorem reachable_of_mem_saturate (hm : ∀ c ∈ marked, Reachable next r c)
    (h : b ∈ saturate next nodes marked) : Reachable next r b := by
  induction marked using saturate.induct next nodes
  case case1 hs =>
    rw [saturate, if_pos hs] at h
    exact hm b h
  case case2 hs hi =>
    rw [saturate, if_neg hs] at h
    exact hi (fun _ => reachable_of_mem_sweep hm) h

-- Marking finds exactly the reachable nodes, provided that it sweeps over all of them.
theorem mem_saturate_iff (hn : ∀ a, Reachable next r a → a ∈ nodes) :
    a ∈ saturate next nodes {r} ↔ Reachable next r a := by
  constructor
  case mp =>
    intro h
    refine reachable_of_mem_saturate (fun c hc => ?_) h
    rw [Finset.mem_singleton.mp hc]
    exact .refl
  case mpr =>
    intro h
    induction h
    case refl => exact subset_saturate (Finset.mem_singleton_self r)
    case tail hr hb hi => exact closed_of_sweep_eq sweep_saturate (hn _ hr) hi hb

end Saturate
end Marking
