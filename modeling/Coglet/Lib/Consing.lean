import Mathlib.Data.List.Forall2
import Coglet.Lib.Interning

-- Tables whose entries refer to other entries of the same table. An entry stands for the tree that is below it.
namespace Coglet.Interning

-- The entries that are not looked up by their contents stand for themselves.
inductive Unfolding (σ : Type)
  | node (shape : σ) (children : List (Unfolding σ))
  | name (id : Nat)

section

variable {α σ : Type} (key : α → Prop) (shape : α → σ → Prop) (children : α → List Nat)

inductive Denotes (t : List α) : Nat → Unfolding σ → Prop
  | node (entry : t[i]? = some a) (keyed : key a) (shaped : shape a s)
      (length : (children a).length = trees.length)
      (below : ∀ (k c : Nat) (τ : Unfolding σ), (children a)[k]? = some c → trees[k]? = some τ → Denotes t c τ) :
      Denotes t i (.node s trees)
  | name (entry : t[i]? = some a) (unkeyed : ¬key a) : Denotes t i (.name i)

-- The children of an entry are entries before it.
def Descends (t : List α) : Prop :=
  ∀ (i : Nat) (a : α), t[i]? = some a → key a → ∀ c ∈ children a, c < i

end

variable {α σ : Type} {key : α → Prop} {shape shape' : α → σ → Prop} {children : α → List Nat} {t t' : List α}
  {i j : Nat} {a b : α} {τ τ' : Unfolding σ}

namespace Denotes

theorem node_iff : Denotes key shape children t i (.node s trees) ↔
    ∃ a, t[i]? = some a ∧ key a ∧ shape a s ∧ List.Forall₂ (Denotes key shape children t) (children a) trees := by
  constructor
  case mp =>
    intro h
    cases h with
    | node entry keyed shaped length below =>
      refine ⟨_, entry, keyed, shaped, List.forall₂_iff_get.mpr ⟨length, fun k h₁ h₂ => ?_⟩⟩
      exact below k _ _ (List.getElem?_eq_getElem h₁) (List.getElem?_eq_getElem h₂)
  case mpr =>
    rintro ⟨a, entry, keyed, shaped, h⟩
    refine .node entry keyed shaped h.length_eq fun k c τ hc ht => ?_
    obtain ⟨h₁, rfl⟩ := List.getElem?_eq_some_iff.mp hc
    obtain ⟨h₂, rfl⟩ := List.getElem?_eq_some_iff.mp ht
    exact h.get h₁ h₂

theorem lt_length (h : Denotes key shape children t i τ) : i < t.length := by
  cases h with
  | node entry | name entry => exact (List.getElem?_eq_some_iff.mp entry).1

-- Entries with the same tree are the same entry.
theorem injective (d : Distinct key t)
    (inj : ∀ a b s, key a → key b → shape a s → shape b s → children a = children b → a = b)
    (h₁ : Denotes key shape children t i τ) (h₂ : Denotes key shape children t j τ) : i = j := by
  induction h₁ generalizing j with
  | name => cases h₂; rfl
  | @node i a s trees entry keyed shaped length below ih =>
    cases h₂ with
    | @node _ b _ _ entry' keyed' shaped' length' below' =>
      have hc : children a = children b := by
        refine List.ext_getElem (length.trans length'.symm) fun k hk₁ hk₂ => ?_
        have ht : k < trees.length := length ▸ hk₁
        exact ih k _ trees[k] (List.getElem?_eq_getElem hk₁) (List.getElem?_eq_getElem ht)
          (below' k _ _ (List.getElem?_eq_getElem hk₂) (List.getElem?_eq_getElem ht))
      have hab := inj a b s keyed keyed' shaped shaped' hc
      subst hab
      exact d _ _ _ entry entry' keyed

-- An entry has one tree.
theorem unique (functional : ∀ a s s', shape a s → shape a s' → s = s')
    (h₁ : Denotes key shape children t i τ) (h₂ : Denotes key shape children t i τ') : τ = τ' := by
  induction h₁ generalizing τ' with
  | name entry unkeyed =>
    cases h₂ with
    | name => rfl
    | node entry' keyed =>
      cases entry.symm.trans entry'
      exact absurd keyed unkeyed
  | @node i a s trees entry keyed shaped length below ih =>
    cases h₂ with
    | name entry' unkeyed =>
      cases entry.symm.trans entry'
      exact absurd keyed unkeyed
    | @node _ b _ trees' entry' keyed' shaped' length' below' =>
      cases entry.symm.trans entry'
      have hs := functional a _ _ shaped shaped'
      subst hs
      congr
      refine List.ext_getElem (length.symm.trans length') fun k hk₁ hk₂ => ?_
      have hk : k < (children a).length := length ▸ hk₁
      exact ih k _ _ (List.getElem?_eq_getElem hk) (List.getElem?_eq_getElem hk₁)
        (below' k _ _ (List.getElem?_eq_getElem hk) (List.getElem?_eq_getElem hk₂))

theorem exists_trees {ids : List Nat} (h : ∀ c ∈ ids, ∃ τ, Denotes key shape children t c τ) :
    ∃ trees, List.Forall₂ (Denotes key shape children t) ids trees := by
  induction ids
  case nil => exact ⟨[], .nil⟩
  case cons c ids ih =>
    obtain ⟨τ, hτ⟩ := h c List.mem_cons_self
    obtain ⟨trees, ht⟩ := ih fun c hc => h c (List.mem_cons_of_mem _ hc)
    exact ⟨τ :: trees, .cons hτ ht⟩

-- Every entry has a tree.
theorem total (d : Descends key children t) (shaped : ∀ a ∈ t, key a → ∃ s, shape a s) (h : i < t.length) :
    ∃ τ, Denotes key shape children t i τ := by
  induction i using Nat.strongRecOn
  case ind i ih =>
    have hi := List.getElem?_eq_getElem h
    by_cases hk : key t[i]
    case neg => exact ⟨.name i, .name hi hk⟩
    case pos =>
      obtain ⟨s, hs⟩ := shaped t[i] (List.getElem_mem h) hk
      have ⟨trees, ht⟩ : ∃ trees, List.Forall₂ (Denotes key shape children t) (children t[i]) trees :=
        exists_trees fun c hc => ih c (d i _ hi hk c hc) (Nat.lt_trans (d i _ hi hk c hc) h)
      exact ⟨.node s trees, node_iff.mpr ⟨_, hi, hk, hs, ht⟩⟩

-- A tree stays the tree of its entry when the table grows.
theorem mono (e : Extends key t t') (hs : ∀ a s, shape a s → shape' a s) (h : Denotes key shape children t i τ) :
    Denotes key shape' children t' i τ := by
  induction h with
  | node entry keyed shaped length _ ih =>
    exact .node (e.keyed _ _ entry keyed) keyed (hs _ _ shaped) length ih
  | name entry unkeyed =>
    obtain ⟨b, hb, hk⟩ := e.unkeyed _ _ entry unkeyed
    exact .name hb hk

end Denotes

namespace Descends

theorem nil : Descends key children [] :=
  fun _ _ h => by simp at h

theorem append (d : Descends key children t) (h : key a → ∀ c ∈ children a, c < t.length) :
    Descends key children (t ++ [a]) := by
  intro i b hi hk c hc
  rw [List.getElem?_append] at hi
  split at hi
  case isTrue => exact d i b hi hk c hc
  case isFalse hl =>
    obtain ⟨_, rfl⟩ := List.getElem?_eq_some_iff.mp hi
    simp only [List.getElem_singleton] at hk hc
    exact Nat.lt_of_lt_of_le (h hk c hc) (Nat.not_lt.mp hl)

theorem set (d : Descends key children t) (kb : ¬key b) : Descends key children (t.set i b) := by
  intro j a hj hk c hc
  rw [List.getElem?_set] at hj
  split at hj
  case isTrue =>
    split at hj
    case isTrue =>
      cases hj
      exact absurd hk kb
    case isFalse => cases hj
  case isFalse => exact d j a hj hk c hc

end Descends

end Coglet.Interning
