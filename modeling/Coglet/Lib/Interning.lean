import Mathlib.Data.List.Basic

namespace Coglet.Interning

variable {α : Type} {key : α → Prop} {t t₁ t₂ t₃ : List α} {a b : α} {i j : Nat}

-- The entries that are looked up by their contents occur at most once.
def Distinct (key : α → Prop) (t : List α) : Prop :=
  ∀ (i j : Nat) (a : α), t[i]? = some a → t[j]? = some a → key a → i = j

-- A later state of a table. The entries that are looked up by their contents stay as they are, and
-- the other ones are replaced by entries that are not looked up either.
structure Extends (key : α → Prop) (t₁ t₂ : List α) : Prop where
  keyed   : ∀ (i : Nat) (a : α), t₁[i]? = some a → key a → t₂[i]? = some a
  unkeyed : ∀ (i : Nat) (a : α), t₁[i]? = some a → ¬key a → ∃ b, t₂[i]? = some b ∧ ¬key b

namespace Extends

theorem refl : Extends key t t where
  keyed _ _ h _   := h
  unkeyed _ a h k := ⟨a, h, k⟩

theorem trans (h₁ : Extends key t₁ t₂) (h₂ : Extends key t₂ t₃) : Extends key t₁ t₃ where
  keyed i a h k := h₂.keyed i a (h₁.keyed i a h k) k
  unkeyed i a h k := by
    have ⟨b, hb, kb⟩ := h₁.unkeyed i a h k
    exact h₂.unkeyed i b hb kb

theorem append (l : List α) : Extends key t (t ++ l) where
  keyed _ _ h _   := List.getElem?_append_left (List.getElem?_eq_some_iff.mp h).1 |>.trans h
  unkeyed _ a h k := ⟨a, List.getElem?_append_left (List.getElem?_eq_some_iff.mp h).1 |>.trans h, k⟩

theorem set (ha : t[i]? = some a) (ka : ¬key a) (kb : ¬key b) : Extends key t (t.set i b) where
  keyed j c h k := by
    have hij : i ≠ j := fun e => ka (Option.some.inj (ha.symm.trans (e ▸ h)) ▸ k)
    rw [List.getElem?_set_ne hij, h]
  unkeyed j c h k := by
    by_cases hij : i = j
    case pos => exact ⟨b, by subst hij; simp [(List.getElem?_eq_some_iff.mp h).1], kb⟩
    case neg => exact ⟨c, by rw [List.getElem?_set_ne hij, h], k⟩

theorem length_le (h : Extends key t₁ t₂) : t₁.length ≤ t₂.length := by
  by_contra hl
  have hlt : t₂.length < t₁.length := by omega
  have hi := List.getElem?_eq_getElem hlt
  by_cases k : key t₁[t₂.length]
  case pos => simpa using h.keyed _ _ hi k
  case neg =>
    have ⟨b, hb, _⟩ := h.unkeyed _ _ hi k
    simp at hb

end Extends

namespace Distinct

theorem nil : Distinct key [] :=
  fun _ _ _ h => by simp at h

theorem append (d : Distinct key t) (h : key a → a ∉ t) : Distinct key (t ++ [a]) := by
  intro i j b hi hj k
  rw [List.getElem?_append] at hi hj
  split at hi <;> split at hj
  case isTrue.isTrue => exact d i j b hi hj k
  case isTrue.isFalse =>
    have e : a = b := by simpa using (List.getElem?_eq_some_iff.mp hj).2
    exact absurd (List.mem_of_getElem? hi) (e ▸ h (e ▸ k))
  case isFalse.isTrue =>
    have e : a = b := by simpa using (List.getElem?_eq_some_iff.mp hi).2
    exact absurd (List.mem_of_getElem? hj) (e ▸ h (e ▸ k))
  case isFalse.isFalse =>
    have hi := (List.getElem?_eq_some_iff.mp hi).1
    have hj := (List.getElem?_eq_some_iff.mp hj).1
    simp at hi hj
    omega

theorem set (d : Distinct key t) (kb : ¬key b) : Distinct key (t.set i b) := by
  intro j l c hj hl k
  have hne : b ≠ c := fun e => kb (e ▸ k)
  rw [List.getElem?_set] at hj hl
  split at hj
  case isTrue => split at hj <;> simp_all
  case isFalse =>
    split at hl
    case isTrue => split at hl <;> simp_all
    case isFalse => exact d j l c hj hl k

end Distinct

section Find

variable {β : Type} [DecidableEq α] {f : β → α} {l : List β}

-- A linear search by contents
theorem find_cases (f : β → α) (l : List β) (a : α) :
    (∃ i, l.findIdx? (f · = a) = some i ∧ (l.map f)[i]? = some a) ∨ (l.findIdx? (f · = a) = none ∧ a ∉ l.map f) := by
  cases h : l.findIdx? (f · = a)
  case some i =>
    obtain ⟨hi, he, _⟩ := List.findIdx?_eq_some_iff_getElem.mp h
    exact .inl ⟨i, rfl, List.getElem?_eq_some_iff.mpr ⟨by simpa using hi, by simpa using of_decide_eq_true he⟩⟩
  case none =>
    refine .inr ⟨rfl, fun ha => ?_⟩
    obtain ⟨b, hb, rfl⟩ := List.mem_map.mp ha
    simpa using List.findIdx?_eq_none_iff.mp h b hb

theorem Distinct.find (d : Distinct key (l.map f)) (h : (l.map f)[i]? = some a) (k : key a) :
    l.findIdx? (f · = a) = some i := by
  obtain ⟨j, hj, ha⟩ | ⟨_, hn⟩ := find_cases f l a
  case inl => rw [hj, d i j a h ha k]
  case inr => exact absurd (List.mem_of_getElem? h) hn

end Find

section Intern

variable [DecidableEq α]

-- The index of the first entry that equals `a`, after adding one if there is none.
def intern (t : List α) (a : α) : Nat × List α :=
  match t.findIdx? (· = a) with
  | some i => (i, t)
  | none   => (t.length, t ++ [a])

theorem intern_cases (t : List α) (a : α) :
    (∃ i, intern t a = (i, t) ∧ t[i]? = some a) ∨ (intern t a = (t.length, t ++ [a]) ∧ a ∉ t) := by
  unfold intern
  split
  case h_1 i h =>
    obtain ⟨hi, he, _⟩ := List.findIdx?_eq_some_iff_getElem.mp h
    exact .inl ⟨i, rfl, List.getElem?_eq_some_iff.mpr ⟨hi, of_decide_eq_true he⟩⟩
  case h_2 h => exact .inr ⟨rfl, fun ha => by simpa using List.findIdx?_eq_none_iff.mp h a ha⟩

theorem intern_getElem? : (intern t a).2[(intern t a).1]? = some a := by
  obtain ⟨i, h, hi⟩ | ⟨h, _⟩ := intern_cases t a <;> simp_all

theorem intern_extends : Extends key t (intern t a).2 := by
  obtain ⟨i, h, _⟩ | ⟨h, _⟩ := intern_cases t a <;> rw [h]
  case inl => exact .refl
  case inr => exact .append _

theorem Distinct.intern (d : Distinct key t) : Distinct key (intern t a).2 := by
  obtain ⟨i, h, _⟩ | ⟨h, hn⟩ := intern_cases t a <;> rw [h]
  case inl => exact d
  case inr => exact d.append fun _ => hn

theorem length_intern_le : (intern t a).2.length ≤ t.length + 1 := by
  obtain ⟨i, h, _⟩ | ⟨h, _⟩ := intern_cases t a <;> simp [h]

end Intern
end Coglet.Interning
