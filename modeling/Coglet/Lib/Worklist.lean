import Mathlib.Data.List.Infix

-- A list of items that is processed from its start to its end while the items that are processed append further ones.
namespace Worklist

variable {α σ ρ : Type} (items : σ → List α) (step : σ → α → σ × Option ρ)

-- A step returns early or goes on to the next item.
def run : Nat → Nat → σ → Option (σ × Option ρ)
  | 0, _, _ => none
  | fuel + 1, i, s =>
    match (items s)[i]? with
    | none => some (s, none)
    | some a =>
      match step s a with
      | (s, some value) => some (s, some value)
      | (s, none) => run fuel (i + 1) s

-- What may happen to the state while items are processed.
structure Growth where
  Grows  : σ → σ → Prop
  refl   : ∀ s, Grows s s
  trans  : ∀ {s₁ s₂ s₃}, Grows s₁ s₂ → Grows s₂ s₃ → Grows s₁ s₃
  append : ∀ {s s'}, Grows s s' → items s <+: items s'
  step   : ∀ s a, Grows s (step s a).1

variable {items step} {s s' : σ} {fuel fuel' i n : Nat} {result : Option ρ} {a : α}

theorem run_succ (ha : (items s)[i]? = some a) : run items step (fuel + 1) i s =
    if (step s a).2.isSome then some (step s a) else run items step fuel (i + 1) (step s a).1 := by
  simp only [run, ha]
  obtain ⟨s', value⟩ := step s a
  cases value
  case none => rfl
  case some => rfl

theorem run_end (h : (items s)[i]? = none) : run items step (fuel + 1) i s = some (s, none) := by
  rw [run, h]

theorem run_mono (h : run items step fuel i s = some (s', result)) (hf : fuel ≤ fuel') :
    run items step fuel' i s = some (s', result) := by
  induction fuel generalizing fuel' i s
  case zero => cases h
  case succ fuel hi =>
    obtain ⟨fuel', rfl⟩ := Nat.exists_eq_add_one.mpr (Nat.lt_of_lt_of_le (Nat.succ_pos fuel) hf)
    cases ha : (items s)[i]?
    case none =>
      rw [run_end ha] at h ⊢
      exact h
    case some a =>
      rw [run_succ ha] at h ⊢
      split at h
      case isTrue hv => rwa [if_pos hv]
      case isFalse hv =>
        rw [if_neg hv]
        exact hi h (Nat.le_of_succ_le_succ hf)

namespace Growth

variable (g : Growth items step)

include g in
theorem run_grows (h : run items step fuel i s = some (s', result)) : g.Grows s s' := by
  induction fuel generalizing i s
  case zero => cases h
  case succ fuel hi =>
    cases ha : (items s)[i]?
    case none =>
      rw [run_end ha] at h
      cases h
      exact g.refl _
    case some a =>
      rw [run_succ ha] at h
      split at h
      case isTrue =>
        have hs : (step s a).1 = s' := congrArg Prod.fst (Option.some.inj h)
        exact hs ▸ g.step s a
      case isFalse => exact g.trans (g.step s a) (hi h)

-- The bound on the items of the states that can be reached also bounds the steps.
theorem exists_run (hb : ∀ s', g.Grows s s' → (items s').length ≤ n) (hi : i ≤ (items s).length) (hf : n < fuel + i) :
    ∃ s' result, run items step fuel i s = some (s', result) := by
  induction fuel generalizing i s
  case zero =>
    have := hb s (g.refl s)
    omega
  case succ fuel ih =>
    cases ha : (items s)[i]?
    case none => exact ⟨_, _, run_end ha⟩
    case some a =>
      rw [run_succ ha]
      split
      case isTrue => exact ⟨_, _, rfl⟩
      case isFalse =>
        have hlt := (List.getElem?_eq_some_iff.mp ha).1
        have hle := (g.append (g.step s a)).length_le
        exact ih (fun s' h => hb s' (g.trans (g.step s a) h)) (Nat.lt_of_lt_of_le hlt hle) (by omega)

-- What a step establishes for its item and what later steps keep holds of all items at the end.
theorem run_all {P : σ → α → Prop} (keeps : ∀ {s s' a}, g.Grows s s' → P s a → P s' a)
    (establishes : ∀ {s a}, (step s a).2 = none → P (step s a).1 a)
    (h : run items step fuel i s = some (s', none)) (hp : ∀ a ∈ (items s).take i, P s a) :
    ∀ a ∈ items s', P s' a := by
  induction fuel generalizing i s
  case zero => cases h
  case succ fuel ih =>
    cases ha : (items s)[i]?
    case none =>
      rw [run_end ha] at h
      cases h
      rwa [List.take_of_length_le (List.getElem?_eq_none_iff.mp ha)] at hp
    case some a =>
      rw [run_succ ha] at h
      split at h
      case isTrue hv =>
        rw [Option.some.inj h] at hv
        cases hv
      case isFalse hv =>
        obtain ⟨hlt, rfl⟩ := List.getElem?_eq_some_iff.mp ha
        obtain ⟨rest, hr⟩ := g.append (g.step s (items s)[i])
        apply ih h
        intro b hb
        rw [← hr, List.take_append_of_le_length hlt, List.take_add_one, ha, List.mem_append] at hb
        cases hb
        case inl hb => exact keeps (g.step s _) (hp b hb)
        case inr hb =>
          cases List.mem_singleton.mp hb
          exact establishes (Option.not_isSome_iff_eq_none.mp hv)

end Growth

end Worklist
