import Mathlib.Data.List.TakeDrop

-- Text over any alphabet, in which a mark and the letter behind it stand for another letter.
namespace EscapedText

variable {α : Type} (mark : α) (escape : α → Option α)

inductive Denotes : List α → List α → Prop
  | nil : Denotes [] []
  | plain {c : α} {s t : List α} : c ≠ mark → Denotes s t → Denotes (c :: s) (c :: t)
  | escape {c d : α} {s t : List α} : escape c = some d → Denotes s t → Denotes (mark :: c :: s) (d :: t)

-- The text can be continued to one that denotes something.
def Viable (s : List α) : Prop :=
  ∃ u t, Denotes mark escape (s ++ u) t

-- The first letter with which the text cannot be continued. If there is none, the text stops too early.
structure FirstOffending (s : List α) (p : Nat) : Prop where
  inside : p < s.length
  before : Viable mark escape (s.take p)
  after  : Viable mark escape (s.take (p + 1)) → s.length = p + 1

-- The letters that the text denotes up to the position, if any, at which it goes wrong.
inductive Reads : List α → List α → Option Nat → Prop
  | nil : Reads [] [] none
  | plain {c : α} {s t : List α} {p : Option Nat} : c ≠ mark → Reads s t p → Reads (c :: s) (c :: t) (p.map (· + 1))
  | escape {c d : α} {s t : List α} {p : Option Nat} :
    escape c = some d → Reads s t p → Reads (mark :: c :: s) (d :: t) (p.map (· + 2))
  | unfinished : Reads [mark] [] (some 0)
  | unknown {c : α} {s : List α} : escape c = none → Reads (mark :: c :: s) [] (some 1)

variable {mark escape} {c d : α} {s t u : List α} {p q : Nat}

theorem exists_reads (s : List α) : ∃ t p, Reads mark escape s t p := by
  induction hn : s.length using Nat.strongRecOn generalizing s
  case ind n hi =>
    match s with
    | [] => exact ⟨_, _, .nil⟩
    | c :: s =>
      by_cases hc : c = mark
      case neg =>
        have ⟨t, p, h⟩ := hi s.length (by simp only [← hn, List.length_cons]; omega) s rfl
        exact ⟨_, _, .plain hc h⟩
      case pos =>
        subst hc
        match s with
        | [] => exact ⟨_, _, .unfinished⟩
        | e :: s =>
          cases he : escape e
          case none => exact ⟨_, _, .unknown he⟩
          case some d =>
            have ⟨t, p, h⟩ := hi s.length (by simp only [← hn, List.length_cons]; omega) s rfl
            exact ⟨_, _, .escape he h⟩

theorem Reads.denotes (h : Reads mark escape s t none) : Denotes mark escape s t := by
  generalize hp : (none : Option Nat) = p at h
  induction h
  case nil => exact .nil
  case plain hc _ hi => exact .plain hc (hi (Option.map_eq_none_iff.mp hp.symm).symm)
  case escape he _ hi => exact .escape he (hi (Option.map_eq_none_iff.mp hp.symm).symm)
  case unfinished => cases hp
  case unknown => cases hp

theorem Denotes.reads (h : Denotes mark escape s t) : Reads mark escape s t none := by
  induction h
  case nil => exact .nil
  case plain hc _ hi => exact .plain hc hi
  case escape he _ hi => exact .escape he hi

theorem denotes_plain (hc : c ≠ mark) (h : Denotes mark escape (c :: s) u) :
    ∃ t, u = c :: t ∧ Denotes mark escape s t := by
  cases h with
  | plain _ h => exact ⟨_, rfl, h⟩
  | escape => exact absurd rfl hc

theorem denotes_escape (h : Denotes mark escape (mark :: c :: s) u) :
    ∃ d t, u = d :: t ∧ escape c = some d ∧ Denotes mark escape s t := by
  cases h with
  | plain hc => exact absurd rfl hc
  | escape he h => exact ⟨_, _, rfl, he, h⟩

theorem not_denotes_mark : ¬Denotes mark escape [mark] t := by
  intro h
  cases h with
  | plain hc => exact hc rfl

theorem denotes_replicate (hc : c ≠ mark) (n : Nat) :
    Denotes mark escape (List.replicate n c) (List.replicate n c) := by
  induction n
  case zero => exact .nil
  case succ n hi => exact .plain hc hi

theorem Denotes.unique (h : Denotes mark escape s t) (h' : Denotes mark escape s u) : t = u := by
  induction h generalizing u
  case nil =>
    cases h'
    rfl
  case plain hc _ hi =>
    obtain ⟨v, rfl, hv⟩ := denotes_plain hc h'
    rw [hi hv]
  case escape he _ hi =>
    obtain ⟨d, v, rfl, hd, hv⟩ := denotes_escape h'
    rw [Option.some.inj (he.symm.trans hd), hi hv]

theorem Reads.not_denotes (h : Reads mark escape s t (some p)) : ¬Denotes mark escape s u := by
  generalize ho : some p = o at h
  induction h generalizing p u
  case nil => cases ho
  case plain hc _ hi =>
    intro hd
    obtain ⟨q, hq, _⟩ := Option.map_eq_some_iff.mp ho.symm
    obtain ⟨v, _, hv⟩ := denotes_plain hc hd
    exact hi hq.symm hv
  case escape hi =>
    intro hd
    obtain ⟨q, hq, _⟩ := Option.map_eq_some_iff.mp ho.symm
    obtain ⟨_, v, _, _, hv⟩ := denotes_escape hd
    exact hi hq.symm hv
  case unfinished => exact not_denotes_mark
  case unknown hn =>
    intro hd
    obtain ⟨_, _, _, he, _⟩ := denotes_escape hd
    cases hn.symm.trans he

-- The part that has been read.
theorem Reads.part {o : Option Nat} (h : Reads mark escape s t o) : ∃ part, part <+: s ∧ Denotes mark escape part t := by
  induction h
  case nil => exact ⟨[], List.prefix_rfl, .nil⟩
  case plain hc _ hi =>
    have ⟨part, hp, hd⟩ := hi
    exact ⟨_, List.cons_prefix_cons.mpr ⟨rfl, hp⟩, .plain hc hd⟩
  case escape he _ hi =>
    have ⟨part, hp, hd⟩ := hi
    exact ⟨_, List.cons_prefix_cons.mpr ⟨rfl, List.cons_prefix_cons.mpr ⟨rfl, hp⟩⟩, .escape he hd⟩
  case unfinished => exact ⟨[], List.nil_prefix, .nil⟩
  case unknown => exact ⟨[], List.nil_prefix, .nil⟩

-- No part from the start denotes more than has been read.
theorem Reads.length_le {o : Option Nat} {part : List α} (h : Reads mark escape s t o) (hp : part <+: s)
    (hd : Denotes mark escape part u) : u.length ≤ t.length := by
  induction hd generalizing s t o
  case nil => exact Nat.zero_le _
  case plain hc _ hi =>
    cases h with
    | nil => cases List.prefix_nil.mp hp
    | plain _ h => exact Nat.succ_le_succ (hi h (List.cons_prefix_cons.mp hp).2)
    | escape => exact absurd (List.cons_prefix_cons.mp hp).1 hc
    | unfinished => exact absurd (List.cons_prefix_cons.mp hp).1 hc
    | unknown => exact absurd (List.cons_prefix_cons.mp hp).1 hc
  case escape c d part u he _ hi =>
    cases h with
    | nil => cases List.prefix_nil.mp hp
    | plain hc => exact absurd (List.cons_prefix_cons.mp hp).1.symm hc
    | escape _ h => exact Nat.succ_le_succ (hi h (List.cons_prefix_cons.mp (List.cons_prefix_cons.mp hp).2).2)
    | unfinished => cases List.prefix_nil.mp (List.cons_prefix_cons.mp hp).2
    | unknown hn =>
      have hc := (List.cons_prefix_cons.mp (List.cons_prefix_cons.mp hp).2).1
      cases (hc ▸ he).symm.trans hn

section Offending

theorem viable_nil : Viable mark escape ([] : List α) :=
  ⟨[], [], .nil⟩

theorem viable_plain (hc : c ≠ mark) : Viable mark escape (c :: s) ↔ Viable mark escape s := by
  constructor
  case mp =>
    rintro ⟨u, t, h⟩
    have ⟨v, _, hv⟩ := denotes_plain hc h
    exact ⟨u, v, hv⟩
  case mpr =>
    rintro ⟨u, t, h⟩
    exact ⟨u, _, .plain hc h⟩

theorem viable_escape (he : escape c = some d) : Viable mark escape (mark :: c :: s) ↔ Viable mark escape s := by
  constructor
  case mp =>
    rintro ⟨u, t, h⟩
    have ⟨_, v, _, _, hv⟩ := denotes_escape h
    exact ⟨u, v, hv⟩
  case mpr =>
    rintro ⟨u, t, h⟩
    exact ⟨u, _, .escape he h⟩

theorem not_viable_unknown (he : escape c = none) : ¬Viable mark escape (mark :: c :: s) := by
  rintro ⟨u, t, h⟩
  have ⟨_, _, _, hd, _⟩ := denotes_escape h
  cases he.symm.trans hd

theorem viable_mark (he : escape c = some d) : Viable mark escape [mark] :=
  ⟨[c], [d], .escape he .nil⟩

theorem Reads.firstOffending (he : ∃ c d, escape c = some d) (h : Reads mark escape s t (some p)) :
    FirstOffending mark escape s p := by
  generalize ho : some p = o at h
  induction h generalizing p
  case nil => cases ho
  case plain hc _ hi =>
    obtain ⟨q, rfl, rfl⟩ := Option.map_eq_some_iff.mp ho.symm
    have ⟨inside, before, after⟩ := hi rfl
    refine ⟨Nat.succ_lt_succ inside, (viable_plain hc).mpr before, fun h => ?_⟩
    exact congrArg (· + 1) (after ((viable_plain hc).mp h))
  case escape hd _ hi =>
    obtain ⟨q, rfl, rfl⟩ := Option.map_eq_some_iff.mp ho.symm
    have ⟨inside, before, after⟩ := hi rfl
    refine ⟨Nat.add_lt_add_right inside 2, (viable_escape hd).mpr before, fun h => ?_⟩
    exact congrArg (· + 2) (after ((viable_escape hd).mp h))
  case unfinished =>
    cases ho
    exact ⟨Nat.one_pos, viable_nil, fun _ => rfl⟩
  case unknown hn =>
    cases ho
    have ⟨c, d, hd⟩ := he
    exact ⟨Nat.succ_lt_succ (Nat.succ_pos _), viable_mark hd, fun h => absurd h (not_viable_unknown hn)⟩

theorem Viable.take (h : Viable mark escape s) (n : Nat) : Viable mark escape (s.take n) := by
  have ⟨u, t, hd⟩ := h
  exact ⟨s.drop n ++ u, t, by rwa [← List.append_assoc, List.take_append_drop]⟩

theorem FirstOffending.le (hp : FirstOffending mark escape s p) (hq : FirstOffending mark escape s q) : q ≤ p := by
  apply Nat.le_of_not_lt
  intro hlt
  have h := hq.before.take (p + 1)
  rw [List.take_take, Nat.min_eq_left hlt] at h
  have := hp.after h
  have := hq.inside
  omega

theorem FirstOffending.unique (hp : FirstOffending mark escape s p) (hq : FirstOffending mark escape s q) : p = q :=
  Nat.le_antisymm (hq.le hp) (hp.le hq)

end Offending

end EscapedText
