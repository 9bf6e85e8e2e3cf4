import Mathlib.Data.List.Nodup
import Mathlib.Data.List.Infix

-- A table in which every name is unique. A name that is taken is changed when it is added.
namespace SymbolTable

variable {ν : Type} [DecidableEq ν]

structure Renaming (ν : Type) where
  rename : List ν → ν → ν
  fresh  : ∀ table name, rename table name ∉ table

variable (r : Renaming ν)

def pick (table : List ν) (name : ν) : ν :=
  if name ∈ table then r.rename table name else name

-- The table after the addition and the positions of the added names
def addEach (table : List ν) : List ν → List ν × List Nat
  | [] => (table, [])
  | name :: names =>
    let added := addEach (table ++ [pick r table name]) names
    (added.1, table.length :: added.2)

-- A name is looked up before it is added.
def getEach (table : List ν) : List ν → List ν × List Nat
  | [] => (table, [])
  | name :: names =>
    if name ∈ table then
      let found := getEach table names
      (found.1, table.idxOf name :: found.2)
    else
      let found := getEach (table ++ [name]) names
      (found.1, table.length :: found.2)

variable {r} {table names : List ν} {name : ν} {i : Nat}

theorem pick_notMem : pick r table name ∉ table := by
  unfold pick
  split
  case isTrue => exact r.fresh table name
  case isFalse h => exact h

theorem pick_eq_iff : pick r table name = name ↔ name ∉ table := by
  constructor
  case mp => exact fun h => h ▸ pick_notMem
  case mpr => exact fun h => if_neg h

omit [DecidableEq ν] in
theorem nodup_concat (h : table.Nodup) (hn : name ∉ table) : (table ++ [name]).Nodup := by
  rw [← List.concat_eq_append]
  exact h.concat hn

theorem addEach_positions : (addEach r table names).2 = List.range' table.length names.length := by
  induction names generalizing table
  case nil => rfl
  case cons name names hi =>
    rw [addEach, hi, List.length_append, List.length_singleton, List.length_cons, List.range'_succ]

theorem addEach_nodup (h : table.Nodup) : (addEach r table names).1.Nodup := by
  induction names generalizing table
  case nil => exact h
  case cons hi => exact hi (nodup_concat h pick_notMem)

theorem addEach_starts : table <+: (addEach r table names).1 := by
  induction names generalizing table
  case nil => exact List.prefix_rfl
  case cons hi => exact (List.prefix_append _ _).trans hi

theorem addEach_length : (addEach r table names).1.length = table.length + names.length := by
  induction names generalizing table
  case nil => rfl
  case cons hi =>
    rw [addEach, hi, List.length_append, List.length_singleton, List.length_cons]
    omega

-- The names are kept exactly when none of them is taken.
theorem addEach_eq (h : (table ++ names).Nodup) : (addEach r table names).1 = table ++ names := by
  induction names generalizing table
  case nil => rw [List.append_nil]; rfl
  case cons name names hi =>
    have hn : name ∉ table := fun hm => (List.nodup_append.mp h).2.2 _ hm _ (.head _) rfl
    have hp : pick r table name = name := pick_eq_iff.mpr hn
    rw [addEach, hp, hi (by rwa [List.append_assoc]), List.append_assoc]
    rfl

theorem getEach_starts : table <+: (getEach table names).1 := by
  induction names generalizing table
  case nil => exact List.prefix_rfl
  case cons name names hi =>
    rw [getEach]
    split
    case isTrue => exact hi
    case isFalse => exact (List.prefix_append _ _).trans hi

theorem getEach_nodup (h : table.Nodup) : (getEach table names).1.Nodup := by
  induction names generalizing table
  case nil => exact h
  case cons name names hi =>
    rw [getEach]
    split
    case isTrue => exact hi h
    case isFalse hn => exact hi (nodup_concat h hn)

theorem mem_getEach : name ∈ (getEach table names).1 ↔ name ∈ table ∨ name ∈ names := by
  induction names generalizing table
  case nil => simp [getEach]
  case cons other names hi =>
    rw [getEach, List.mem_cons]
    split
    case isTrue hm =>
      rw [hi]
      constructor
      case mp => exact Or.imp id .inr
      case mpr =>
        rintro (h | rfl | h)
        · exact .inl h
        · exact .inl hm
        · exact .inr h
    case isFalse =>
      rw [hi, List.mem_append, List.mem_singleton, or_assoc]

-- A position in the table that was there is returned exactly when its name is looked up.
theorem mem_positions_iff (h : table.Nodup) (hi : table[i]? = some name) :
    i ∈ (getEach table names).2 ↔ name ∈ names := by
  induction names generalizing table
  case nil => simp [getEach]
  case cons other names ih =>
    obtain ⟨hl, hn⟩ := List.getElem?_eq_some_iff.mp hi
    rw [getEach, List.mem_cons]
    split
    case isTrue hm =>
      rw [List.mem_cons, ih h hi]
      apply or_congr_left
      constructor
      case mp =>
        rintro rfl
        exact hn.symm.trans (List.getElem_idxOf hl)
      case mpr =>
        rintro rfl
        rw [← hn, h.idxOf_getElem]
    case isFalse hm =>
      have hne : name ≠ other := by
        rintro rfl
        exact hm (List.mem_of_getElem? hi)
      rw [List.mem_cons, ih (nodup_concat h hm) ((List.getElem?_append_left hl).trans hi)]
      simp [hne, Nat.ne_of_lt hl]

end SymbolTable
