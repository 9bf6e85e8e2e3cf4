import Mathlib.Data.List.Basic

-- Arrays that are moved to a larger storage when they are full.
structure GrowArray (α : Type u) where
  items    : List α
  capacity : Nat
deriving DecidableEq, Repr

namespace GrowArray

variable {α : Type u} (array : GrowArray α) {i : Nat} {x : α}

def empty : GrowArray α :=
  ⟨[], 0⟩

def Full : Prop :=
  array.capacity ≤ array.items.length

instance : Decidable array.Full :=
  inferInstanceAs (Decidable (_ ≤ _))

-- Makes room for one more item.
def reserve : GrowArray α :=
  if array.Full then
    { array with capacity := if array.capacity = 0 then 8 else array.capacity * 2 }
  else
    array

def push (x : α) : GrowArray α :=
  { array.reserve with items := array.items ++ [x] }

def set (i : Nat) (x : α) : GrowArray α :=
  { array with items := array.items.set i x }

@[simp] theorem reserve_items : array.reserve.items = array.items := by
  unfold reserve
  split <;> rfl

@[simp] theorem push_items : (array.push x).items = array.items ++ [x] := rfl

@[simp] theorem set_items : (array.set i x).items = array.items.set i x := rfl

theorem reserve_eq_iff : array.reserve = array ↔ ¬array.Full := by
  unfold reserve
  split
  case isTrue h =>
    refine iff_of_false (fun he => ?_) (not_not_intro h)
    have hc := congrArg capacity he
    simp only at hc
    split at hc <;> omega
  case isFalse h => exact iff_of_true rfl h

theorem push_ne : array.push x ≠ array := by
  intro he
  have hl := congrArg (fun a => a.items.length) he
  simp at hl

theorem set_eq_iff (h : array.items[i]? = some y) : array.set i x = array ↔ x = y := by
  obtain ⟨hi, rfl⟩ := List.getElem?_eq_some_iff.mp h
  constructor
  case mp =>
    intro he
    have := congrArg (fun a => a.items[i]?) he
    simpa [set, hi] using this
  case mpr =>
    rintro rfl
    simp [set]

end GrowArray
