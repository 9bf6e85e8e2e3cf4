import Mathlib.Data.List.Nodup

-- Lists that are threaded through an array of links.
namespace FreeList

variable {ι : Type} {next next' : ι → Option ι} {stop i j : ι} {is js : List ι}

-- The list that starts at a given link.
inductive Links (next : ι → Option ι) (stop : ι) : ι → List ι → Prop
  | nil : Links next stop stop []
  | cons {i j : ι} {is : List ι} : i ≠ stop → next i = some j → Links next stop j is → Links next stop i (i :: is)

namespace Links

theorem eq_nil_iff (h : Links next stop i is) : is = [] ↔ i = stop := by
  cases h
  case nil => simp
  case cons hi _ => simp [hi]

theorem unique (h : Links next stop i is) (h' : Links next stop i js) : is = js := by
  induction h generalizing js
  case nil =>
    cases h'
    case nil => rfl
    case cons hi _ => exact absurd rfl hi
  case cons hi hn _ ih =>
    cases h'
    case nil => exact absurd rfl hi
    case cons hl _ hn' => rw [ih (Option.some.inj (hn.symm.trans hn') ▸ hl)]

-- Only the links of the members matter.
theorem congr (h : Links next stop i is) (hn : ∀ j ∈ is, next' j = next j) : Links next' stop i is := by
  induction h
  case nil => exact .nil
  case cons hi hn' _ ih =>
    exact .cons hi ((hn _ List.mem_cons_self).trans hn') (ih fun j hj => hn j (List.mem_cons_of_mem _ hj))

theorem push (h : Links next stop j is) (hi : i ≠ stop) (hn : next' i = some j) (hs : ∀ k ∈ is, next' k = next k) :
    Links next' stop i (i :: is) :=
  .cons hi hn (h.congr hs)

theorem pop (h : Links next stop i (j :: js)) : i = j ∧ i ≠ stop ∧ ∃ k, next i = some k ∧ Links next stop k js := by
  cases h
  case cons hi hn hl => exact ⟨rfl, hi, _, hn, hl⟩

end Links

end FreeList
