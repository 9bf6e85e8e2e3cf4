import Mathlib.Data.Nat.Digits.Defs
import Mathlib.Tactic.Ring

-- Reading a numeral digit by digit from its most significant end, without ever exceeding a limit.
namespace Positional

-- The number that is read when a numeral continues a number with the given digits.
def continued (radix value : Nat) (digits : List Nat) : Nat :=
  digits.foldl (fun value digit => value * radix + digit) value

def accumulate (limit radix : Nat) : Nat → List Nat → Option Nat
  | value, [] => some value
  | value, digit :: digits =>
    if (limit - digit) / radix < value then none
    else accumulate limit radix (value * radix + digit) digits

variable {limit radix value digit : Nat} {digits : List Nat}

@[simp] theorem continued_nil : continued radix value [] = value := rfl

@[simp] theorem continued_cons :
    continued radix value (digit :: digits) = continued radix (value * radix + digit) digits := rfl

theorem continued_eq :
    continued radix value digits = value * radix ^ digits.length + Nat.ofDigits radix digits.reverse := by
  induction digits generalizing value
  case nil => simp
  case cons digit digits ih =>
    rw [continued_cons, ih, Nat.ofDigits_reverse_cons, List.length_cons]
    ring

theorem continued_zero : continued radix 0 digits = Nat.ofDigits radix digits.reverse := by
  rw [continued_eq, Nat.zero_mul, Nat.zero_add]

theorem le_continued (hr : 0 < radix) : value ≤ continued radix value digits := by
  rw [continued_eq]
  exact Nat.le_add_right_of_le (Nat.le_mul_of_pos_right value (Nat.pow_pos hr))

-- The division makes the test exact without computing the next value.
theorem guard_iff (hr : 0 < radix) (hd : digit ≤ limit) :
    (limit - digit) / radix < value ↔ limit < value * radix + digit := by
  rw [Nat.div_lt_iff_lt_mul hr]
  omega

theorem accumulate_eq (hr : 0 < radix) (hd : ∀ digit ∈ digits, digit ≤ limit) (hv : value ≤ limit) :
    accumulate limit radix value digits =
      if continued radix value digits ≤ limit then some (continued radix value digits) else none := by
  induction digits generalizing value
  case nil => simp [accumulate, hv]
  case cons digit digits ih =>
    have hg : (limit - digit) / radix < value ↔ limit < value * radix + digit :=
      guard_iff hr (hd digit List.mem_cons_self)
    rw [accumulate, continued_cons]
    by_cases h : (limit - digit) / radix < value
    case pos =>
      have hc : limit < continued radix (value * radix + digit) digits :=
        Nat.lt_of_lt_of_le (hg.mp h) (le_continued hr)
      rw [if_pos h, if_neg (Nat.not_le.mpr hc)]
    case neg =>
      have hn := Nat.not_lt.mp (mt hg.mpr h)
      rw [if_neg h, ih (fun d hm => hd d (List.mem_cons_of_mem _ hm)) hn]

end Positional
