import Coglet.Ir.Integer
import Mathlib.Data.BitVec

open TwosComplement

-- The run-time arithmetic of unsigned values in the standard library.
namespace Coglet.Stdlib

inductive Fault
  | trap
  -- An access to an array outside of its bounds.
  | outOfBounds
  -- The bound on the number of loop iterations is not part of the program.
  | outOfFuel
deriving DecidableEq, Repr

abbrev Run (α : Type) := Except Fault α

namespace Run

variable {α β : Type}

@[simp]
theorem ok_bind (x : α) (f : α → Run β) : (.ok x >>= f : Run β) = f x := by
  simp only [bind, Except.bind]

@[simp]
theorem error_bind (fault : Fault) (f : α → Run β) : (.error fault >>= f : Run β) = .error fault := by
  simp only [bind, Except.bind]

theorem bind_eq_ok {run : Run α} {f : α → Run β} {y : β} : (run >>= f) = .ok y ↔ ∃ x, run = .ok x ∧ f x = .ok y := by
  cases run
  case error => simp
  case ok => simp

end Run

variable {w : Nat} {x y z : BitVec w}

def checked (op : CheckedOperation) (x y : BitVec w) : Run (BitVec w) :=
  if InRange false w (op.exact x.toNat y.toNat) then
    .ok (BitVec.ofInt w (op.exact x.toNat y.toNat))
  else .error .trap

def remainder (x y : BitVec w) : Run (BitVec w) :=
  if y = 0 then .error .trap else .ok (x % y)

def shift (op : ShiftOperation) (x count : BitVec w) : Run (BitVec w) :=
  if count.toNat < w then .ok (op.onBits false x count.toNat) else .error .trap

-- The number that an operation yields, if it does not trap.
def Run.number (run : Run (BitVec w)) : Option Int :=
  run.toOption.map fun x => x.toNat

section Meaning

open Ir

variable {t : IntegerType}

theorem checked_meaning (hs : t.isSigned = false) (op : CheckedOperation) (x y : BitVec t.width) :
    (checked op x y).number = (IntegerInstruction.checked op t).meaning x.toNat y.toNat := by
  simp only [checked, IntegerInstruction.meaning, IntegerType.Contains, hs]
  split
  case isTrue h =>
    have hd := decode_ofInt t.width_pos h
    simp only [decode, Bool.false_eq_true, ite_false] at hd
    simp only [Run.number, Except.toOption, Option.map_some, hd]
  case isFalse => rfl

theorem remainder_meaning (hs : t.isSigned = false) (x y : BitVec t.width) :
    (remainder x y).number = (IntegerInstruction.checkedDivision .percent t).meaning x.toNat y.toNat := by
  have hz : IntegerValue.DivisionFails t.info x.toNat y.toNat ↔ y = 0 := by
    simp [IntegerValue.DivisionFails, show t.info.isSigned = false from hs, ← BitVec.toNat_inj]
  simp only [remainder, IntegerInstruction.meaning, hz]
  split
  case isTrue => rfl
  case isFalse => simp [Run.number, Except.toOption, DivisionOperation.exact, Int.tmod]

theorem shift_meaning (hs : t.isSigned = false) (op : ShiftOperation) (x count : BitVec t.width) :
    (shift op x count).number = IntegerInstruction.shiftMeaning t op x.toNat count.toNat := by
  simp only [shift, IntegerInstruction.shiftMeaning, hs, decode]
  by_cases h : count.toNat < t.width
  case pos => simp [h, Run.number, Except.toOption]
  case neg => simp [h, Run.number, Except.toOption]

end Meaning

theorem checked_plus : checked .plus x y = if x.toNat + y.toNat < 2 ^ w then .ok (x + y) else .error .trap := by
  have he : BitVec.ofInt w (x.toNat + y.toNat) = x + y := by
    change ((x.toNat + y.toNat : Int) : BitVec w) = x + y
    simp
  simp only [checked, CheckedOperation.exact, inRange_unsigned, he]
  exact if_congr (by norm_cast; simp) rfl rfl

theorem checked_minus : checked .minus x y = if y ≤ x then .ok (x - y) else .error .trap := by
  have he : BitVec.ofInt w (x.toNat - y.toNat) = x - y := by
    change ((x.toNat - y.toNat : Int) : BitVec w) = x - y
    simp
  have hx := x.isLt
  have hp : ((2 ^ w : Nat) : Int) = 2 ^ w := by push_cast; rfl
  simp only [checked, CheckedOperation.exact, inRange_unsigned, he, BitVec.le_def, ← hp]
  exact if_congr (by omega) rfl rfl

theorem checked_star : checked .star x y = if x.toNat * y.toNat < 2 ^ w then .ok (x * y) else .error .trap := by
  have he : BitVec.ofInt w (x.toNat * y.toNat) = x * y := by
    change ((x.toNat * y.toNat : Int) : BitVec w) = x * y
    simp
  simp only [checked, CheckedOperation.exact, inRange_unsigned, he]
  exact if_congr (by norm_cast; simp) rfl rfl

theorem checked_plus_eq_ok : checked .plus x y = .ok z ↔ x.toNat + y.toNat < 2 ^ w ∧ x + y = z := by
  rw [checked_plus]
  split <;> simp [*]

theorem checked_minus_eq_ok : checked .minus x y = .ok z ↔ y ≤ x ∧ x - y = z := by
  rw [checked_minus]
  split <;> simp [*]

theorem checked_star_eq_ok : checked .star x y = .ok z ↔ x.toNat * y.toNat < 2 ^ w ∧ x * y = z := by
  rw [checked_star]
  split <;> simp [*]

end Coglet.Stdlib
