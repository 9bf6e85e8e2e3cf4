import Coglet.Lib.StructLayout
import Mathlib.Data.List.Forall2

open StructLayout

-- Arguments in registers and on the stack, by the rules of the System V AMD64 calling convention.
namespace RegisterPassing

inductive RegClass
  | integer | sse
deriving DecidableEq, Repr

def RegClass.count : RegClass → Nat
  | integer => 6
  | sse => 8

-- The argument registers that are taken and the bytes of the argument area that are in use.
structure Occupied where
  used  : RegClass → Nat
  stack : Nat

inductive Place
  | register (cls : RegClass) (index : Nat)
  | stack (offset : Nat)
deriving DecidableEq, Repr

namespace Occupied

def initial : Occupied :=
  ⟨fun _ => 0, 0⟩

def Available (s : Occupied) (cls : RegClass) : Prop :=
  s.used cls < cls.count

instance {s : Occupied} {cls : RegClass} : Decidable (s.Available cls) :=
  inferInstanceAs (Decidable (_ < _))

def take (s : Occupied) (cls : RegClass) : Occupied :=
  ⟨fun c => if c = cls then s.used c + 1 else s.used c, s.stack⟩

def push (s : Occupied) (size : Nat) : Occupied :=
  { s with stack := s.stack + size }

@[simp]
theorem push_used {s : Occupied} {size : Nat} : (s.push size).used = s.used :=
  rfl

@[simp]
theorem push_stack {s : Occupied} {size : Nat} : (s.push size).stack = s.stack + size :=
  rfl

-- There are registers for all eightbytes of an argument.
def Fits (s : Occupied) (classes : List RegClass) : Prop :=
  ∀ cls ∈ classes, s.used cls + classes.count cls ≤ cls.count

instance {s : Occupied} {classes : List RegClass} : Decidable (s.Fits classes) :=
  inferInstanceAs (Decidable (∀ _ ∈ _, _))

end Occupied

-- An eightbyte for itself takes the next register of its class, or else the next eight bytes of the stack.
def place (cls : RegClass) (s : Occupied) : Place × Occupied :=
  if s.Available cls then (.register cls (s.used cls), s.take cls) else (.stack s.stack, s.push 8)

def placeEach : List RegClass → Occupied → List Place × Occupied
  | [], s => ([], s)
  | cls :: classes, s =>
    let first := place cls s
    let rest := placeEach classes first.2
    (first.1 :: rest.1, rest.2)

def stackPlaces (offset : Nat) : Nat → List Place
  | 0 => []
  | count + 1 => .stack offset :: stackPlaces (offset + 8) count

-- An object on the stack starts at a multiple of its alignment and takes whole eightbytes.
def placeMemory (l : Layout) (s : Occupied) : List Place × Occupied :=
  let offset := roundUp s.stack (max 8 l.align)
  let size := roundUp l.size 8
  (stackPlaces offset (size / 8), { s with stack := offset + size })

inductive Argument
  | memory (l : Layout)
  | registers (classes : List RegClass) (l : Layout)

namespace Argument

-- The rule of the convention: an argument is in registers as a whole or not at all.
def pass : Argument → Occupied → List Place × Occupied
  | memory l, s => placeMemory l s
  | registers classes l, s => if s.Fits classes then placeEach classes s else placeMemory l s

-- What becomes of an argument whose eightbytes are arguments of their own.
def passSplit : Argument → Occupied → List Place × Occupied
  | memory l, s => placeMemory l s
  | registers classes _, s => placeEach classes s

-- Splitting makes no difference if all eightbytes get a register, or none does and the stack needs no padding.
def Splittable : Argument → Occupied → Prop
  | memory _, _ => True
  | registers classes l, s => s.Fits classes ∨
      (∀ cls ∈ classes, ¬s.Available cls) ∧ max 8 l.align ∣ s.stack ∧ roundUp l.size 8 = 8 * classes.length

def Wellformed : Argument → Prop
  | memory _ => True
  | registers classes _ => classes ≠ []

end Argument

def passAll : List Argument → Occupied → List (List Place) × Occupied
  | [], s => ([], s)
  | argument :: arguments, s =>
    let first := argument.pass s
    let rest := passAll arguments first.2
    (first.1 :: rest.1, rest.2)

def passAllSplit : List Argument → Occupied → List (List Place) × Occupied
  | [], s => ([], s)
  | argument :: arguments, s =>
    let first := argument.passSplit s
    let rest := passAllSplit arguments first.2
    (first.1 :: rest.1, rest.2)

-- The condition refers to the registers that the convention has left for an argument.
def AllSplittable : List Argument → Occupied → Prop
  | [], _ => True
  | argument :: arguments, s => argument.Splittable s ∧ AllSplittable arguments (argument.pass s).2

section Places

variable {s : Occupied} {classes : List RegClass}

theorem stackPlaces_length {offset count : Nat} : (stackPlaces offset count).length = count := by
  induction count generalizing offset
  case zero => rfl
  case succ ih => exact congrArg Nat.succ ih

theorem placeEach_length : (placeEach classes s).1.length = classes.length := by
  induction classes generalizing s
  case nil => rfl
  case cons ih => exact congrArg Nat.succ ih

theorem place_eq_stack {cls : RegClass} {offset : Nat} (h : (place cls s).1 = .stack offset) :
    ¬s.Available cls ∧ offset = s.stack := by
  unfold place at h
  split at h
  case isTrue => cases h
  case isFalse ha =>
    cases h
    exact ⟨ha, rfl⟩

theorem placeEach_exhausted (h : ∀ cls ∈ classes, ¬s.Available cls) :
    placeEach classes s = (stackPlaces s.stack classes.length, s.push (8 * classes.length)) := by
  induction classes generalizing s
  case nil => rfl
  case cons cls classes ih =>
    have hp : place cls s = (.stack s.stack, s.push 8) := if_neg (h cls (.head _))
    have hps := @ih (s.push 8) fun c hc => h c (.tail _ hc)
    rw [placeEach, hp, hps]
    simp only [Occupied.push, List.length_cons, stackPlaces, Nat.mul_succ, Nat.add_assoc, Nat.add_comm 8]

-- What lies on the stack altogether has found no register.
theorem exhausted_of_placeEach {offset count : Nat} (h : (placeEach classes s).1 = stackPlaces offset count) :
    ∀ cls ∈ classes, ¬s.Available cls := by
  induction classes generalizing s offset count
  case nil => exact fun _ h => nomatch h
  case cons cls classes ih =>
    cases count
    case zero => cases h
    case succ count =>
      have hp : (place cls s).1 = .stack offset := (List.cons.inj h).1
      have hps : (placeEach classes (place cls s).2).1 = stackPlaces (offset + 8) count := (List.cons.inj h).2
      have ⟨ha, _⟩ := place_eq_stack hp
      have hs : (place cls s).2 = s.push 8 := by
        rw [place, if_neg ha]
      rw [hs] at hps
      intro c hc
      cases hc
      case head => exact ha
      case tail hc => exact ih hps c hc

theorem stackPlaces_head {offset offset' count : Nat} (hn : 0 < count)
    (h : stackPlaces offset count = stackPlaces offset' count) : offset = offset' := by
  cases count
  case zero => cases hn
  case succ =>
    have hp := (List.cons.inj h).1
    cases hp
    rfl

end Places

namespace Argument

variable {argument : Argument} {s : Occupied}

-- The eightbytes of an object on the stack.
theorem placeMemory_eq {l : Layout} {count : Nat} (ha : max 8 l.align ∣ s.stack) (hs : roundUp l.size 8 = 8 * count) :
    placeMemory l s = (stackPlaces s.stack count, s.push (8 * count)) := by
  have hp : 0 < max 8 l.align := by
    omega
  rw [placeMemory, hs, roundUp_of_dvd hp ha, Nat.mul_div_cancel_left _ (by decide)]
  rfl

theorem passSplit_eq (h : argument.Splittable s) : argument.passSplit s = argument.pass s := by
  cases argument
  case memory => rfl
  case registers classes l =>
    rw [passSplit, pass]
    split
    case isTrue => rfl
    case isFalse hf =>
      have ⟨he, ha, hs⟩ := h.resolve_left hf
      rw [placeEach_exhausted he, placeMemory_eq ha hs]

theorem splittable_of_places (hw : argument.Wellformed) (h : (argument.passSplit s).1 = (argument.pass s).1) :
    argument.Splittable s := by
  cases argument
  case memory => trivial
  case registers classes l =>
    by_cases hf : s.Fits classes
    case pos => exact .inl hf
    case neg =>
      rw [passSplit, pass, if_neg hf] at h
      have he := exhausted_of_placeEach h
      rw [placeEach_exhausted he] at h
      have hl := congrArg List.length h
      simp only [placeMemory, stackPlaces_length] at h hl
      have hd : 8 ∣ roundUp l.size 8 := dvd_roundUp
      have hsize : roundUp l.size 8 = 8 * classes.length := by
        rw [hl, Nat.mul_div_cancel' hd]
      rw [← hl] at h
      have ho := stackPlaces_head (List.length_pos_iff.mpr hw) h
      refine .inr ⟨he, ?_, hsize⟩
      rw [ho]
      exact dvd_roundUp

theorem passSplit_eq_iff (hw : argument.Wellformed) :
    (argument.passSplit s).1 = (argument.pass s).1 ↔ argument.Splittable s where
  mp  := splittable_of_places hw
  mpr := fun h => congrArg Prod.fst (passSplit_eq h)

end Argument

theorem passAllSplit_append {arguments arguments' : List Argument} {s : Occupied} :
    passAllSplit (arguments ++ arguments') s =
      ((passAllSplit arguments s).1 ++ (passAllSplit arguments' (passAllSplit arguments s).2).1,
        (passAllSplit arguments' (passAllSplit arguments s).2).2) := by
  induction arguments generalizing s
  case nil => rfl
  case cons argument arguments ih =>
    rw [List.cons_append, passAllSplit, ih]
    rfl

theorem passAllSplit_length {arguments : List Argument} {s : Occupied} :
    (passAllSplit arguments s).1.length = arguments.length := by
  induction arguments generalizing s
  case nil => rfl
  case cons ih => exact congrArg Nat.succ ih

-- The eightbytes as arguments of their own.
theorem passAllSplit_eightbytes {classes : List RegClass} {l : Layout} {s : Occupied} :
    (passAllSplit (classes.map fun cls => .registers [cls] l) s).1.flatten = (placeEach classes s).1 ∧
      (passAllSplit (classes.map fun cls => .registers [cls] l) s).2 = (placeEach classes s).2 := by
  induction classes generalizing s
  case nil => exact ⟨rfl, rfl⟩
  case cons cls classes ih =>
    have ⟨hp, hs⟩ := @ih (place cls s).2
    exact ⟨congrArg ((place cls s).1 :: ·) hp, hs⟩

theorem passAllSplit_congr {arguments arguments' : List Argument} {s : Occupied}
    (h : List.Forall₂ (fun a a' => ∀ s, a.passSplit s = a'.passSplit s) arguments arguments') :
    passAllSplit arguments s = passAllSplit arguments' s := by
  induction h generalizing s
  case nil => rfl
  case cons ha _ ih => rw [passAllSplit, passAllSplit, ha, ih]

theorem passAllSplit_eq_iff {arguments : List Argument} {s : Occupied} (hw : ∀ a ∈ arguments, a.Wellformed) :
    (passAllSplit arguments s).1 = (passAll arguments s).1 ↔ AllSplittable arguments s := by
  induction arguments generalizing s
  case nil => exact ⟨fun _ => trivial, fun _ => rfl⟩
  case cons argument arguments ih =>
    have hiff := @Argument.passSplit_eq_iff argument s (hw _ (.head _))
    rw [passAllSplit, passAll, AllSplittable, ← ih fun a ha => hw a (.tail _ ha)]
    constructor
    case mp =>
      intro h
      have ⟨hp, hps⟩ := List.cons.inj h
      have hs := hiff.mp hp
      rw [Argument.passSplit_eq hs] at hps
      exact ⟨hs, hps⟩
    case mpr =>
      rintro ⟨hs, hps⟩
      rw [Argument.passSplit_eq hs]
      exact congrArg (_ :: ·) hps

end RegisterPassing
