import Coglet.Lib.LinearCongruential
import Coglet.Stdlib.Checked
import Mathlib.Data.Int.CardIntervalMod
import Mathlib.Data.Nat.Periodic
import Mathlib.Data.Set.Card

namespace Coglet.Stdlib

open LinearCongruential Function

-- The program never assigns this global variable.
def pcgMultiplier : BitVec 64 := 6364136223846793005#64

structure Pcg32 where
  state     : BitVec 64
  increment : BitVec 64
deriving DecidableEq, Repr

namespace Pcg32

def nextU32 (self : Pcg32) : Run (BitVec 32 × Pcg32) := do
  let oldState := self.state
  let self := { self with state := oldState * pcgMultiplier + self.increment }
  let xorshifted := (((oldState >>> 18) ^^^ oldState) >>> 27).setWidth 32
  let rotation := (oldState >>> 59).setWidth 32
  let right ← shift .shiftRight xorshifted rotation
  let left ← shift .shiftLeft xorshifted ((0#32 - rotation) &&& 31#32)
  return (right ||| left, self)

def init (seed sequence : BitVec 64) : Run Pcg32 := do
  let result : Pcg32 := { state := 0#64, increment := (sequence <<< 1) ||| 1#64 }
  let (_, result) ← result.nextU32
  let result := { result with state := result.state + seed }
  let (_, result) ← result.nextU32
  return result

def seed (self : Pcg32) (seed sequence : BitVec 64) : Run Pcg32 := do
  let self := { self with state := 0#64 }
  let self := { self with increment := (sequence <<< 1) ||| 1#64 }
  let (_, self) ← self.nextU32
  let self := { self with state := self.state + seed }
  let (_, self) ← self.nextU32
  return self

-- The loop of the rejection sampling.
def draw (threshold bound : BitVec 32) : Nat → Pcg32 → Run (BitVec 32 × Pcg32)
  | 0, _ => .error .outOfFuel
  | fuel + 1, self => do
    let (value, self) ← self.nextU32
    if threshold ≤ value then
      let result ← remainder value bound
      return (result, self)
    else draw threshold bound fuel self

def boundedU32 (self : Pcg32) (bound : BitVec 32) (fuel : Nat) : Run (BitVec 32 × Pcg32) := do
  let threshold ← remainder (0#32 - bound) bound
  draw threshold bound fuel self

def rangeU32 (self : Pcg32) (min max : BitVec 32) (fuel : Nat) : Run (BitVec 32 × Pcg32) := do
  let bound ← checked .minus max min
  let (value, self) ← self.boundedU32 bound fuel
  let result ← checked .plus min value
  return (result, self)

-- The generators that a program can get.
inductive Generated : Pcg32 → Prop
  | init {seed sequence : BitVec 64} {self : Pcg32} : init seed sequence = .ok self → Generated self
  | seed {self self' : Pcg32} {seed sequence : BitVec 64} : self.seed seed sequence = .ok self' → Generated self'
  | nextU32 {self self' : Pcg32} {value : BitVec 32} :
    Generated self → self.nextU32 = .ok (value, self') → Generated self'

variable {self self' : Pcg32} {bound value threshold min max : BitVec 32} {n : Nat} {fuel : Nat}

-- The output for a state.
def output (state : BitVec 64) : BitVec 32 :=
  let xorshifted := (((state >>> 18) ^^^ state) >>> 27).setWidth 32
  let rotation := (state >>> 59).setWidth 32
  (xorshifted >>> rotation) ||| (xorshifted <<< ((0#32 - rotation) &&& 31#32))

def advance (self : Pcg32) : Pcg32 :=
  { self with state := step pcgMultiplier self.increment self.state }

theorem nextU32_eq (self : Pcg32) : self.nextU32 = .ok (output self.state, self.advance) := by
  have hr : ((self.state >>> 59).setWidth 32).toNat < 32 := by
    have h := self.state.isLt
    simp only [BitVec.toNat_setWidth, BitVec.toNat_ushiftRight, Nat.shiftRight_eq_div_pow]
    omega
  have hl : ((0#32 - (self.state >>> 59).setWidth 32) &&& 31#32).toNat < 32 := by
    rw [BitVec.toNat_and]
    exact Nat.lt_of_le_of_lt Nat.and_le_right (by decide)
  simp only [nextU32, shift, if_pos hr, if_pos hl]
  rfl

@[simp]
theorem advance_increment (self : Pcg32) : self.advance.increment = self.increment := by
  rw [advance]

theorem init_increment {seed sequence : BitVec 64} (h : init seed sequence = .ok self) :
    self.increment = (sequence <<< 1) ||| 1#64 := by
  simp only [init, nextU32_eq] at h
  cases h
  rfl

theorem seed_increment {seed sequence : BitVec 64} (h : self.seed seed sequence = .ok self') :
    self'.increment = (sequence <<< 1) ||| 1#64 := by
  simp only [Pcg32.seed, nextU32_eq] at h
  cases h
  rfl

theorem increment_odd (sequence : BitVec 64) : ((sequence <<< 1) ||| 1#64).toNat % 2 = 1 := by
  have h : ((sequence <<< 1) ||| 1#64).getLsbD 0 = true := by simp
  rw [BitVec.getLsbD, Nat.testBit_zero] at h
  exact of_decide_eq_true h

theorem Generated.increment_odd (h : Generated self) : self.increment.toNat % 2 = 1 := by
  induction h
  case init h => exact init_increment h ▸ Pcg32.increment_odd _
  case seed h => exact seed_increment h ▸ Pcg32.increment_odd _
  case nextU32 h hi =>
    rw [nextU32_eq] at h
    cases h
    rwa [advance_increment]

theorem iterate_advance (self : Pcg32) (n : Nat) :
    advance^[n] self = { self with state := (step pcgMultiplier self.increment)^[n] self.state } := by
  induction n
  case zero => rfl
  case succ n hi => rw [iterate_succ_apply', iterate_succ_apply', hi, advance]

section Draw

theorem draw_succ (hb : bound ≠ 0) : draw threshold bound (fuel + 1) self =
    if threshold ≤ output self.state then .ok (output self.state % bound, self.advance)
    else draw threshold bound fuel self.advance := by
  simp only [draw, nextU32_eq, remainder, if_neg hb]
  rfl

theorem draw_ne_trap (hb : bound ≠ 0) : draw threshold bound fuel self ≠ .error .trap := by
  induction fuel generalizing self
  case zero => exact fun h => nomatch h
  case succ fuel hi =>
    rw [draw_succ hb]
    split
    case isTrue => exact fun h => nomatch h
    case isFalse => exact hi

theorem accepted_of_draw (hb : bound ≠ 0) (h : draw threshold bound fuel self = .ok (value, self')) :
    ∃ accepted, threshold ≤ accepted ∧ value = accepted % bound := by
  induction fuel generalizing self
  case zero => cases h
  case succ fuel hi =>
    rw [draw_succ hb] at h
    split at h
    case isTrue ha =>
      cases h
      exact ⟨_, ha, rfl⟩
    case isFalse => exact hi h

-- The loop ends when it gets to an accepted output.
theorem draw_of_accepted (hb : bound ≠ 0) (ha : threshold ≤ output (advance^[n] self).state) :
    ∃ result, ∀ fuel > n, draw threshold bound fuel self = .ok result := by
  induction n generalizing self
  case zero =>
    rw [iterate_zero_apply] at ha
    refine ⟨(output self.state % bound, self.advance), fun fuel hf => ?_⟩
    obtain ⟨fuel, rfl⟩ := Nat.exists_eq_add_of_lt hf
    rw [Nat.zero_add, draw_succ hb, if_pos ha]
  case succ n hi =>
    rw [iterate_succ_apply] at ha
    obtain ⟨result, hr⟩ := hi ha
    by_cases h : threshold ≤ output self.state
    case pos =>
      refine ⟨(output self.state % bound, self.advance), fun fuel hf => ?_⟩
      obtain ⟨fuel, rfl⟩ := Nat.exists_eq_add_of_lt hf
      rw [draw_succ hb, if_pos h]
    case neg =>
      refine ⟨result, fun fuel hf => ?_⟩
      obtain ⟨fuel, rfl⟩ := Nat.exists_eq_add_of_lt hf
      rw [draw_succ hb, if_neg h]
      exact hr _ (by omega)

end Draw

-- A state with the greatest output.
theorem output_allOnes : output 0x07fffe0000000000#64 = BitVec.allOnes 32 := by
  decide

theorem Generated.minimalPeriod (h : Generated self) :
    minimalPeriod (step pcgMultiplier self.increment) self.state = 2 ^ 64 :=
  minimalPeriod_step (by decide) h.increment_odd

theorem Generated.draw_returns (h : Generated self) (hb : bound ≠ 0) :
    ∃ result n, ∀ fuel > n, draw threshold bound fuel self = .ok result := by
  obtain ⟨n, -, hn⟩ := exists_iterate_eq (a := pcgMultiplier) (by decide) h.increment_odd self.state 0x07fffe0000000000#64
  have ha : threshold ≤ output (advance^[n] self).state := by
    rw [iterate_advance, hn, output_allOnes, BitVec.le_def, BitVec.toNat_allOnes]
    exact Nat.le_sub_one_of_lt threshold.isLt
  obtain ⟨result, hr⟩ := draw_of_accepted hb ha
  exact ⟨result, n, hr⟩

section Bounded

-- The outputs that are turned into a result.
def Accepted (bound value : BitVec 32) : Prop :=
  (2 ^ 32 - bound.toNat) % bound.toNat ≤ value.toNat

theorem toNat_pos (hb : bound ≠ 0) : 0 < bound.toNat :=
  Nat.pos_of_ne_zero fun h => hb (BitVec.eq_of_toNat_eq h)

theorem threshold_toNat (hb : bound ≠ 0) : ((0#32 - bound) % bound).toNat = (2 ^ 32 - bound.toNat) % bound.toNat := by
  have hp := toNat_pos hb
  rw [BitVec.toNat_umod, BitVec.toNat_sub, BitVec.toNat_ofNat, Nat.zero_mod, Nat.add_zero,
    Nat.mod_eq_of_lt (Nat.sub_lt (Nat.two_pow_pos 32) hp)]

theorem boundedU32_eq (hb : bound ≠ 0) : self.boundedU32 bound fuel = draw ((0#32 - bound) % bound) bound fuel self := by
  rw [boundedU32, remainder, if_neg hb]
  rfl

-- An interval whose length is a multiple of `b` has the same number of values for each residue.
theorem card_residue {m b r : Nat} (hb : 0 < b) :
    Finset.card {x ∈ Finset.Ico (m % b) m | x ≡ r [MOD b]} = m / b := by
  have hp : Periodic (fun x => x ≡ r [MOD b]) (m / b * b) := by
    intro x
    simp [Nat.ModEq]
  have h := Nat.filter_Ico_card_eq_of_periodic (m % b) _ _ hp
  rw [Nat.mod_add_div', Nat.count_modEq_card _ hb] at h
  simpa [Nat.mul_div_cancel _ hb] using h

theorem ncard_accepted (hb : bound ≠ 0) (hv : value < bound) :
    {v | Accepted bound v ∧ v % bound = value}.ncard = 2 ^ 32 / bound.toNat := by
  have hi : BitVec.toNat '' {v | Accepted bound v ∧ v % bound = value} =
      {x ∈ Finset.Ico (2 ^ 32 % bound.toNat) (2 ^ 32) | x ≡ value.toNat [MOD bound.toNat]} := by
    have ht := Nat.mod_eq_sub_mod (Nat.le_of_lt bound.isLt)
    ext x
    simp only [Set.mem_image, Set.mem_ofPred_eq, Accepted, ← ht, Finset.coe_filter, Finset.mem_Ico, Nat.ModEq,
      Nat.mod_eq_of_lt hv, ← BitVec.toNat_inj, BitVec.toNat_umod]
    constructor
    case mp =>
      rintro ⟨v, ⟨ha, hr⟩, rfl⟩
      exact ⟨⟨ha, v.isLt⟩, hr⟩
    case mpr =>
      rintro ⟨⟨ha, hl⟩, hr⟩
      have hx : (BitVec.ofNat 32 x).toNat = x := Nat.mod_eq_of_lt hl
      exact ⟨BitVec.ofNat 32 x, by rw [hx]; exact ⟨ha, hr⟩, hx⟩
  rw [← Set.ncard_image_of_injective _ BitVec.toNat_injective, hi, Set.ncard_coe_finset, card_residue (toNat_pos hb)]

theorem boundedU32_ne_trap (hb : bound ≠ 0) : self.boundedU32 bound fuel ≠ .error .trap := by
  rw [boundedU32_eq hb]
  exact draw_ne_trap hb

theorem accepted_of_boundedU32 (hb : bound ≠ 0) (h : self.boundedU32 bound fuel = .ok (value, self')) :
    ∃ accepted, Accepted bound accepted ∧ value = accepted % bound := by
  rw [boundedU32_eq hb] at h
  obtain ⟨accepted, ha, he⟩ := accepted_of_draw hb h
  rw [BitVec.le_def, threshold_toNat hb] at ha
  exact ⟨accepted, ha, he⟩

theorem boundedU32_lt (hb : bound ≠ 0) (h : self.boundedU32 bound fuel = .ok (value, self')) : value < bound := by
  obtain ⟨accepted, -, rfl⟩ := accepted_of_boundedU32 hb h
  exact BitVec.umod_lt _ (toNat_pos hb)

theorem Generated.boundedU32_returns (h : Generated self) (hb : bound ≠ 0) :
    ∃ result n, ∀ fuel > n, self.boundedU32 bound fuel = .ok result := by
  simp only [boundedU32_eq hb]
  exact h.draw_returns hb

end Bounded

section Range

theorem sub_ne_zero (h : min < max) : max - min ≠ 0 := by
  intro he
  have hs := BitVec.toNat_sub_of_le (BitVec.le_of_lt h)
  have hz : (0 : BitVec 32).toNat = 0 := rfl
  rw [he, hz] at hs
  rw [BitVec.lt_def] at h
  omega

theorem toNat_add_of_lt (h : min < max) (hv : value < max - min) :
    min.toNat + value.toNat < max.toNat := by
  have hs := BitVec.toNat_sub_of_le (BitVec.le_of_lt h)
  rw [BitVec.lt_def] at h hv
  omega

-- The checked operations are only applied to values for which they are defined.
theorem rangeU32_eq (h : min < max) : self.rangeU32 min max fuel =
    (self.boundedU32 (max - min) fuel).map fun result => (min + result.1, result.2) := by
  have hc (value self') (hr : self.boundedU32 (max - min) fuel = .ok (value, self')) :
      checked .plus min value = .ok (min + value) := by
    have hlt := toNat_add_of_lt h (boundedU32_lt (sub_ne_zero h) hr)
    rw [checked_plus, if_pos (Nat.lt_trans hlt max.isLt)]
  rw [rangeU32, checked_minus, if_pos (BitVec.le_of_lt h), Run.ok_bind]
  generalize self.boundedU32 (max - min) fuel = run at hc ⊢
  cases run
  case error => rfl
  case ok result =>
    obtain ⟨value, self'⟩ := result
    simp only [Run.ok_bind, hc value self' rfl, Except.map, pure, Except.pure]

theorem rangeU32_ne_trap (h : min < max) : self.rangeU32 min max fuel ≠ .error .trap := by
  have hb : self.boundedU32 (max - min) fuel ≠ .error .trap := boundedU32_ne_trap (sub_ne_zero h)
  rw [rangeU32_eq h]
  cases hr : self.boundedU32 (max - min) fuel <;> simp_all [Except.map]

theorem rangeU32_mem (h : min < max) (hr : self.rangeU32 min max fuel = .ok (value, self')) :
    min ≤ value ∧ value < max := by
  rw [rangeU32_eq h] at hr
  cases hb : self.boundedU32 (max - min) fuel <;> rw [hb, Except.map] at hr <;> cases hr
  case ok.refl result =>
    have hlt := toNat_add_of_lt h (boundedU32_lt (sub_ne_zero h) hb)
    have hn := BitVec.toNat_add_of_lt (Nat.lt_trans hlt max.isLt)
    rw [BitVec.le_def, BitVec.lt_def, hn]
    omega

end Range

theorem reference_init : init 42#64 54#64 = .ok ⟨0x185706b82c2e03f8#64, 109#64⟩ := by
  decide

end Pcg32

end Coglet.Stdlib
