import Coglet.Lib.StructLayout
import Mathlib.Data.Nat.Bitwise
import Mathlib.Order.Interval.Finset.Nat

-- Aligned regions of an address space.

structure Region where
  start : Nat
  size  : Nat
deriving DecidableEq, Repr

namespace Region

variable {r s t : Region}

def stop (r : Region) : Nat :=
  r.start + r.size

def Disjoint (r s : Region) : Prop :=
  r.stop ≤ s.start ∨ s.stop ≤ r.start

instance : Decidable (Disjoint r s) :=
  inferInstanceAs (Decidable (_ ∨ _))

def Within (r s : Region) : Prop :=
  s.start ≤ r.start ∧ r.stop ≤ s.stop

instance : Decidable (Within r s) :=
  inferInstanceAs (Decidable (_ ∧ _))

def Contains (r : Region) (x : Nat) : Prop :=
  r.start ≤ x ∧ x < r.stop

theorem Disjoint.symm (h : r.Disjoint s) : s.Disjoint r :=
  Or.symm h

theorem Within.refl (r : Region) : r.Within r :=
  ⟨Nat.le_refl _, Nat.le_refl _⟩

theorem Within.trans (h₁ : r.Within s) (h₂ : s.Within t) : r.Within t :=
  ⟨h₂.1.trans h₁.1, h₁.2.trans h₂.2⟩

theorem Disjoint.mono_left (h : s.Disjoint t) (hw : r.Within s) : r.Disjoint t :=
  h.imp hw.2.trans fun h => h.trans hw.1

theorem Disjoint.mono {r' s' : Region} (h : r'.Disjoint s') (hr : r.Within r') (hs : s.Within s') : r.Disjoint s :=
  ((h.mono_left hr).symm.mono_left hs).symm

-- The addresses of disjoint regions are pairwise distinct.
theorem exists_addresses {regions : List Region} (hd : regions.Pairwise Disjoint) : ∃ addresses : Finset Nat,
    addresses.card = (regions.map size).sum ∧ ∀ x ∈ addresses, ∃ r ∈ regions, r.Contains x := by
  induction hd
  case nil => exact ⟨∅, rfl, fun _ hx => absurd hx (Finset.notMem_empty _)⟩
  case cons r regions hr _ hi =>
    obtain ⟨addresses, hc, hm⟩ := hi
    have hnot : ∀ ⦃x⦄, x ∈ Finset.Ico r.start r.stop → x ∉ addresses := by
      intro x hx hx'
      obtain ⟨s, hs, hle, hlt⟩ := hm x hx'
      obtain ⟨hle', hlt'⟩ := Finset.mem_Ico.mp hx
      cases hr s hs
      case inl h => omega
      case inr h => omega
    refine ⟨Finset.Ico r.start r.stop ∪ addresses, ?_, fun x hx => ?_⟩
    case refine_1 =>
      rw [Finset.card_union_of_disjoint (Finset.disjoint_left.mpr hnot), Nat.card_Ico, hc, stop, Nat.add_sub_cancel_left,
        List.map_cons, List.sum_cons]
    case refine_2 =>
      cases Finset.mem_union.mp hx
      case inl hx => exact ⟨r, List.mem_cons_self, Finset.mem_Ico.mp hx⟩
      case inr hx =>
        obtain ⟨s, hs, hx⟩ := hm x hx
        exact ⟨s, List.mem_cons_of_mem _ hs, hx⟩

theorem sum_size_le {regions : List Region} {n : Nat} (hd : regions.Pairwise Disjoint) (hn : ∀ r ∈ regions, r.stop ≤ n) :
    (regions.map size).sum ≤ n := by
  obtain ⟨addresses, hc, hm⟩ := exists_addresses hd
  have hsub : addresses ⊆ Finset.range n := fun x hx => by
    obtain ⟨r, hr, -, hlt⟩ := hm x hx
    exact Finset.mem_range.mpr (Nat.lt_of_lt_of_le hlt (hn r hr))
  rw [← hc, ← Finset.card_range n]
  exact Finset.card_le_card hsub

end Region

namespace Alignment

open StructLayout

variable {w : Nat} {value alignment : BitVec w}

-- The address arithmetic is modulo `2 ^ w`.
def alignUp (value alignment : BitVec w) : BitVec w :=
  (value + (alignment - 1#w)) &&& ~~~(alignment - 1#w)

theorem toNat_sub_one (ha : 0 < alignment.toNat) : (alignment - 1#w).toNat = alignment.toNat - 1 := by
  have h1 : (1#w).toNat = 1 := by
    rw [BitVec.toNat_ofNat]
    exact Nat.mod_eq_of_lt (Nat.lt_of_le_of_lt ha alignment.isLt)
  rw [BitVec.toNat_sub_of_le (by rwa [BitVec.le_def, h1]), h1]

-- The mask clears the low bits.
theorem toNat_and_mask {k : Nat} (ha : alignment.toNat = 2 ^ k) (x : BitVec w) :
    (x &&& ~~~(alignment - 1#w)).toNat = x.toNat / 2 ^ k * 2 ^ k := by
  have hs : (alignment - 1#w).toNat = 2 ^ k - 1 := ha ▸ toNat_sub_one (ha ▸ Nat.two_pow_pos k)
  have hm : x &&& ~~~(alignment - 1#w) = (x >>> k) <<< k := by
    apply BitVec.eq_of_getElem_eq
    intro i hi
    have hb : (alignment - 1#w)[i] = decide (i < k) := by
      rw [← BitVec.getLsbD_eq_getElem, BitVec.getLsbD, hs, Nat.testBit_two_pow_sub_one]
    by_cases h : i < k
    case pos => simp [hb, h]
    case neg =>
      have he : k + (i - k) = i := by omega
      simp [hb, h, he, BitVec.getLsbD_eq_getElem hi]
  have hl : x.toNat / 2 ^ k * 2 ^ k < 2 ^ w := Nat.lt_of_le_of_lt (Nat.div_mul_le_self _ _) x.isLt
  rw [hm, BitVec.toNat_shiftLeft, BitVec.toNat_ushiftRight, Nat.shiftRight_eq_div_pow, Nat.shiftLeft_eq,
    Nat.mod_eq_of_lt hl]

theorem toNat_alignUp (ha : alignment.toNat.isPowerOfTwo) : (alignUp value alignment).toNat =
    (value.toNat + (alignment.toNat - 1)) % 2 ^ w / alignment.toNat * alignment.toNat := by
  obtain ⟨k, hk⟩ := ha
  rw [alignUp, toNat_and_mask hk, BitVec.toNat_add, toNat_sub_one (hk ▸ Nat.two_pow_pos k), hk]

theorem dvd_two_pow (ha : alignment.toNat.isPowerOfTwo) : alignment.toNat ∣ 2 ^ w := by
  obtain ⟨k, hk⟩ := ha
  rw [hk]
  exact Nat.pow_dvd_pow 2 (Nat.le_of_lt ((Nat.pow_lt_pow_iff_right (by decide)).mp (hk ▸ alignment.isLt)))

theorem dvd_alignUp (ha : alignment.toNat.isPowerOfTwo) : alignment.toNat ∣ (alignUp value alignment).toNat := by
  rw [toNat_alignUp ha]
  exact Nat.dvd_mul_left _ _

theorem roundUp_lt_iff (ha : alignment.toNat.isPowerOfTwo) :
    roundUp value.toNat alignment.toNat < 2 ^ w ↔ value.toNat + (alignment.toNat - 1) < 2 ^ w := by
  have hp : 0 < alignment.toNat := Nat.pos_of_isPowerOfTwo ha
  rw [roundUp, Nat.add_sub_assoc hp]
  constructor
  case mp =>
    intro h
    apply Nat.lt_of_not_le
    intro hle
    have hd := Nat.mul_le_mul_right alignment.toNat (Nat.div_le_div_right (c := alignment.toNat) hle)
    rw [Nat.div_mul_cancel (dvd_two_pow ha)] at hd
    exact Nat.not_lt_of_le hd h
  case mpr => exact Nat.lt_of_le_of_lt (Nat.div_mul_le_self _ _)

theorem toNat_alignUp_of_lt (ha : alignment.toNat.isPowerOfTwo) (h : roundUp value.toNat alignment.toNat < 2 ^ w) :
    (alignUp value alignment).toNat = roundUp value.toNat alignment.toNat := by
  rw [toNat_alignUp ha, Nat.mod_eq_of_lt ((roundUp_lt_iff ha).mp h), roundUp,
    Nat.add_sub_assoc (Nat.pos_of_isPowerOfTwo ha)]

-- The rounding goes past the end of the address space.
theorem alignUp_eq_zero (ha : alignment.toNat.isPowerOfTwo) (h : 2 ^ w ≤ roundUp value.toNat alignment.toNat) :
    alignUp value alignment = 0#w := by
  have hv := value.isLt
  have hl : 2 ^ w ≤ value.toNat + (alignment.toNat - 1) :=
    Nat.le_of_not_lt fun hl => Nat.not_lt_of_le h ((roundUp_lt_iff ha).mpr hl)
  have hm : (value.toNat + (alignment.toNat - 1)) % 2 ^ w < alignment.toNat := by
    rw [Nat.mod_eq_sub_mod hl, Nat.mod_eq_of_lt (by omega)]
    omega
  apply BitVec.eq_of_toNat_eq
  rw [toNat_alignUp ha, Nat.div_eq_of_lt hm, Nat.zero_mul, BitVec.toNat_ofNat, Nat.zero_mod]

end Alignment
