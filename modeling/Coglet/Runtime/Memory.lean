import Coglet.Lib.Region

open StructLayout Alignment

-- The memory component of the C runtime for targets with 64-bit addresses.
namespace Coglet.Runtime

abbrev Uintptr := BitVec 64

abbrev SizeT := BitVec 64

abbrev Memory := Uintptr → BitVec 8

def SIZE_MAX : SizeT := 0xffffffffffffffff#64

def sizeofPointer : SizeT := 8#64

def region (address : Uintptr) (size : SizeT) : Region :=
  ⟨address.toNat, size.toNat⟩

-- The result `none` is a call of `abort`.
def checkedAlignment (value : SizeT) : Option SizeT :=
  if value = 0#64 ∨ value &&& (value - 1#64) ≠ 0#64 ∨ SIZE_MAX < value then none
  else if value < sizeofPointer then some sizeofPointer
  else some value

def memcpy (memory : Memory) (destination source : Uintptr) (count : SizeT) : Memory := fun address =>
  if address - destination < count then memory (source + (address - destination)) else memory address

def memset (memory : Memory) (destination : Uintptr) (byte : BitVec 8) (count : SizeT) : Memory := fun address =>
  if address - destination < count then byte else memory address

-- What the parent allocator of an allocator returns for a size and an alignment.
abbrev Allocate := SizeT → SizeT → Uintptr

-- A new block of the requested size.
structure Fresh (live : List Region) (address : Uintptr) (size : SizeT) : Prop where
  aligned  : 8 ∣ address.toNat
  stop     : address.toNat + size.toNat ≤ 2 ^ 64
  disjoint : ∀ r ∈ live, r.Disjoint (region address size)

-- The parent allocator returns new blocks only.
def Honest (allocate : Allocate) (live : List Region) : Prop :=
  ∀ size, allocate size sizeofPointer ≠ 0#64 → Fresh live (allocate size sizeofPointer) size

variable {value alignment : SizeT} {destination source address : Uintptr} {count : SizeT} {memory : Memory}

theorem toNat_pos_of_ne (h : value ≠ 0#64) : 0 < value.toNat :=
  Nat.pos_of_ne_zero fun hz => h (BitVec.eq_of_toNat_eq hz)

theorem toNat_isPowerOfTwo : value.toNat.isPowerOfTwo ↔ value ≠ 0#64 ∧ value &&& (value - 1#64) = 0#64 := by
  rw [← Nat.ne_zero_and_sub_one_eq_zero_iff_isPowerOfTwo, ← BitVec.toNat_inj, BitVec.toNat_and]
  by_cases h : value = 0#64
  case pos => simp [h]
  case neg =>
    have hp : value.toNat ≠ 0 := fun hz => h (BitVec.eq_of_toNat_eq hz)
    rw [toNat_sub_one (Nat.pos_of_ne_zero hp)]
    simp [h, hp]

theorem checkedAlignment_of_isPowerOfTwo (hp : value.toNat.isPowerOfTwo) :
    ∃ alignment, checkedAlignment value = some alignment ∧ alignment.toNat = max value.toNat 8 := by
  have hm : ¬SIZE_MAX < value := BitVec.not_lt.mpr (BitVec.le_def.mpr (Nat.le_of_lt_succ value.isLt))
  have h8 : sizeofPointer.toNat = 8 := rfl
  obtain ⟨hz, ha⟩ := toNat_isPowerOfTwo.mp hp
  rw [checkedAlignment, if_neg (by simp [hz, ha, hm])]
  split
  case isTrue h =>
    rw [BitVec.lt_def, h8] at h
    exact ⟨_, rfl, by rw [h8, Nat.max_eq_right (Nat.le_of_lt h)]⟩
  case isFalse h =>
    rw [BitVec.lt_def, h8, Nat.not_lt] at h
    exact ⟨_, rfl, by rw [Nat.max_eq_left h]⟩

theorem checkedAlignment_eq_none (hp : ¬value.toNat.isPowerOfTwo) : checkedAlignment value = none := by
  rw [toNat_isPowerOfTwo, not_and_or, not_not] at hp
  exact if_pos (hp.imp id .inl)

theorem checkedAlignment_eq_some (h : checkedAlignment value = some alignment) :
    value.toNat.isPowerOfTwo ∧ alignment.toNat = max value.toNat 8 := by
  by_cases hp : value.toNat.isPowerOfTwo
  case pos =>
    obtain ⟨alignment', h', ha⟩ := checkedAlignment_of_isPowerOfTwo hp
    rw [Option.some.inj (h.symm.trans h')]
    exact ⟨hp, ha⟩
  case neg => cases (checkedAlignment_eq_none hp).symm.trans h

-- The alignment that an allocator uses is a multiple of the requested one.
theorem dvd_of_checkedAlignment (h : checkedAlignment value = some alignment) :
    alignment.toNat.isPowerOfTwo ∧ value.toNat ∣ alignment.toNat ∧ 8 ∣ alignment.toNat := by
  obtain ⟨hp, ha⟩ := checkedAlignment_eq_some h
  have h8 : Nat.isPowerOfTwo 8 := ⟨3, rfl⟩
  rw [ha]
  exact ⟨max_isPowerOfTwo hp h8, dvd_max_of_isPowerOfTwo hp h8, Nat.max_comm _ _ ▸ dvd_max_of_isPowerOfTwo h8 hp⟩

section Bump

variable {base used capacity size : SizeT}

theorem toNat_alignUp_add (ha : alignment.toNat.isPowerOfTwo)
    (hl : roundUp (base.toNat + used.toNat) alignment.toNat < 2 ^ 64) :
    (alignUp (base + used) alignment).toNat = roundUp (base.toNat + used.toNat) alignment.toNat ∧
    (alignUp (base + used) alignment - base).toNat = roundUp (base.toNat + used.toNat) alignment.toNat - base.toNat := by
  have hle : base.toNat + used.toNat ≤ roundUp (base.toNat + used.toNat) alignment.toNat :=
    le_roundUp (Nat.pos_of_isPowerOfTwo ha)
  have hn : (base + used).toNat = base.toNat + used.toNat := by
    rw [BitVec.toNat_add]
    omega
  have hr : (alignUp (base + used) alignment).toNat = roundUp (base.toNat + used.toNat) alignment.toNat := by
    rw [← hn] at hl ⊢
    exact toNat_alignUp_of_lt ha hl
  exact ⟨hr, by rw [BitVec.toNat_sub_of_le (BitVec.le_def.mpr (by omega)), hr]⟩

-- The check of the bump allocators: an aligned block after the first `used` bytes fits.
theorem alignUp_fits_iff (ha : alignment.toNat.isPowerOfTwo) (hb : 0 < base.toNat)
    (hs : base.toNat + capacity.toNat ≤ 2 ^ 64) (hu : used.toNat ≤ capacity.toNat) (hz : 0 < size.toNat) :
    (base ≤ alignUp (base + used) alignment ∧
      (alignUp (base + used) alignment - base).toNat + size.toNat ≤ capacity.toNat) ↔
    roundUp (base.toNat + used.toNat) alignment.toNat + size.toNat ≤ base.toNat + capacity.toNat := by
  have hle : base.toNat + used.toNat ≤ roundUp (base.toNat + used.toNat) alignment.toNat :=
    le_roundUp (Nat.pos_of_isPowerOfTwo ha)
  rw [BitVec.le_def]
  cases Nat.lt_or_ge (roundUp (base.toNat + used.toNat) alignment.toNat) (2 ^ 64)
  case inl hl =>
    obtain ⟨hr, hd⟩ := toNat_alignUp_add ha hl
    rw [hd, hr]
    omega
  case inr hl =>
    -- Either the address of the first unused byte wraps around, or the rounding does.
    have hw : alignUp (base + used) alignment = 0#64 := by
      cases Nat.lt_or_ge (base.toNat + used.toNat) (2 ^ 64)
      case inl hn =>
        have hn' : (base + used).toNat = base.toNat + used.toNat := by
          rw [BitVec.toNat_add]
          omega
        exact alignUp_eq_zero ha (hn'.symm ▸ hl)
      case inr hn =>
        have hn' : base + used = 0#64 := by
          apply BitVec.eq_of_toNat_eq
          rw [BitVec.toNat_add, BitVec.toNat_ofNat]
          omega
        apply BitVec.eq_of_toNat_eq
        rw [hn', toNat_alignUp_of_lt ha] <;> rw [BitVec.toNat_ofNat, Nat.zero_mod, roundUp_zero]
        exact Nat.two_pow_pos 64
    rw [hw, BitVec.toNat_ofNat]
    omega

end Bump

theorem sub_lt_iff (h : destination.toNat + count.toNat ≤ 2 ^ 64) :
    address - destination < count ↔ destination.toNat ≤ address.toNat ∧ address.toNat < destination.toNat + count.toNat := by
  rw [BitVec.lt_def, BitVec.toNat_sub]
  omega

theorem memcpy_of_not_mem (h : destination.toNat + count.toNat ≤ 2 ^ 64)
    (ha : ¬(destination.toNat ≤ address.toNat ∧ address.toNat < destination.toNat + count.toNat)) :
    memcpy memory destination source count address = memory address :=
  if_neg (mt (sub_lt_iff h).mp ha)

theorem memcpy_add {i : Nat} (h : i < count.toNat) :
    memcpy memory destination source count (destination + BitVec.ofNat 64 i) = memory (source + BitVec.ofNat 64 i) := by
  have hd : destination + BitVec.ofNat 64 i - destination = BitVec.ofNat 64 i := by
    rw [BitVec.add_comm, BitVec.add_sub_cancel]
  rw [memcpy, hd, if_pos]
  rw [BitVec.lt_def, BitVec.toNat_ofNat, Nat.mod_eq_of_lt (h.trans count.isLt)]
  exact h

end Coglet.Runtime
