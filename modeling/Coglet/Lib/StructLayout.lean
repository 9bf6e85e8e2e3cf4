import Mathlib.Algebra.Order.Monoid.Unbundled.Pow
import Mathlib.Data.Nat.ModEq
import Mathlib.Order.Bounds.Basic

-- Sizes, alignments and field offsets of objects in memory.
namespace StructLayout

def roundUp (value align : Nat) : Nat :=
  (value + align - 1) / align * align

section RoundUp

variable {value align : Nat}

theorem dvd_roundUp : align ∣ roundUp value align :=
  Nat.dvd_mul_left align _

theorem le_roundUp (ha : 0 < align) : value ≤ roundUp value align := by
  have hd := Nat.div_add_mod (value + align - 1) align
  have hm := Nat.mod_lt (value + align - 1) ha
  rw [Nat.mul_comm] at hd
  unfold roundUp
  omega

theorem roundUp_le {bound : Nat} (hv : value ≤ bound) (hb : align ∣ bound) : roundUp value align ≤ bound := by
  obtain ⟨k, rfl⟩ := hb
  cases Nat.eq_zero_or_pos align
  case inl h => simp [roundUp, h]
  case inr h =>
    have hq : (value + align - 1) / align ≤ k := by
      apply Nat.le_of_lt_succ
      apply (Nat.div_lt_iff_lt_mul h).mpr
      rw [Nat.succ_mul, Nat.mul_comm k]
      omega
    rw [roundUp, Nat.mul_comm align]
    exact Nat.mul_le_mul_right align hq

theorem roundUp_of_dvd (ha : 0 < align) (h : align ∣ value) : roundUp value align = value :=
  Nat.le_antisymm (roundUp_le (Nat.le_refl value) h) (le_roundUp ha)

@[simp]
theorem roundUp_zero : roundUp 0 align = 0 := by
  cases Nat.eq_zero_or_pos align
  case inl h => simp [roundUp, h]
  case inr h => exact roundUp_of_dvd h (Nat.dvd_zero align)

@[simp]
theorem roundUp_one : roundUp value 1 = value := by
  simp [roundUp]

theorem roundUp_mono {value' : Nat} (ha : 0 < align) (h : value ≤ value') : roundUp value align ≤ roundUp value' align :=
  roundUp_le (h.trans (le_roundUp ha)) dvd_roundUp

-- Rounding to a finer alignment first makes no difference.
theorem roundUp_roundUp {coarse : Nat} (ha : 0 < align) (hc : 0 < coarse) (h : align ∣ coarse) :
    roundUp (roundUp value align) coarse = roundUp value coarse := by
  apply Nat.le_antisymm
  · exact roundUp_le (roundUp_le (le_roundUp hc) (h.trans dvd_roundUp)) dvd_roundUp
  · exact roundUp_mono hc (le_roundUp ha)

end RoundUp

structure Layout where
  size  : Nat
  align : Nat
deriving DecidableEq, Repr

-- An object whose size is rounded up to its alignment.
def Layout.padded (size align : Nat) : Layout :=
  ⟨roundUp size align, align⟩

-- The alignments are powers of two, and the elements of an array are aligned.
structure Layout.Regular (l : Layout) : Prop where
  power : l.align.isPowerOfTwo
  dvd   : l.align ∣ l.size

namespace Layout

variable {l : Layout} {size align : Nat}

theorem Regular.align_pos (h : l.Regular) : 0 < l.align :=
  Nat.pos_of_isPowerOfTwo h.power

theorem padded_regular (h : align.isPowerOfTwo) : (padded size align).Regular :=
  ⟨h, dvd_roundUp⟩

theorem padded_of_regular (h : l.Regular) : padded l.size l.align = l := by
  unfold padded
  rw [roundUp_of_dvd h.align_pos h.dvd]

end Layout

theorem dvd_max_of_isPowerOfTwo {a b : Nat} (ha : a.isPowerOfTwo) (hb : b.isPowerOfTwo) : a ∣ max a b := by
  obtain ⟨i, rfl⟩ := ha
  obtain ⟨j, rfl⟩ := hb
  cases Nat.le_total i j
  case inl h =>
    rw [Nat.max_eq_right (Nat.pow_le_pow_right (by decide) h)]
    exact Nat.pow_dvd_pow 2 h
  case inr h => rw [Nat.max_eq_left (Nat.pow_le_pow_right (by decide) h)]

theorem max_isPowerOfTwo {a b : Nat} (ha : a.isPowerOfTwo) (hb : b.isPowerOfTwo) : (max a b).isPowerOfTwo := by
  cases Nat.le_total a b
  case inl h => rwa [Nat.max_eq_right h]
  case inr h => rwa [Nat.max_eq_left h]

-- The standard layout of a struct: the fields follow each other, each one at the next multiple of its alignment.
def fieldAlign (isPacked : Bool) (field : Layout) : Nat :=
  if isPacked then 1 else field.align

def offsets (isPacked : Bool) : Nat → List Layout → List Nat
  | _, [] => []
  | stop, field :: fields =>
    roundUp stop (fieldAlign isPacked field) ::
      offsets isPacked (roundUp stop (fieldAlign isPacked field) + field.size) fields

def extent (isPacked : Bool) : Nat → List Layout → Nat
  | stop, [] => stop
  | stop, field :: fields => extent isPacked (roundUp stop (fieldAlign isPacked field) + field.size) fields

def maxAlign (isPacked : Bool) : Nat → List Layout → Nat
  | align, [] => align
  | align, field :: fields => maxAlign isPacked (max align (fieldAlign isPacked field)) fields

def struct (isPacked : Bool) (fields : List Layout) : Layout :=
  .padded (extent isPacked 0 fields) (maxAlign isPacked 1 fields)

def maxSize : Nat → List Layout → Nat
  | size, [] => size
  | size, field :: fields => maxSize (max size field.size) fields

def union (isPacked : Bool) (fields : List Layout) : Layout :=
  .padded (maxSize 0 fields) (maxAlign isPacked 1 fields)

-- An object of the same fields with at least the given alignment.
def Layout.raise (l : Layout) (align : Nat) : Layout :=
  .padded l.size (max l.align align)

section Struct

variable {isPacked : Bool} {fields : List Layout} {align : Nat}

theorem struct_singleton {l : Layout} : struct isPacked [l] = .padded l.size (max 1 (fieldAlign isPacked l)) := by
  simp [struct, extent, maxAlign]

theorem struct_pair {l l' : Layout} :
    struct false [l, l'] = .padded (roundUp l.size l'.align + l'.size) (max (max 1 l.align) l'.align) := by
  simp [struct, extent, maxAlign, fieldAlign]

theorem fieldAlign_isPowerOfTwo {field : Layout} (h : field.align.isPowerOfTwo) :
    (fieldAlign isPacked field).isPowerOfTwo := by
  cases isPacked
  case false => exact h
  case true => exact Nat.isPowerOfTwo_one

theorem maxAlign_isPowerOfTwo (ha : align.isPowerOfTwo) (hf : ∀ field ∈ fields, field.align.isPowerOfTwo) :
    (maxAlign isPacked align fields).isPowerOfTwo := by
  induction fields generalizing align
  case nil => exact ha
  case cons field fields ih =>
    apply ih
    · exact max_isPowerOfTwo ha (fieldAlign_isPowerOfTwo (hf field (.head _)))
    · exact fun f h => hf f (.tail _ h)

theorem le_maxAlign : align ≤ maxAlign isPacked align fields := by
  induction fields generalizing align
  case nil => exact Nat.le_refl _
  case cons ih => exact (Nat.le_max_left _ _).trans ih

theorem maxAlign_eq_one (hf : ∀ field ∈ fields, field.align = 1) : maxAlign isPacked 1 fields = 1 := by
  induction fields
  case nil => rfl
  case cons field fields ih =>
    have ha : fieldAlign isPacked field = 1 := by
      unfold fieldAlign
      rw [hf field (.head _), ite_self]
    rw [maxAlign, ha]
    exact ih fun f h => hf f (.tail _ h)

theorem le_maxSize {size : Nat} : size ≤ maxSize size fields := by
  induction fields generalizing size
  case nil => exact Nat.le_refl _
  case cons ih => exact (Nat.le_max_left _ _).trans ih

theorem size_le_maxSize {size : Nat} {field : Layout} (h : field ∈ fields) : field.size ≤ maxSize size fields := by
  induction h generalizing size
  case head => exact (Nat.le_max_right _ _).trans le_maxSize
  case tail ih => exact ih

theorem maxSize_le {size bound : Nat} (hs : size ≤ bound) (hf : ∀ field ∈ fields, field.size ≤ bound) :
    maxSize size fields ≤ bound := by
  induction fields generalizing size
  case nil => exact hs
  case cons field fields ih => exact ih (Nat.max_le.mpr ⟨hs, hf field (.head _)⟩) fun f h => hf f (.tail _ h)

theorem fieldAlign_pos {field : Layout} (h : 0 < field.align) : 0 < fieldAlign isPacked field := by
  cases isPacked
  case false => exact h
  case true => exact Nat.one_pos

theorem offsets_length {stop : Nat} : (offsets isPacked stop fields).length = fields.length := by
  induction fields generalizing stop
  case nil => rfl
  case cons ih => exact congrArg Nat.succ ih

theorem le_extent {stop : Nat} (hf : ∀ field ∈ fields, 0 < field.align) : stop ≤ extent isPacked stop fields := by
  induction fields generalizing stop
  case nil => exact Nat.le_refl _
  case cons field fields ih =>
    have hle : stop ≤ roundUp stop (fieldAlign isPacked field) := le_roundUp (fieldAlign_pos (hf field (.head _)))
    have := @ih (roundUp stop (fieldAlign isPacked field) + field.size) fun f h => hf f (.tail _ h)
    rw [extent]
    omega

-- A field lies in the extent of its struct.
theorem offsets_get_le {stop i offset : Nat} {field : Layout} (hf : ∀ field ∈ fields, 0 < field.align)
    (hi : fields[i]? = some field) (ho : (offsets isPacked stop fields)[i]? = some offset) :
    stop ≤ offset ∧ offset + field.size ≤ extent isPacked stop fields := by
  induction fields generalizing stop i
  case nil => cases hi
  case cons first fields ih =>
    have hle : stop ≤ roundUp stop (fieldAlign isPacked first) := le_roundUp (fieldAlign_pos (hf first (.head _)))
    cases i
    case zero =>
      cases hi
      cases ho
      exact ⟨hle, le_extent fun f h => hf f (.tail _ h)⟩
    case succ i =>
      have := ih (fun f h => hf f (.tail _ h)) hi ho
      exact ⟨by omega, this.2⟩

-- Fields that are not empty lie behind each other.
theorem add_length_le_extent {stop : Nat} (hf : ∀ field ∈ fields, field.align.isPowerOfTwo ∧ 0 < field.size) :
    stop + fields.length ≤ extent isPacked stop fields := by
  induction fields generalizing stop
  case nil => exact Nat.le_refl _
  case cons field fields ih =>
    have ⟨ha, hs⟩ := hf field (.head _)
    have hr : stop ≤ roundUp stop (fieldAlign isPacked field) :=
      le_roundUp (Nat.pos_of_isPowerOfTwo (fieldAlign_isPowerOfTwo ha))
    have := @ih (roundUp stop (fieldAlign isPacked field) + field.size) fun f h => hf f (.tail _ h)
    rw [extent, List.length_cons]
    omega

theorem maxAlign_packed : maxAlign true 1 fields = 1 := by
  induction fields
  case nil => rfl
  case cons ih => exact ih

theorem struct_regular (hf : ∀ field ∈ fields, field.Regular) : (struct isPacked fields).Regular :=
  Layout.padded_regular (maxAlign_isPowerOfTwo Nat.isPowerOfTwo_one fun f h => (hf f h).power)

theorem union_regular (hf : ∀ field ∈ fields, field.Regular) : (union isPacked fields).Regular :=
  Layout.padded_regular (maxAlign_isPowerOfTwo Nat.isPowerOfTwo_one fun f h => (hf f h).power)

theorem Layout.raise_regular {l : Layout} (hl : l.Regular) (ha : align.isPowerOfTwo) : (l.raise align).Regular :=
  padded_regular (max_isPowerOfTwo hl.power ha)

-- An object of a size that is raised to a larger alignment is rounded once.
theorem Layout.raise_padded {size fine : Nat} (hf : fine.isPowerOfTwo) (ha : align.isPowerOfTwo) :
    (padded size fine).raise align = padded size (max fine align) := by
  have hp := Nat.pos_of_isPowerOfTwo hf
  have hm : 0 < max fine align := Nat.lt_of_lt_of_le hp (Nat.le_max_left _ _)
  unfold raise padded
  rw [roundUp_roundUp hp hm (dvd_max_of_isPowerOfTwo hf ha)]

end Struct

section Placement

variable {isPacked : Bool} {stop last : Nat} {fields : List Layout} {offsets : List Nat}

theorem roundUp_isLeast {value align : Nat} (ha : 0 < align) : IsLeast {x | value ≤ x ∧ align ∣ x} (roundUp value align) :=
  ⟨⟨le_roundUp ha, dvd_roundUp⟩, fun _ ⟨hv, hd⟩ => roundUp_le hv hd⟩

-- Each field lies at the least offset behind the previous field that its alignment divides.
inductive Placement (isPacked : Bool) : Nat → List Layout → List Nat → Nat → Prop
  | nil {stop : Nat} : Placement isPacked stop [] [] stop
  | cons {stop offset last : Nat} {field : Layout} {fields : List Layout} {offsets : List Nat} :
    IsLeast {x | stop ≤ x ∧ fieldAlign isPacked field ∣ x} offset →
    Placement isPacked (offset + field.size) fields offsets last →
    Placement isPacked stop (field :: fields) (offset :: offsets) last

theorem Placement.le (h : Placement isPacked stop fields offsets last) : stop ≤ last := by
  induction h
  case nil => exact Nat.le_refl _
  case cons ho _ ih => exact (ho.1.1.trans (Nat.le_add_right _ _)).trans ih

theorem Placement.within (h : Placement isPacked stop fields offsets last) :
    ∀ field ∈ offsets.zip fields, stop ≤ field.1 ∧ field.1 + field.2.size ≤ last := by
  induction h
  case nil => exact fun _ hm => nomatch hm
  case cons ho hp ih =>
    rw [List.zip_cons_cons]
    refine List.forall_mem_cons.mpr ⟨⟨ho.1.1, hp.le⟩, fun field hm => ⟨?_, (ih field hm).2⟩⟩
    exact (ho.1.1.trans (Nat.le_add_right _ _)).trans (ih field hm).1

-- The fields do not overlap.
theorem Placement.pairwise (h : Placement isPacked stop fields offsets last) :
    (offsets.zip fields).Pairwise fun f g => f.1 + f.2.size ≤ g.1 := by
  induction h
  case nil => exact .nil
  case cons hp ih =>
    rw [List.zip_cons_cons]
    exact .cons (fun field hm => (hp.within field hm).1) ih

end Placement

end StructLayout
