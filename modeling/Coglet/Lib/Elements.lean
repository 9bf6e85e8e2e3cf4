import Mathlib.Data.BitVec

-- Elements of one type that follow each other in a memory of bytes.

structure ByteRepresentation (w : Nat) (α : Type) where
  size          : BitVec w
  alignment     : BitVec w
  encode        : α → Nat → BitVec 8
  decode        : (Nat → BitVec 8) → α
  decode_encode : ∀ x bytes, (∀ i < size.toNat, bytes i = encode x i) → decode bytes = x

namespace ByteRepresentation

variable {w : Nat} {α : Type} (t : ByteRepresentation w α) {memory memory' : BitVec w → BitVec 8} {base base' index : BitVec w}
  {x : α} {xs ys : List α}

def load (memory : BitVec w → BitVec 8) (address : BitVec w) : α :=
  t.decode fun i => memory (address + BitVec.ofNat w i)

def store (memory : BitVec w → BitVec 8) (address : BitVec w) (x : α) : BitVec w → BitVec 8 := fun a =>
  if a - address < t.size then t.encode x (a - address).toNat else memory a

def element (base index : BitVec w) : BitVec w :=
  base + index * t.size

def elements (memory : BitVec w → BitVec 8) (base : BitVec w) (count : Nat) : List α :=
  (List.range count).map fun i => t.load memory (t.element base (BitVec.ofNat w i))

-- The bytes from the base on are those of the elements.
def Stores (memory : BitVec w → BitVec 8) (base : BitVec w) (xs : List α) : Prop :=
  ∀ i x, xs[i]? = some x → ∀ b < t.size.toNat, memory (base + BitVec.ofNat w (i * t.size.toNat + b)) = t.encode x b

variable {t}

theorem element_add (b : Nat) :
    t.element base index + BitVec.ofNat w b = base + BitVec.ofNat w (index.toNat * t.size.toNat + b) := by
  rw [element, BitVec.add_assoc, BitVec.ofNat_add, BitVec.ofNat_mul, BitVec.ofNat_toNat, BitVec.ofNat_toNat,
    BitVec.setWidth_eq, BitVec.setWidth_eq]

theorem Stores.nil : t.Stores memory base [] :=
  fun _ _ h => nomatch h

theorem Stores.load (h : t.Stores memory base xs) (hx : xs[index.toNat]? = some x) :
    t.load memory (t.element base index) = x :=
  t.decode_encode x _ fun b hb => element_add (t := t) b ▸ h _ x hx b hb

theorem Stores.of_append (h : t.Stores memory base (xs ++ ys)) : t.Stores memory base xs :=
  fun i x hx => h i x ((List.getElem?_append_left (List.getElem?_eq_some_iff.mp hx).1).trans hx)

theorem byte_lt {i b : Nat} (hi : i < xs.length) (hb : b < t.size.toNat) :
    i * t.size.toNat + b < xs.length * t.size.toNat := by
  have hle := Nat.mul_le_mul_right t.size.toNat (Nat.succ_le_of_lt hi)
  rw [Nat.succ_mul] at hle
  omega

-- A copy of the bytes is a copy of the elements.
theorem Stores.copy (h : t.Stores memory base xs) (hc : ∀ i < xs.length * t.size.toNat,
    memory' (base' + BitVec.ofNat w i) = memory (base + BitVec.ofNat w i)) : t.Stores memory' base' xs := by
  intro i x hx b hb
  rw [hc _ (byte_lt (List.getElem?_eq_some_iff.mp hx).1 hb)]
  exact h i x hx b hb

theorem Stores.store (h : t.Stores memory base xs) (hi : index.toNat = xs.length)
    (hl : (xs.length + 1) * t.size.toNat ≤ 2 ^ w) : t.Stores (t.store memory (t.element base index) x) base (xs ++ [x]) := by
  have hs := t.size.isLt
  rw [Nat.succ_mul] at hl
  have hoffset (n : Nat) : base + BitVec.ofNat w n - t.element base index =
      BitVec.ofNat w n - BitVec.ofNat w (xs.length * t.size.toNat) := by
    have he : t.element base index = base + BitVec.ofNat w (xs.length * t.size.toNat) := by
      simpa only [BitVec.add_zero, Nat.add_zero, hi] using @element_add w α t base index 0
    rw [he, add_sub_add_left_eq_sub]
  intro i y hy b hb
  rw [ByteRepresentation.store, hoffset]
  rcases Nat.lt_or_ge i xs.length with hlt | hge
  case inl =>
    have hbyte := byte_lt (t := t) hlt hb
    rw [List.getElem?_append_left hlt] at hy
    rw [if_neg]
    · exact h i y hy b hb
    · have hl' : (BitVec.ofNat w (xs.length * t.size.toNat)).toNat = xs.length * t.size.toNat :=
        (BitVec.toNat_ofNat _ _).trans (Nat.mod_eq_of_lt (by omega))
      have hb' : (BitVec.ofNat w (i * t.size.toNat + b)).toNat = i * t.size.toNat + b :=
        (BitVec.toNat_ofNat _ _).trans (Nat.mod_eq_of_lt (by omega))
      rw [BitVec.lt_def, BitVec.toNat_sub, hl', hb', Nat.mod_eq_of_lt (by omega)]
      omega
  case inr =>
    rw [List.getElem?_append_right hge] at hy
    obtain ⟨hzero, rfl⟩ : i - xs.length = 0 ∧ x = y := by
      cases hn : i - xs.length
      case zero =>
        rw [hn] at hy
        exact ⟨rfl, Option.some.inj hy⟩
      case succ => simp [hn] at hy
    have hlen : i = xs.length := by omega
    have hd : (BitVec.ofNat w (i * t.size.toNat + b) - BitVec.ofNat w (xs.length * t.size.toNat)).toNat = b := by
      rw [hlen, BitVec.ofNat_add, BitVec.add_comm, BitVec.add_sub_cancel, BitVec.toNat_ofNat, Nat.mod_eq_of_lt (by omega)]
    rw [if_pos (by rw [BitVec.lt_def, hd]; exact hb), hd]

theorem Stores.elements (h : t.Stores memory base xs) (hl : xs.length ≤ 2 ^ w) : t.elements memory base xs.length = xs := by
  refine List.ext_getElem (by simp [ByteRepresentation.elements]) fun i hi hx => ?_
  simp only [ByteRepresentation.elements, List.getElem_map, List.getElem_range]
  refine h.load ?_
  rw [BitVec.toNat_ofNat, Nat.mod_eq_of_lt (by omega), List.getElem?_eq_getElem hx]

end ByteRepresentation
