import Coglet.Lib.TwosComplement

-- Integer expressions and statements of C11, on machines whose `int` has 32 bits. Undefined and
-- implementation-defined steps are not distinguished.

open TwosComplement

namespace CInteger

structure Ty where
  width    : Nat
  isSigned : Bool
deriving DecidableEq, Repr

namespace Ty

def int    : Ty := ⟨32, true⟩
def uint   : Ty := ⟨32, false⟩
def int64  : Ty := ⟨64, true⟩
def uint64 : Ty := ⟨64, false⟩

def Contains (t : Ty) (z : Int) : Prop :=
  InRange t.isSigned t.width z

instance : Decidable (Contains t z) :=
  inferInstanceAs (Decidable (InRange _ _ _))

-- Every value of a type that is narrower than `int` is a value of `int`.
def promote (t : Ty) : Ty :=
  if t.width < 32 then int else t

-- The usual arithmetic conversions.
def usual (t₁ t₂ : Ty) : Ty :=
  if t₁.promote.width = t₂.promote.width then ⟨t₁.promote.width, t₁.promote.isSigned && t₂.promote.isSigned⟩
  else if t₁.promote.width < t₂.promote.width then t₂.promote
  else t₁.promote

-- Values that a signed type does not contain are neither converted to it nor results of its arithmetic.
def convert (t : Ty) (z : Int) : Option Int :=
  if t.Contains z then some z
  else if t.isSigned then none
  else some (z % 2 ^ t.width)

end Ty

inductive Arithmetic
  | add | sub | mul | div | mod
deriving DecidableEq, Repr

inductive Bitwise
  | and | or | xor
deriving DecidableEq, Repr

inductive Shift
  | left | right
deriving DecidableEq, Repr

inductive Relation
  | lt | gt | ge | eq | ne
deriving DecidableEq, Repr

inductive Expr (ν : Type)
  | literal (type : Ty) (value : Int)
  | var (x : ν)
  | cast (type : Ty) (e : Expr ν)
  | neg (e : Expr ν)
  | complement (e : Expr ν)
  | arithmetic (op : Arithmetic) (e₁ e₂ : Expr ν)
  | bitwise (op : Bitwise) (e₁ e₂ : Expr ν)
  | shift (op : Shift) (e₁ e₂ : Expr ν)
  | compare (r : Relation) (e₁ e₂ : Expr ν)
  | and (e₁ e₂ : Expr ν)
  | or (e₁ e₂ : Expr ν)
  | conditional (c e₁ e₂ : Expr ν)
deriving DecidableEq, Repr

-- The types and values of the variables that have been declared.
def Store (ν : Type) := ν → Option (Ty × Int)

def Store.set [DecidableEq ν] (s : Store ν) (x : ν) (t : Ty) (z : Int) : Store ν :=
  fun x' => if x' = x then some (t, z) else s x'

def Arithmetic.apply (t : Ty) (x y : Int) : Arithmetic → Option Int
  | add => t.convert (x + y)
  | sub => t.convert (x - y)
  | mul => t.convert (x * y)
  | div => if y = 0 then none else t.convert (x.tdiv y)
  | mod => if y = 0 then none else (t.convert (x.tdiv y)).bind fun _ => t.convert (x.tmod y)

def Bitwise.onBits : Bitwise → BitVec w → BitVec w → BitVec w
  | and, x, y => x &&& y
  | or,  x, y => x ||| y
  | xor, x, y => x ^^^ y

-- The operands of bitwise operators are read in two's complement.
def Bitwise.apply (t : Ty) (op : Bitwise) (x y : Int) : Int :=
  decode t.isSigned (op.onBits (BitVec.ofInt t.width x) (BitVec.ofInt t.width y))

-- A negative number must not be shifted.
def Shift.apply (t : Ty) (op : Shift) (x count : Int) : Option Int :=
  if count < 0 ∨ t.width ≤ count ∨ x < 0 then none
  else
    match op with
    | left  => t.convert (x * 2 ^ count.toNat)
    | right => some (x / 2 ^ count.toNat)

def Relation.Holds : Relation → Int → Int → Prop
  | lt, x, y => x < y
  | gt, x, y => y < x
  | ge, x, y => y ≤ x
  | eq, x, y => x = y
  | ne, x, y => x ≠ y

instance : Decidable (Relation.Holds r x y) := by
  cases r <;> unfold Relation.Holds <;> infer_instance

def truth (p : Prop) [Decidable p] : Int :=
  if p then 1 else 0

namespace Expr

@[simp]
def typeOf (s : Store ν) : Expr ν → Ty
  | literal t _        => t
  | var x              => ((s x).map (·.1)).getD .int
  | cast t _           => t
  | neg e              => (typeOf s e).promote
  | complement e       => (typeOf s e).promote
  | arithmetic _ e₁ e₂ => (typeOf s e₁).usual (typeOf s e₂)
  | bitwise _ e₁ e₂    => (typeOf s e₁).usual (typeOf s e₂)
  | shift _ e _        => (typeOf s e).promote
  | compare ..         => .int
  | and ..             => .int
  | or ..              => .int
  | conditional _ e₁ e₂ => (typeOf s e₁).usual (typeOf s e₂)

-- The right operand of a logical operator is evaluated only if the left one does not decide the result.
@[simp]
def eval (s : Store ν) : Expr ν → Option Int
  | literal _ z => some z
  | var x       => (s x).map (·.2)
  | cast t e    => (eval s e).bind t.convert
  | neg e       => do
    let x ← eval s e
    (typeOf s e).promote.convert (-x)
  | complement e => do
    let x ← eval s e
    return decode (typeOf s e).promote.isSigned (~~~BitVec.ofInt (typeOf s e).promote.width x)
  | arithmetic op e₁ e₂ => do
    let x ← eval s e₁
    let y ← eval s e₂
    let t := (typeOf s e₁).usual (typeOf s e₂)
    op.apply t (← t.convert x) (← t.convert y)
  | bitwise op e₁ e₂ => do
    let x ← eval s e₁
    let y ← eval s e₂
    let t := (typeOf s e₁).usual (typeOf s e₂)
    return op.apply t (← t.convert x) (← t.convert y)
  | shift op e₁ e₂ => do
    let x ← eval s e₁
    let y ← eval s e₂
    op.apply (typeOf s e₁).promote x y
  | compare r e₁ e₂ => do
    let x ← eval s e₁
    let y ← eval s e₂
    let t := (typeOf s e₁).usual (typeOf s e₂)
    return truth (r.Holds (← t.convert x) (← t.convert y))
  | and e₁ e₂ => do
    if (← eval s e₁) = 0 then return 0
    else return truth ((← eval s e₂) ≠ 0)
  | or e₁ e₂ => do
    if (← eval s e₁) ≠ 0 then return 1
    else return truth ((← eval s e₂) ≠ 0)
  | conditional c e₁ e₂ => do
    let t := (typeOf s e₁).usual (typeOf s e₂)
    if (← eval s c) ≠ 0 then t.convert (← eval s e₁)
    else t.convert (← eval s e₂)

end Expr

inductive Outcome (α : Type)
  | undefined
  | aborted
  | value (a : α)
deriving DecidableEq, Repr

namespace Outcome

@[simp]
def bind : Outcome α → (α → Outcome β) → Outcome β
  | undefined, _ => undefined
  | aborted,   _ => aborted
  | value a,   f => f a

instance : Monad Outcome where
  pure := value
  bind := bind

@[simp]
def ofOption : Option α → Outcome α
  | some a => value a
  | none   => undefined

end Outcome

inductive Stmt (ν : Type)
  | skip
  | seq (s₁ s₂ : Stmt ν)
  | declare (type : Ty) (x : ν) (e : Expr ν)
  | assign (x : ν) (e : Expr ν)
  | ite (c : Expr ν) (s₁ s₂ : Stmt ν)
  | abort
deriving DecidableEq, Repr

namespace Stmt

def abortIf (c : Expr ν) : Stmt ν :=
  ite c abort skip

def block (statements : List (Stmt ν)) : Stmt ν :=
  statements.foldr seq skip

variable [DecidableEq ν]

-- The value of an initializer or of an assigned expression is converted to the type of the variable.
@[simp]
def exec (s : Store ν) : Stmt ν → Outcome (Store ν)
  | skip          => .value s
  | seq s₁ s₂     => (exec s s₁).bind fun s => exec s s₂
  | declare t x e => (Outcome.ofOption ((e.eval s).bind t.convert)).bind fun z => .value (s.set x t z)
  | assign x e    =>
    (Outcome.ofOption ((s x).bind fun v => (e.eval s).bind v.1.convert)).bind fun z =>
      .value (s.set x (((s x).map (·.1)).getD .int) z)
  | ite c s₁ s₂   =>
    (Outcome.ofOption (c.eval s)).bind fun z => if z ≠ 0 then exec s s₁ else exec s s₂
  | abort         => .aborted

end Stmt
section Conversion

variable {t t₁ t₂ : Ty} {z : Int} {w : Nat}

theorem convert_of_contains (h : t.Contains z) : t.convert z = some z :=
  if_pos h

theorem contains_toNat (b : BitVec w) : Ty.Contains ⟨w, false⟩ b.toNat := by
  rw [Ty.Contains, inRange_unsigned]
  exact ⟨Int.natCast_nonneg _, by exact_mod_cast b.isLt⟩

theorem convert_unsigned (w : Nat) (z : Int) : Ty.convert ⟨w, false⟩ z = some ((BitVec.ofInt w z).toNat : Int) := by
  have hp : (0 : Int) < 2 ^ w := by positivity
  have hm : ((BitVec.ofInt w z).toNat : Int) = z % 2 ^ w := by
    rw [BitVec.toNat_ofInt]
    push_cast
    exact Int.toNat_of_nonneg (Int.emod_nonneg z hp.ne')
  rw [hm]
  unfold Ty.convert
  split
  case isTrue h  => rw [Int.emod_eq_of_lt h.left h.right]
  case isFalse h => rfl

theorem convert_uint64 (z : Int) : Ty.uint64.convert z = some ((BitVec.ofInt 64 z).toNat : Int) :=
  convert_unsigned 64 z

theorem convert_toNat (b : BitVec 64) : Ty.uint64.convert b.toNat = some (b.toNat : Int) :=
  convert_of_contains (contains_toNat b)

-- A signed type of at least `w` bits contains the values of a signed type of `w` bits.
theorem contains_of_le (h : Ty.Contains ⟨w, true⟩ z) (hw : w ≤ n) : Ty.Contains ⟨n, true⟩ z := by
  have hp : (2 : Int) ^ (w - 1) ≤ 2 ^ (n - 1) := pow_le_pow_right₀ (by norm_num) (by omega)
  simp only [Ty.Contains, inRange_signed] at h ⊢
  omega

theorem contains_of_lt (h : Ty.Contains ⟨w, false⟩ z) (hw : w < n) : Ty.Contains ⟨n, s⟩ z := by
  have hp : (2 : Int) ^ w ≤ 2 ^ (n - 1) := pow_le_pow_right₀ (by norm_num) (by omega)
  have hq : (2 : Int) ^ (n - 1) ≤ 2 ^ n := pow_le_pow_right₀ (by norm_num) (by omega)
  cases s <;> simp only [Ty.Contains, inRange_signed, inRange_unsigned] at h ⊢ <;> omega

theorem contains_unsigned_of_le (h : Ty.Contains ⟨w, false⟩ z) (hw : w ≤ n) : Ty.Contains ⟨n, false⟩ z := by
  have hp : (2 : Int) ^ w ≤ 2 ^ n := pow_le_pow_right₀ (by norm_num) hw
  simp only [Ty.Contains, inRange_unsigned] at h ⊢
  omega

-- A number is converted to a narrower type by reading its low bits, unless that type is signed and too narrow.
theorem convert_decode (isSigned : Bool) {isSigned' : Bool} {n : Nat} (hw : 0 < w) (hn : w ≤ n) (b : BitVec n)
    (hc : isSigned = true → InRange true w (decode isSigned' b)) :
    Ty.convert ⟨w, isSigned⟩ (decode isSigned' b) = some (decode isSigned (b.setWidth w)) := by
  rw [truncate_eq_ofInt isSigned' b hn]
  cases isSigned
  case false => exact convert_unsigned w _
  case true  =>
    have ht : Ty.Contains ⟨w, true⟩ (decode isSigned' b) := hc rfl
    rw [decode_ofInt hw (hc rfl), convert_of_contains ht]

theorem promote_contains (h : t.Contains z) : t.promote.Contains z := by
  unfold Ty.promote
  split
  case isFalse => exact h
  case isTrue hw =>
    cases ht : t.isSigned
    case true  =>
      have h' : Ty.Contains ⟨t.width, true⟩ z := ht ▸ h
      exact contains_of_le h' hw.le
    case false =>
      have h' : Ty.Contains ⟨t.width, false⟩ z := ht ▸ h
      exact contains_of_lt h' hw

-- The type in which operands are computed has at least as many bits, and is signed if theirs is.
theorem promote_width (t : Ty) : t.width ≤ t.promote.width := by
  unfold Ty.promote
  by_cases h : t.width < 32
  case pos => rw [if_pos h]; exact h.le
  case neg => rw [if_neg h]

theorem promote_isSigned (h : t.isSigned = true) : t.promote.isSigned = true := by
  unfold Ty.promote
  by_cases h' : t.width < 32
  case pos => rw [if_pos h']; rfl
  case neg => rw [if_neg h']; exact h

theorem usual_self (t : Ty) : t.usual t = t.promote := by
  simp [Ty.usual]

end Conversion

-- An expression that has a value of a type.
structure Has (s : Store ν) (e : Expr ν) (t : Ty) (z : Int) : Prop where
  type  : e.typeOf s = t
  value : e.eval s = some z

abbrev HasBits (s : Store ν) (e : Expr ν) (b : BitVec 64) : Prop :=
  Has s e .uint64 b.toNat

-- An expression whose value is not zero precisely if a proposition holds.
def Decides (s : Store ν) (e : Expr ν) (p : Prop) : Prop :=
  ∃ z, e.eval s = some z ∧ (z ≠ 0 ↔ p)

section Rules

variable {s : Store ν} {e e₁ e₂ c : Expr ν} {t t₁ t₂ : Ty} {x y z z' : Int} {b b₁ b₂ : BitVec 64} {p q : Prop}

theorem Has.literal (t : Ty) (z : Int) : Has s (.literal t z) t z :=
  ⟨rfl, rfl⟩

theorem Has.var {v : ν} (h : s v = some (t, z)) : Has s (.var v) t z := by
  constructor <;> simp [h]

theorem Has.convert (h : Has s e t z) (hc : t'.convert z = some z') : Has s (.cast t' e) t' z' := by
  constructor
  case type  => rfl
  case value => simp [h.value, hc]

theorem Has.cast (h : Has s e t z) (hc : t'.Contains z) : Has s (.cast t' e) t' z :=
  h.convert (convert_of_contains hc)

theorem Has.neg (h : Has s e t x) (hc : t.promote.convert (-x) = some z) : Has s (.neg e) t.promote z := by
  constructor
  case type  => simp [h.type]
  case value => simp [h.value, h.type, hc]

theorem Has.complement (h : Has s e t x) : Has s (.complement e) t.promote
    (decode t.promote.isSigned (~~~BitVec.ofInt t.promote.width x)) := by
  constructor
  case type  => simp [h.type]
  case value =>
    have ht := h.type
    subst ht
    simp [h.value]

theorem Has.arithmetic (h₁ : Has s e₁ t₁ x) (h₂ : Has s e₂ t₂ y) (ht : t₁.usual t₂ = t)
    (hx : t.Contains x) (hy : t.Contains y) {op : Arithmetic} (hz : op.apply t x y = some z) :
    Has s (.arithmetic op e₁ e₂) t z := by
  constructor
  case type  => simp [h₁.type, h₂.type, ht]
  case value =>
    simp [h₁.value, h₂.value, h₁.type, h₂.type, ht, convert_of_contains hx, convert_of_contains hy, hz]

theorem Has.bitwise (h₁ : Has s e₁ t₁ x) (h₂ : Has s e₂ t₂ y) (ht : t₁.usual t₂ = t)
    (hx : t.Contains x) (hy : t.Contains y) (op : Bitwise) : Has s (.bitwise op e₁ e₂) t (op.apply t x y) := by
  constructor
  case type  => simp [h₁.type, h₂.type, ht]
  case value =>
    simp [h₁.value, h₂.value, h₁.type, h₂.type, ht, convert_of_contains hx, convert_of_contains hy]

theorem Has.shift (h₁ : Has s e₁ t₁ x) (h₂ : Has s e₂ t₂ y) (ht : t₁.promote = t) {op : Shift}
    (hz : op.apply t x y = some z) : Has s (.shift op e₁ e₂) t z := by
  constructor
  case type  => simp [h₁.type, ht]
  case value => simp [h₁.value, h₂.value, h₁.type, ht, hz]

theorem Decides.compare (h₁ : Has s e₁ t₁ x) (h₂ : Has s e₂ t₂ y) (hx : (t₁.usual t₂).Contains x)
    (hy : (t₁.usual t₂).Contains y) (r : Relation) : Decides s (.compare r e₁ e₂) (r.Holds x y) := by
  refine ⟨truth (r.Holds x y), ?_, by simp [truth]⟩
  simp [h₁.value, h₂.value, h₁.type, h₂.type, convert_of_contains hx, convert_of_contains hy]

theorem Decides.and (h₁ : Decides s e₁ p) (h₂ : p → Decides s e₂ q) : Decides s (.and e₁ e₂) (p ∧ q) := by
  obtain ⟨x, hx, hp⟩ := h₁
  by_cases hz : x = 0
  case pos =>
    refine ⟨0, by simp [hx, hz], ?_⟩
    simp [← hp, hz]
  case neg =>
    obtain ⟨y, hy, hq⟩ := h₂ (hp.mp hz)
    refine ⟨truth (y ≠ 0), by simp [hx, hz, hy], ?_⟩
    simp [truth, ← hp, ← hq, hz]

theorem Decides.or (h₁ : Decides s e₁ p) (h₂ : ¬p → Decides s e₂ q) : Decides s (.or e₁ e₂) (p ∨ q) := by
  obtain ⟨x, hx, hp⟩ := h₁
  by_cases hz : x = 0
  case neg =>
    refine ⟨1, by simp [hx, hz], ?_⟩
    simp [← hp, hz]
  case pos =>
    obtain ⟨y, hy, hq⟩ := h₂ fun h => hp.mpr h hz
    refine ⟨truth (y ≠ 0), by simp [hx, hz, hy], ?_⟩
    simp [truth, ← hp, ← hq, hz]

theorem Decides.congr (h : Decides s e p) (hpq : p ↔ q) : Decides s e q := by
  obtain ⟨z, hz, hp⟩ := h
  exact ⟨z, hz, hp.trans hpq⟩

theorem Decides.of_has (h : Has s e t z) : Decides s e (z ≠ 0) :=
  ⟨z, h.value, Iff.rfl⟩

theorem Has.conditional_true (hc : Decides s c p) (hp : p) (h₁ : Has s e₁ t x) (h₂ : e₂.typeOf s = t)
    (hx : (t.usual t).Contains x) : Has s (.conditional c e₁ e₂) (t.usual t) x := by
  obtain ⟨z, hz, hpz⟩ := hc
  constructor
  case type  => simp [h₁.type, h₂]
  case value => simp [hz, hpz.mpr hp, h₁.type, h₁.value, h₂, convert_of_contains hx]

theorem Has.conditional_false (hc : Decides s c p) (hp : ¬p) (h₁ : e₁.typeOf s = t) (h₂ : Has s e₂ t x)
    (hx : (t.usual t).Contains x) : Has s (.conditional c e₁ e₂) (t.usual t) x := by
  obtain ⟨z, hz, hpz⟩ := hc
  have hz₀ : z = 0 := not_not.mp (mt hpz.mp hp)
  constructor
  case type  => simp [h₂.type, h₁]
  case value => simp [hz, hz₀, h₂.type, h₂.value, h₁, convert_of_contains hx]

end Rules

-- Expressions of type `uint64_t` are computed on bit patterns.
section Bits

theorem usual_uint64 : Ty.uint64.usual .uint64 = .uint64 :=
  rfl

theorem promote_uint64 : Ty.uint64.promote = .uint64 :=
  rfl

variable {s : Store ν} {e e₁ e₂ : Expr ν} {t : Ty} {z : Int} {b b₁ b₂ : BitVec 64}

theorem Has.toBits (h : Has s e t z) : HasBits s (.cast .uint64 e) (BitVec.ofInt 64 z) :=
  h.convert (convert_uint64 z)

theorem HasBits.literal (b : BitVec 64) : HasBits s (.literal .uint64 b.toNat) b :=
  ⟨rfl, rfl⟩

theorem HasBits.add (h₁ : HasBits s e₁ b₁) (h₂ : HasBits s e₂ b₂) : HasBits s (.arithmetic .add e₁ e₂) (b₁ + b₂) := by
  apply Has.arithmetic h₁ h₂ usual_uint64 (contains_toNat b₁) (contains_toNat b₂)
  rw [Arithmetic.apply, convert_uint64, BitVec.ofInt_add, BitVec.ofInt_natCast, BitVec.ofInt_natCast,
    BitVec.ofNat_toNat, BitVec.ofNat_toNat, BitVec.setWidth_eq, BitVec.setWidth_eq]

theorem HasBits.mul (h₁ : HasBits s e₁ b₁) (h₂ : HasBits s e₂ b₂) : HasBits s (.arithmetic .mul e₁ e₂) (b₁ * b₂) := by
  apply Has.arithmetic h₁ h₂ usual_uint64 (contains_toNat b₁) (contains_toNat b₂)
  rw [Arithmetic.apply, convert_uint64, BitVec.ofInt_mul, BitVec.ofInt_natCast, BitVec.ofInt_natCast,
    BitVec.ofNat_toNat, BitVec.ofNat_toNat, BitVec.setWidth_eq, BitVec.setWidth_eq]

theorem HasBits.sub (h₁ : HasBits s e₁ b₁) (h₂ : HasBits s e₂ b₂) : HasBits s (.arithmetic .sub e₁ e₂) (b₁ - b₂) := by
  apply Has.arithmetic h₁ h₂ usual_uint64 (contains_toNat b₁) (contains_toNat b₂)
  rw [Arithmetic.apply, convert_uint64, Int.sub_eq_add_neg, BitVec.ofInt_add, BitVec.ofInt_neg, BitVec.ofInt_natCast,
    BitVec.ofInt_natCast, BitVec.ofNat_toNat, BitVec.ofNat_toNat, BitVec.setWidth_eq, BitVec.setWidth_eq,
    ← BitVec.sub_eq_add_neg]

theorem HasBits.bitwise (h₁ : HasBits s e₁ b₁) (h₂ : HasBits s e₂ b₂) (op : Bitwise) :
    HasBits s (.bitwise op e₁ e₂) (op.onBits b₁ b₂) := by
  have h := Has.bitwise h₁ h₂ usual_uint64 (contains_toNat b₁) (contains_toNat b₂) op
  have hb : op.apply .uint64 b₁.toNat b₂.toNat = ((op.onBits b₁ b₂).toNat : Int) := by
    simp [Bitwise.apply, Ty.uint64, decode]
  rwa [hb] at h

theorem HasBits.shiftLeft (h₁ : HasBits s e₁ b) (h₂ : Has s e₂ t z) (hz : 0 ≤ z) (hz' : z < 64) :
    HasBits s (.shift .left e₁ e₂) (b <<< z.toNat) := by
  apply Has.shift h₁ h₂ promote_uint64
  have hn : ¬(z < 0 ∨ (Ty.uint64.width : Int) ≤ z ∨ (b.toNat : Int) < 0) := by
    simp only [Ty.uint64]
    omega
  have hb : (b.toNat : Int) * 2 ^ z.toNat = ((b.toNat * 2 ^ z.toNat : Nat) : Int) := by push_cast; rfl
  have he : BitVec.ofInt 64 ((b.toNat * 2 ^ z.toNat : Nat) : Int) = b <<< z.toNat := by
    rw [BitVec.ofInt_natCast]
    apply BitVec.eq_of_toNat_eq
    simp [Nat.shiftLeft_eq]
  simp only [Shift.apply]
  rw [if_neg hn, hb, ← he]
  exact convert_uint64 _

theorem HasBits.shiftRight (h₁ : HasBits s e₁ b) (h₂ : Has s e₂ t z) (hz : 0 ≤ z) (hz' : z < 64) :
    HasBits s (.shift .right e₁ e₂) (b >>> z.toNat) := by
  apply Has.shift h₁ h₂ promote_uint64
  have hn : ¬(z < 0 ∨ (Ty.uint64.width : Int) ≤ z ∨ (b.toNat : Int) < 0) := by
    simp only [Ty.uint64]
    omega
  simp only [Shift.apply]
  rw [if_neg hn, BitVec.toNat_ushiftRight, Nat.shiftRight_eq_div_pow]
  push_cast
  rfl

end Bits

section Statements

variable [DecidableEq ν] {s s' : Store ν} {stmt : Stmt ν} {e c : Expr ν} {t t' : Ty} {x y : ν} {z z' : Int} {p : Prop}
  {s₁ s₂ : Stmt ν} {rest : List (Stmt ν)}

@[simp]
theorem Store.set_self : s.set x t z x = some (t, z) := by
  simp [Store.set]

theorem Store.set_of_ne (h : y ≠ x) : s.set x t z y = s y := by
  simp [Store.set, h]

theorem exec_nil : Stmt.exec s (.block []) = .value s :=
  rfl

theorem exec_declare (h : Has s e t z) (hc : t'.convert z = some z') :
    Stmt.exec s (.block (.declare t' x e :: rest)) = Stmt.exec (s.set x t' z') (.block rest) := by
  simp [Stmt.block, h.value, hc]

theorem exec_cons (h : Stmt.exec s (.block [stmt]) = .value s') :
    Stmt.exec s (.block (stmt :: rest)) = Stmt.exec s' (.block rest) := by
  cases he : Stmt.exec s stmt
  case undefined => simp [Stmt.block, he] at h
  case aborted   => simp [Stmt.block, he] at h
  case value s₁  =>
    have hs : s₁ = s' := by simpa [Stmt.block, he] using h
    simp [Stmt.block, he, hs]

theorem exec_assign (hx : s x = some (t', z₀)) (h : Has s e t z) (hc : t'.convert z = some z') :
    Stmt.exec s (.block (.assign x e :: rest)) = Stmt.exec (s.set x t' z') (.block rest) := by
  simp [Stmt.block, h.value, hx, hc]

theorem exec_abort : Stmt.exec s (.block (.abort :: rest)) = .aborted :=
  rfl

theorem exec_ite_true (h : Decides s c p) (hp : p) :
    Stmt.exec s (.block (.ite c s₁ s₂ :: rest)) = Stmt.exec s (.block (s₁ :: rest)) := by
  obtain ⟨z, hz, hpz⟩ := h
  simp [Stmt.block, hz, hpz.mpr hp]

theorem exec_ite_false (h : Decides s c p) (hp : ¬p) :
    Stmt.exec s (.block (.ite c s₁ s₂ :: rest)) = Stmt.exec s (.block (s₂ :: rest)) := by
  obtain ⟨z, hz, hpz⟩ := h
  have hz₀ : z = 0 := not_not.mp (mt hpz.mp hp)
  simp [Stmt.block, hz, hz₀]

theorem exec_skip : Stmt.exec s (.block (.skip :: rest)) = Stmt.exec s (.block rest) := by
  simp [Stmt.block]

theorem exec_block {statements : List (Stmt ν)} :
    Stmt.exec s (.block (.block statements :: rest)) = Stmt.exec s (.block (statements ++ rest)) := by
  induction statements generalizing s
  case nil => exact exec_skip
  case cons statement statements hi =>
    simp only [Stmt.block, List.foldr_cons, List.cons_append, Stmt.exec] at hi ⊢
    cases Stmt.exec s statement
    case undefined => rfl
    case aborted   => rfl
    case value s'  => exact hi

-- A statement that aborts if a proposition holds, and that otherwise does nothing.
structure Guards (s : Store ν) (stmt : Stmt ν) (p : Prop) : Prop where
  aborts : p → Stmt.exec s stmt = .aborted
  passes : ¬p → Stmt.exec s stmt = .value s

namespace Guards

variable {q : Prop}

theorem congr (h : Guards s stmt p) (hpq : p ↔ q) : Guards s stmt q where
  aborts hq := h.aborts (hpq.mpr hq)
  passes hq := h.passes (mt hpq.mp hq)

theorem skip : Guards s .skip False where
  aborts h := h.elim
  passes _ := rfl

theorem ite (hc : Decides s c p) (h₁ : p → Guards s s₁ q) (h₂ : ¬p → Guards s s₂ q) : Guards s (.ite c s₁ s₂) q := by
  obtain ⟨z, hz, hpz⟩ := hc
  by_cases hp : p
  case pos =>
    have he : Stmt.exec s (.ite c s₁ s₂) = Stmt.exec s s₁ := by
      simp [hz, hpz.mpr hp]
    exact ⟨fun hq => he ▸ (h₁ hp).aborts hq, fun hq => he ▸ (h₁ hp).passes hq⟩
  case neg =>
    have hz₀ : z = 0 := not_not.mp (mt hpz.mp hp)
    have he : Stmt.exec s (.ite c s₁ s₂) = Stmt.exec s s₂ := by
      simp [hz, hz₀]
    exact ⟨fun hq => he ▸ (h₂ hp).aborts hq, fun hq => he ▸ (h₂ hp).passes hq⟩

theorem abortIf (hc : Decides s c p) : Guards s (.abortIf c) p := by
  apply ite hc
  case h₁ => exact fun hp => ⟨fun _ => rfl, fun hn => (hn hp).elim⟩
  case h₂ => exact fun hn => ⟨fun hp => (hn hp).elim, fun _ => rfl⟩

theorem seq (h₁ : Guards s s₁ p) (h₂ : ¬p → Guards s s₂ q) : Guards s (.seq s₁ s₂) (p ∨ q) := by
  constructor
  case aborts =>
    intro hpq
    by_cases hp : p
    case pos => simp [h₁.aborts hp]
    case neg => simp [h₁.passes hp, (h₂ hp).aborts (hpq.resolve_left hp)]
  case passes =>
    intro hpq
    have hn := not_or.mp hpq
    simp [h₁.passes hn.left, (h₂ hn.left).passes hn.right]

end Guards

theorem exec_guard_true (h : Guards s stmt p) (hp : p) : Stmt.exec s (.block (stmt :: rest)) = .aborted := by
  simp [Stmt.block, h.aborts hp]

theorem exec_guard_false (h : Guards s stmt p) (hp : ¬p) :
    Stmt.exec s (.block (stmt :: rest)) = Stmt.exec s (.block rest) := by
  simp [Stmt.block, h.passes hp]

end Statements
end CInteger
