import Coglet.Backend.LlvmLayout

open StructLayout
open Coglet.Target (StructHeader TargetInfo)

-- The memory that LLVM gives to scalars and to the aggregates with a C layout.

namespace Coglet.Backend.Llvm

-- The data layout of LLVM describes the scalars of the target. A truth value takes a byte.
structure DataLayout.Agrees (dl : DataLayout) (target : TargetInfo) : Prop where
  pointerSize  : dl.pointerSize = target.pointerLayout.size
  pointerAlign : dl.pointerAlign = target.pointerLayout.align
  bool         : dl.integerAlign 1 = target.scalarAlign 8
  integer      : ∀ bits ∈ [8, 16, 32, 64], dl.integerAlign bits = target.scalarAlign bits
  float        : dl.floatAlign = target.scalarAlign 32
  double       : dl.doubleAlign = target.scalarAlign 64

section Structs

attribute [local simp] DataLayout.layout DataLayout.layouts

theorem layout_singleton {dl : DataLayout} {isPacked : Bool} {a : LlvmType} :
    dl.layout (.struct isPacked [a]) = StructLayout.struct isPacked [dl.layout a] := by
  simp

theorem layout_pair {dl : DataLayout} {isPacked : Bool} {a b : LlvmType} :
    dl.layout (.struct isPacked [a, b]) = StructLayout.struct isPacked [dl.layout a, dl.layout b] := by
  simp

end Structs

section Layouts

variable {dl : DataLayout} {target : TargetInfo} (ht : target.Natural) (hdl : dl.Agrees target)
include ht hdl

theorem layout_bool : dl.layout (.int 1) = ⟨1, target.scalarAlign 8⟩ := by
  rw [DataLayout.layout, hdl.bool]
  exact Layout.padded_of_regular ht.scalar8

theorem layout_integer {bits : Nat} (hb : bits ∈ [8, 16, 32, 64]) :
    dl.layout (.int bits) = ⟨bits / 8, target.scalarAlign bits⟩ := by
  have hs : (bits + 7) / 8 = bits / 8 := by
    simp only [List.mem_cons, List.not_mem_nil, or_false] at hb
    omega
  rw [DataLayout.layout, hdl.integer bits hb, hs]
  exact Layout.padded_of_regular (ht.scalar bits hb)

theorem layout_float : dl.layout .float = ⟨4, target.scalarAlign 32⟩ := by
  rw [DataLayout.layout, hdl.float]
  exact Layout.padded_of_regular ht.scalar32

theorem layout_double : dl.layout .double = ⟨8, target.scalarAlign 64⟩ := by
  rw [DataLayout.layout, hdl.double]
  exact Layout.padded_of_regular ht.scalar64

theorem layout_ptr : dl.layout .ptr = target.pointerLayout := by
  rw [DataLayout.layout, hdl.pointerSize, hdl.pointerAlign]
  exact Layout.padded_of_regular ht.pointer

theorem layout_byte : dl.layout (.int 8) = ⟨1, 1⟩ := by
  rw [layout_integer ht hdl (by decide), ht.scalarAlign8]

theorem layout_bytes (count : Nat) : dl.layout (.array (.int 8) count) = ⟨count, 1⟩ := by
  rw [DataLayout.layout, layout_byte ht hdl]
  simp [Layout.padded]

-- A marker takes no memory. It only raises the alignment.
theorem alignmentMarkerType_layout {alignment : Nat} {marker : LlvmType} (ha : 0 < alignment)
    (h : alignmentMarkerType dl alignment = some marker) : dl.layout marker = ⟨0, alignment⟩ := by
  unfold alignmentMarkerType at h
  split at h
  case isTrue h1 =>
    cases h
    rw [layout_bytes ht hdl, Nat.le_antisymm h1 ha]
  case isFalse =>
    split at h
    case isTrue => cases h
    case isFalse hm =>
      cases h
      rw [DataLayout.layout, not_not.mp hm]
      simp [Layout.padded]

theorem wrapExplicitAlignment_layout {header : Ir.AggregateHeader} {inner wrapped : LlvmType} {size align : Nat}
    (hi : dl.layout inner = .padded size align) (ha : align.isPowerOfTwo)
    (he : 0 < header.explicitAlignment → header.explicitAlignment.isPowerOfTwo)
    (h : wrapExplicitAlignment dl header inner = some wrapped) :
    dl.layout wrapped = .padded size (max align header.explicitAlignment) := by
  unfold wrapExplicitAlignment at h
  split at h
  case isTrue h0 =>
    cases h
    rw [hi, h0, Nat.max_zero]
  case isFalse h0 =>
    have hp := Nat.pos_of_ne_zero h0
    have ⟨marker, hm, hw⟩ := Option.map_eq_some_iff.mp h
    have hl := alignmentMarkerType_layout ht hdl hp hm
    have hr := @Layout.raise_padded _ size _ ha (he hp)
    have hmax : max (max 1 align) header.explicitAlignment = max align header.explicitAlignment := by
      have := Nat.pos_of_isPowerOfTwo ha
      omega
    have hd := dvd_max_of_isPowerOfTwo (he hp) ha
    have hpos : 0 < max align header.explicitAlignment := Nat.lt_of_lt_of_le hp (Nat.le_max_right _ _)
    rw [← hw, ← hr, layout_pair, hi, hl, struct_pair]
    simp only [Layout.raise, Layout.padded, Nat.add_zero, hmax]
    rw [roundUp_roundUp hp hpos (Nat.max_comm align _ ▸ hd)]

theorem lowerReprCStruct_layout {header : StructHeader} {fields : List LlvmType} {type : LlvmType}
    (hs : header.isUnion = false) (hr : header.isReprC) (hf : ∀ l ∈ dl.layouts fields, l.Regular)
    (h : lowerReprCStruct dl (Ir.lowerHeader header) fields = some type) :
    dl.layout type = header.layout (dl.layouts fields) := by
  have hp : (maxAlign header.isPacked 1 (dl.layouts fields)).isPowerOfTwo :=
    maxAlign_isPowerOfTwo Nat.isPowerOfTwo_one fun l h => (hf l h).power
  have hl : (Ir.lowerHeader header).isPacked = header.isPacked := if_pos hr
  have ha : (Ir.lowerHeader header).explicitAlignment = header.align := if_pos hr
  unfold lowerReprCStruct at h
  rw [hl] at h
  rw [wrapExplicitAlignment_layout ht hdl rfl hp (ha ▸ header.alignPower) h, ha, StructHeader.layout, hs]
  rfl

omit ht hdl in
-- The carrier of a union is a field of the largest alignment.
theorem UnionScan.foldl_add {fields : List LlvmType} (scan : UnionScan) :
    (fields.foldl (UnionScan.add dl) scan).maxSize = StructLayout.maxSize scan.maxSize (dl.layouts fields) ∧
      (fields.foldl (UnionScan.add dl) scan).maxAlign = StructLayout.maxAlign false scan.maxAlign (dl.layouts fields) := by
  induction fields generalizing scan
  case nil => exact ⟨rfl, rfl⟩
  case cons field fields ih =>
    have hs : (scan.add dl field).maxSize = max scan.maxSize (dl.layout field).size := by
      unfold add
      dsimp only
      split <;> omega
    have ha : (scan.add dl field).maxAlign = max scan.maxAlign (dl.layout field).align := by
      unfold add
      dsimp only
      split <;> omega
    have := ih (scan.add dl field)
    rw [hs, ha] at this
    exact this

structure UnionScan.Carries (dl : DataLayout) (scan : UnionScan) : Prop where
  align : ∀ carrier ∈ scan.carrier, (dl.layout carrier).align = scan.maxAlign
  size  : ∀ carrier ∈ scan.carrier, (dl.layout carrier).size ≤ scan.maxSize
  none  : scan.carrier = none → scan.maxAlign = 1

omit ht hdl in
theorem UnionScan.Carries.add {scan : UnionScan} {field : LlvmType} (h : scan.Carries dl)
    (hf : 0 < (dl.layout field).align) : (scan.add dl field).Carries dl := by
  unfold UnionScan.add
  constructor
  case align =>
    intro carrier hc
    dsimp only at hc ⊢
    split at hc
    case isTrue ha =>
      cases hc
      rw [if_pos ha]
    case isFalse ha =>
      rw [if_neg ha]
      cases hs : scan.carrier
      case none =>
        rw [hs] at hc
        cases hc
        have := h.none hs
        omega
      case some =>
        rw [hs] at hc
        cases hc
        exact h.align carrier hs
  case size =>
    intro carrier hc
    dsimp only at hc ⊢
    have hm : (dl.layout carrier).size ≤ scan.maxSize ∨ carrier = field := by
      split at hc
      case isTrue => exact .inr (Option.some.inj hc).symm
      case isFalse =>
        cases hs : scan.carrier
        case none =>
          rw [hs] at hc
          exact .inr (Option.some.inj hc).symm
        case some =>
          rw [hs] at hc
          cases hc
          exact .inl (h.size carrier hs)
    cases hm
    case inl => split <;> omega
    case inr he =>
      subst he
      split <;> omega
  case none =>
    dsimp only
    intro hc
    split at hc
    case isTrue => cases hc
    case isFalse => cases hs : scan.carrier <;> rw [hs] at hc <;> cases hc

omit ht hdl in
theorem UnionScan.Carries.foldl {fields : List LlvmType} {scan : UnionScan} (h : scan.Carries dl)
    (hf : ∀ l ∈ dl.layouts fields, l.Regular) : (fields.foldl (UnionScan.add dl) scan).Carries dl := by
  induction fields generalizing scan
  case nil => exact h
  case cons field fields ih =>
    exact ih (h.add (hf _ (.head _)).align_pos) fun l hl => hf l (.tail _ hl)

theorem UnionScan.body_layout {scan : UnionScan} {isPacked : Bool} {type : LlvmType} (h : scan.Carries dl)
    (hp : 0 < scan.maxAlign) (hb : scan.body dl isPacked = some type) :
    dl.layout type = .padded scan.maxSize (if isPacked then 1 else scan.maxAlign) := by
  unfold UnionScan.body at hb
  cases isPacked
  case true =>
    cases hb
    rw [layout_singleton, layout_bytes ht hdl, struct_singleton]
    rfl
  case false =>
    have ⟨carrier, hc, ht'⟩ := Option.map_eq_some_iff.mp hb
    have ha := h.align carrier hc
    have hs := h.size carrier hc
    have hm : max 1 scan.maxAlign = scan.maxAlign := by
      omega
    split at ht'
    case isTrue hlt =>
      have hsize : (dl.layout carrier).size + (scan.maxSize - (dl.layout carrier).size) = scan.maxSize := by
        omega
      have hm' : max scan.maxAlign 1 = scan.maxAlign := by
        omega
      rw [← ht', layout_pair, layout_bytes ht hdl, struct_pair, roundUp_one, ha, hm, hm', hsize]
      rfl
    case isFalse hlt =>
      have hsize : (dl.layout carrier).size = scan.maxSize := by
        omega
      have hf : fieldAlign false (dl.layout carrier) = scan.maxAlign := ha
      rw [← ht', layout_singleton, struct_singleton, hf, hm, hsize]
      rfl

theorem lowerReprCUnion_layout {header : StructHeader} {fields : List LlvmType} {type : LlvmType}
    (hu : header.isUnion = true) (hf : ∀ l ∈ dl.layouts fields, l.Regular)
    (h : lowerReprCUnion dl (Ir.lowerHeader header) fields = some type) :
    dl.layout type = header.layout (dl.layouts fields) := by
  have hr := header.unionReprC hu
  have hl : (Ir.lowerHeader header).isPacked = header.isPacked := if_pos hr
  have ha : (Ir.lowerHeader header).explicitAlignment = header.align := if_pos hr
  have hp : (maxAlign header.isPacked 1 (dl.layouts fields)).isPowerOfTwo :=
    maxAlign_isPowerOfTwo Nat.isPowerOfTwo_one fun l h => (hf l h).power
  have hp' : (maxAlign false 1 (dl.layouts fields)).isPowerOfTwo :=
    maxAlign_isPowerOfTwo Nat.isPowerOfTwo_one fun l h => (hf l h).power
  have hc : (fields.foldl (UnionScan.add dl) ⟨0, 1, none⟩).Carries dl := by
    apply UnionScan.Carries.foldl _ hf
    exact ⟨by simp, by simp, fun _ => rfl⟩
  have ⟨hsize, halign⟩ := @UnionScan.foldl_add dl fields ⟨0, 1, none⟩
  unfold lowerReprCUnion at h
  rw [hl] at h
  have ⟨inner, hb, hw⟩ := Option.bind_eq_some_iff.mp h
  have hi := UnionScan.body_layout ht hdl hc (halign ▸ Nat.pos_of_isPowerOfTwo hp') hb
  have hm : (if header.isPacked then 1 else maxAlign false 1 (dl.layouts fields)) =
      maxAlign header.isPacked 1 (dl.layouts fields) := by
    cases header.isPacked
    case false => rfl
    case true => exact maxAlign_packed.symm
  rw [hsize, halign, hm] at hi
  rw [wrapExplicitAlignment_layout ht hdl hi hp (ha ▸ header.alignPower) hw, ha, StructHeader.layout, hu]
  rfl

end Layouts

end Coglet.Backend.Llvm
