import Coglet.Lib.StructLayout
import Coglet.Types
import Mathlib.Data.List.Forall2

open StructLayout

-- The sizes and alignments that the frontend computes for `size_of` and `align_of`.

namespace Coglet.Target

inductive Arch
  | x86_64 | aarch64
deriving DecidableEq, Repr

inductive Os
  | linux | windows
deriving DecidableEq, Repr

inductive Abi
  | sysv | windows
deriving DecidableEq, Repr

structure TargetConfig where
  arch : Arch
  os   : Os
  abi  : Abi
deriving DecidableEq, Repr

inductive FloatFormat
  | unsupported | ieeeBinary32 | ieeeBinary64
deriving DecidableEq, Repr

structure TargetInfo where
  pointerBits         : Nat
  pointerAlignBytes   : Nat
  scalarAlign8Bytes   : Nat
  scalarAlign16Bytes  : Nat
  scalarAlign32Bytes  : Nat
  scalarAlign64Bytes  : Nat
  cCharBits           : Nat
  cCharIsSigned       : Bool
  cBoolBits           : Nat
  cShortBits          : Nat
  cIntBits            : Nat
  cLongBits           : Nat
  cLongLongBits       : Nat
  cSizeBits           : Nat
  cFloatFormat        : FloatFormat
  cDoubleFormat       : FloatFormat
deriving DecidableEq, Repr

def targetInfoFromConfig (config : TargetConfig) : TargetInfo where
  pointerBits         := 64
  pointerAlignBytes   := 8
  scalarAlign8Bytes   := 1
  scalarAlign16Bytes  := 2
  scalarAlign32Bytes  := 4
  scalarAlign64Bytes  := 8
  cCharBits           := 8
  cCharIsSigned       := true
  cBoolBits           := 8
  cShortBits          := 16
  cIntBits            := 32
  cLongBits           := match config.os with
    | .linux   => 64
    | .windows => 32
  cLongLongBits       := 64
  cSizeBits           := 64
  cFloatFormat        := .ieeeBinary32
  cDoubleFormat       := .ieeeBinary64

-- `target_info_validate`
def TargetInfo.validate (target : TargetInfo) : Except String Unit :=
  if target.pointerBits = 0 ∨ target.pointerBits % 8 ≠ 0 then
    .error "pointer width must be a non-zero whole number of bytes"
  else if target.pointerAlignBytes = 0 ∨ target.scalarAlign8Bytes = 0 ∨ target.scalarAlign16Bytes = 0 ∨
      target.scalarAlign32Bytes = 0 ∨ target.scalarAlign64Bytes = 0 then
    .error "layout alignments must be non-zero"
  else if target.cCharBits = 0 then
    .error "C char width must be non-zero"
  else if target.cBoolBits = 0 then
    .error "C _Bool width must be non-zero"
  else if target.cShortBits = 0 ∨ target.cIntBits = 0 ∨ target.cLongBits = 0 ∨ target.cLongLongBits = 0 ∨
      target.cSizeBits = 0 then
    .error "C integer widths must be non-zero"
  else if target.cShortBits > target.cIntBits ∨ target.cIntBits > target.cLongBits ∨
      target.cLongBits > target.cLongLongBits then
    .error "C signed integer widths must be non-decreasing"
  else
    .ok ()

inductive CScalarKind
  | char | schar | uchar | short | ushort | int | uint | long | ulong | longlong | ulonglong
  | size | bool | float | double
deriving DecidableEq, Repr

-- How the type of a field is spelled, as far as C cares.
inductive AbiShape
  | semantic
  | cScalar (kind : CScalarKind)
  | pointer
  | opaquePointer
  | array (element : AbiShape)
  | function
deriving DecidableEq, Repr

structure ObjectField (τ : Type) where
  type : τ
  abi  : AbiShape
deriving DecidableEq, Repr

-- What the checker has accepted of a struct or union, without its fields.
structure StructHeader where
  isReprC      : Bool
  isPacked     : Bool
  isUnion      : Bool
  isIncomplete : Bool
  align        : Nat
  unionReprC   : isUnion → isReprC
  plain        : isReprC = false → isPacked = false ∧ align = 0
  alignPower   : 0 < align → align.isPowerOfTwo

-- A resolved type as an object in memory. What a pointer or a slice refers to is no part of the object.
inductive ObjectType
  | void | bool
  | s8 | s16 | s32 | s64
  | u8 | u16 | u32 | u64
  | f32 | f64
  | pointer | opaquePointer
  | function (abi : FunctionAbi)
  -- The size is negative if it is unspecified.
  | array (element : ObjectType) (size : Int)
  | slice
  | enum (isReprC : Bool) (backingAbi : AbiShape) (backing : ObjectType)
  | struct (header : StructHeader) (fields : List (ObjectField ObjectType))

def uint64Max : Nat :=
  2 ^ 64 - 1

def roundUp? (value align : Nat) : Option Nat :=
  if align = 0 ∨ value > uint64Max - (align - 1) then none else some (roundUp value align)

-- The end of the `TYPE_STRUCT` case.
def finishStruct (header : StructHeader) (size maxAlign : Nat) : Except String Layout :=
  let maxAlign := if header.isPacked then 1 else maxAlign
  let maxAlign := if header.align > 0 ∧ header.align > maxAlign then header.align else maxAlign
  match roundUp? size maxAlign with
  | none => .error "struct layout size overflows"
  | some size => .ok ⟨size, maxAlign⟩

namespace TargetInfo

variable (target : TargetInfo)

def scalarAlign (bits : Nat) : Nat :=
  if bits = 8 then target.scalarAlign8Bytes
  else if bits = 16 then target.scalarAlign16Bytes
  else if bits = 32 then target.scalarAlign32Bytes
  else if bits = 64 then target.scalarAlign64Bytes
  else 0

def pointerLayout : Layout :=
  ⟨target.pointerBits / 8, target.pointerAlignBytes⟩

def sliceLayout : Except String Layout :=
  let pointer := target.pointerLayout
  let length : Layout := ⟨target.pointerBits / 8, target.scalarAlign target.pointerBits⟩
  match roundUp? pointer.size length.align with
  | none => .error "slice layout size overflows"
  | some offset =>
    if offset > uint64Max - length.size then
      .error "slice layout size overflows"
    else
      let align := if pointer.align > length.align then pointer.align else length.align
      match roundUp? (offset + length.size) align with
      | none => .error "slice layout size overflows"
      | some size => .ok ⟨size, align⟩

mutual

-- A complete type does not contain itself, so only the depth limit of the recursion check is left.
def layoutImpl (depth : Nat) (type : ObjectType) : Except String Layout :=
  if depth ≥ 256 then
    .error "recursive type layout is too deep"
  else match type with
    | .bool | .s8 | .u8 => .ok ⟨1, target.scalarAlign 8⟩
    | .s16 | .u16 => .ok ⟨2, target.scalarAlign 16⟩
    | .s32 | .u32 | .f32 => .ok ⟨4, target.scalarAlign 32⟩
    | .s64 | .u64 | .f64 => .ok ⟨8, target.scalarAlign 64⟩
    | .pointer | .opaquePointer => .ok target.pointerLayout
    | .function abi =>
      if abi ≠ .c then .error "ordinary Coglet function has no object layout" else .ok target.pointerLayout
    | .array element size =>
      if size < 0 then
        .error "unsized array has no object layout"
      else do
        let l ← layoutImpl (depth + 1) element
        if size ≠ 0 ∧ l.size > uint64Max / size.toNat then
          .error "array layout size overflows"
        else
          .ok ⟨l.size * size.toNat, l.align⟩
    | .slice => target.sliceLayout
    | .enum _ _ backing => layoutImpl depth backing
    | .struct header fields =>
      if header.isIncomplete then
        .error "incomplete struct has no object layout"
      else if header.isUnion then do
        let (size, maxAlign) ← layoutUnionFields (depth + 1) 0 1 fields
        finishStruct header size maxAlign
      else do
        let (size, maxAlign) ← layoutStructFields (depth + 1) header.isPacked 0 1 fields
        finishStruct header size maxAlign
    | .void => .error "type has no concrete object layout"

def layoutField (depth : Nat) : ObjectField ObjectType → Except String Layout
  | ⟨type, _⟩ => layoutImpl depth type

def layoutUnionFields (depth : Nat) (size maxAlign : Nat) : List (ObjectField ObjectType) → Except String (Nat × Nat)
  | [] => .ok (size, maxAlign)
  | field :: fields => do
    let l ← layoutField depth field
    layoutUnionFields depth (if l.size > size then l.size else size) (if l.align > maxAlign then l.align else maxAlign)
      fields

def layoutStructFields (depth : Nat) (isPacked : Bool) (size maxAlign : Nat) :
    List (ObjectField ObjectType) → Except String (Nat × Nat)
  | [] => .ok (size, maxAlign)
  | field :: fields => do
    let l ← layoutField depth field
    let align := fieldAlign isPacked l
    match roundUp? size align with
    | none => .error "struct layout size overflows"
    | some offset =>
      if offset > uint64Max - l.size then
        .error "struct layout size overflows"
      else
        layoutStructFields depth isPacked (offset + l.size) (if align > maxAlign then align else maxAlign) fields

end

def layoutOfType (type : ObjectType) : Except String Layout :=
  match target.validate with
  | .error message => .error ("invalid target layout: " ++ message)
  | .ok () => target.layoutImpl 0 type

end TargetInfo

namespace ObjectType

-- The types that contain no other types.
def isLeaf : ObjectType → Bool
  | array .. | enum .. | struct .. => false
  | _ => true

def scalarBits : ObjectType → Option Nat
  | bool | s8 | u8 => some 8
  | s16 | u16 => some 16
  | s32 | u32 | f32 => some 32
  | s64 | u64 | f64 => some 64
  | _ => none

def isPointer : ObjectType → Bool
  | pointer | opaquePointer | function _ => true
  | _ => false

theorem scalarBits_mem {t : ObjectType} {bits : Nat} (h : t.scalarBits = some bits) : bits ∈ [8, 16, 32, 64] := by
  cases t <;> cases h <;> decide

theorem isPointer_leaf {t : ObjectType} (h : t.isPointer) : t.isLeaf ∧ t.scalarBits = none := by
  cases t <;> first | exact ⟨rfl, rfl⟩ | cases h

@[elab_as_elim]
theorem induct {P : ObjectType → Prop} (leaf : ∀ t, t.isLeaf → P t) (array : ∀ e n, P e → P (array e n))
    (enum : ∀ r a b, P b → P (enum r a b)) (struct : ∀ h fs, (∀ f ∈ fs, P f.type) → P (struct h fs))
    (t : ObjectType) : P t := by
  apply ObjectType.rec (motive_1 := P) (motive_2 := fun fs => ∀ f ∈ fs, P f.type) (motive_3 := fun f => P f.type)
  all_goals first | exact leaf _ rfl | skip
  case function => exact fun _ => leaf _ rfl
  case array => exact array
  case enum => exact enum
  case struct => exact struct
  case nil => exact fun _ h => nomatch h
  case cons =>
    intro f fs hf hfs g hg
    cases hg
    case head => exact hf
    case tail hg => exact hfs g hg
  case mk => exact fun _ _ h => h

end ObjectType

theorem roundUp?_eq_some {value align rounded : Nat} (h : roundUp? value align = some rounded) :
    0 < align ∧ rounded = roundUp value align := by
  unfold roundUp? at h
  split at h
  case isTrue => cases h
  case isFalse hn =>
    cases h
    exact ⟨Nat.pos_of_ne_zero fun ha => hn (.inl ha), rfl⟩

-- The layout of a struct or union according to the rules of C.
def StructHeader.layout (header : StructHeader) (fields : List Layout) : Layout :=
  .padded (if header.isUnion then maxSize 0 fields else extent header.isPacked 0 fields)
    (max (maxAlign header.isPacked 1 fields) header.align)

theorem StructHeader.layout_regular (header : StructHeader) {fields : List Layout}
    (hf : ∀ l ∈ fields, l.Regular) : (header.layout fields).Regular := by
  have hm : (maxAlign header.isPacked 1 fields).isPowerOfTwo :=
    maxAlign_isPowerOfTwo Nat.isPowerOfTwo_one fun l h => (hf l h).power
  apply Layout.padded_regular
  cases Nat.eq_zero_or_pos header.align
  case inl h => simpa [h] using hm
  case inr h => exact max_isPowerOfTwo hm (header.alignPower h)

theorem finishStruct_eq {header : StructHeader} {size align : Nat} {l : Layout}
    (h : finishStruct header size align = .ok l) :
    l = .padded size (max (if header.isPacked then 1 else align) header.align) := by
  unfold finishStruct at h
  generalize (if header.isPacked then 1 else align) = m at h ⊢
  have hm : (if header.align > 0 ∧ header.align > m then header.align else m) = max m header.align := by
    split <;> omega
  simp only [hm] at h
  split at h
  case h_1 => cases h
  case h_2 size' hs =>
    cases h
    rw [(roundUp?_eq_some hs).2]
    rfl

namespace TargetInfo

variable {target : TargetInfo}

theorem bind_eq_ok {α β : Type} {x : Except String α} {f : α → Except String β} {b : β} (h : x >>= f = .ok b) :
    ∃ a, x = .ok a ∧ f a = .ok b := by
  cases x
  case error => cases h
  case ok a => exact ⟨a, rfl, h⟩

theorem layoutImpl_depth {depth : Nat} {t : ObjectType} {l : Layout} (h : target.layoutImpl depth t = .ok l) :
    depth < 256 := by
  by_contra hd
  cases t <;> rw [layoutImpl, if_pos (Nat.le_of_not_lt hd)] at h <;> cases h

-- The layouts of the types that contain no other types.
inductive LeafLayout (target : TargetInfo) (t : ObjectType) (l : Layout) : Prop
  | scalar {bits : Nat} (type : t.scalarBits = some bits) (layout : l = ⟨bits / 8, target.scalarAlign bits⟩)
  | pointer (type : t.isPointer) (layout : l = target.pointerLayout)
  | slice (type : t = .slice) (layout : target.sliceLayout = .ok l)

theorem layoutImpl_leaf {depth : Nat} {t : ObjectType} {l : Layout} (ht : t.isLeaf)
    (h : target.layoutImpl depth t = .ok l) : target.LeafLayout t l := by
  have hd := layoutImpl_depth h
  cases t <;> cases ht <;> rw [layoutImpl, if_neg (Nat.not_le_of_lt hd)] at h
  case void => cases h
  case pointer | opaquePointer =>
    cases h
    exact .pointer rfl rfl
  case function =>
    split at h
    case isTrue => cases h
    case isFalse =>
      cases h
      exact .pointer rfl rfl
  case slice => exact .slice rfl h
  all_goals
    cases h
    exact .scalar rfl rfl

theorem layoutImpl_array {depth : Nat} {element : ObjectType} {size : Int} {l : Layout}
    (h : target.layoutImpl depth (.array element size) = .ok l) : 0 ≤ size ∧
      ∃ l', target.layoutImpl (depth + 1) element = .ok l' ∧ l = ⟨l'.size * size.toNat, l'.align⟩ := by
  have hd := layoutImpl_depth h
  rw [layoutImpl, if_neg (Nat.not_le_of_lt hd)] at h
  split at h
  case isTrue => cases h
  case isFalse hs =>
    have ⟨l', hl, h⟩ := bind_eq_ok h
    split at h
    case isTrue => cases h
    case isFalse =>
      cases h
      exact ⟨Int.not_lt.mp hs, l', hl, rfl⟩

theorem layoutImpl_enum {depth : Nat} {isReprC : Bool} {abi : AbiShape} {backing : ObjectType} {l : Layout}
    (h : target.layoutImpl depth (.enum isReprC abi backing) = .ok l) : target.layoutImpl depth backing = .ok l := by
  have hd := layoutImpl_depth h
  rwa [layoutImpl, if_neg (Nat.not_le_of_lt hd)] at h

def FieldLayouts (target : TargetInfo) (depth : Nat) : List (ObjectField ObjectType) → List Layout → Prop :=
  List.Forall₂ fun field l => target.layoutImpl depth field.type = .ok l

theorem layoutUnionFields_eq {depth size align : Nat} {fields : List (ObjectField ObjectType)} {result : Nat × Nat}
    (h : target.layoutUnionFields depth size align fields = .ok result) :
    ∃ ls, target.FieldLayouts depth fields ls ∧ result = (maxSize size ls, maxAlign false align ls) := by
  induction fields generalizing size align
  case nil =>
    cases h
    exact ⟨[], .nil, rfl⟩
  case cons field fields ih =>
    rw [layoutUnionFields] at h
    have ⟨l, hl, h⟩ := bind_eq_ok h
    have ⟨ls, hls, hr⟩ := ih h
    refine ⟨l :: ls, .cons ?_ hls, ?_⟩
    · cases field
      exact hl
    · have hs : (if l.size > size then l.size else size) = max size l.size := by
        split <;> omega
      have ha : (if l.align > align then l.align else align) = max align l.align := by
        split <;> omega
      rw [hr, hs, ha]
      rfl

theorem layoutStructFields_eq {depth : Nat} {isPacked : Bool} {size align : Nat} {fields : List (ObjectField ObjectType)}
    {result : Nat × Nat} (h : target.layoutStructFields depth isPacked size align fields = .ok result) :
    ∃ ls, target.FieldLayouts depth fields ls ∧
      result = (extent isPacked size ls, maxAlign isPacked align ls) := by
  induction fields generalizing size align
  case nil =>
    cases h
    exact ⟨[], .nil, rfl⟩
  case cons field fields ih =>
    rw [layoutStructFields] at h
    have ⟨l, hl, h⟩ := bind_eq_ok h
    dsimp only at h
    split at h
    case h_1 => cases h
    case h_2 offset ho =>
      split at h
      case isTrue => cases h
      case isFalse =>
        have ⟨ls, hls, hr⟩ := ih h
        refine ⟨l :: ls, .cons ?_ hls, ?_⟩
        · cases field
          exact hl
        · have ha : (if fieldAlign isPacked l > align then fieldAlign isPacked l else align) =
              max align (fieldAlign isPacked l) := by
            split <;> omega
          rw [hr, (roundUp?_eq_some ho).2, ha]
          rfl

theorem layoutImpl_struct {depth : Nat} {header : StructHeader} {fields : List (ObjectField ObjectType)} {l : Layout}
    (h : target.layoutImpl depth (.struct header fields) = .ok l) : header.isIncomplete = false ∧
      ∃ ls, target.FieldLayouts (depth + 1) fields ls ∧ l = header.layout ls := by
  have hd := layoutImpl_depth h
  rw [layoutImpl, if_neg (Nat.not_le_of_lt hd)] at h
  split at h
  case isTrue => cases h
  case isFalse hi =>
    refine ⟨Bool.eq_false_of_not_eq_true hi, ?_⟩
    have packed (align : Nat) (ls : List Layout) (ha : header.isPacked = false → align = maxAlign false 1 ls) :
        (if header.isPacked then 1 else align) = maxAlign header.isPacked 1 ls := by
      cases hp : header.isPacked
      case false => exact ha hp
      case true => exact maxAlign_packed.symm
    split at h
    case isTrue hu =>
      have ⟨_, hr, h⟩ := bind_eq_ok h
      have ⟨ls, hls, hr⟩ := layoutUnionFields_eq hr
      cases hr
      refine ⟨ls, hls, ?_⟩
      rw [finishStruct_eq h, packed _ ls fun _ => rfl, StructHeader.layout, if_pos hu]
    case isFalse hu =>
      have ⟨_, hr, h⟩ := bind_eq_ok h
      have ⟨ls, hls, hr⟩ := layoutStructFields_eq hr
      cases hr
      refine ⟨ls, hls, ?_⟩
      rw [finishStruct_eq h, packed _ ls fun hp => by rw [hp], StructHeader.layout, if_neg hu]

-- A layout does not depend on how deep the type lies in another one.
section Depth

variable {depth depth' : Nat}

theorem bind_ok_mono {α β : Type} {x y : Except String α} {f g : α → Except String β} {b : β}
    (h : x >>= f = .ok b) (hx : ∀ a, x = .ok a → y = .ok a) (hf : ∀ a, f a = .ok b → g a = .ok b) :
    y >>= g = .ok b := by
  have ⟨a, ha, hb⟩ := bind_eq_ok h
  rw [hx a ha]
  exact hf a hb

theorem layoutField_mono {field : ObjectField ObjectType} {l : Layout}
    (hf : ∀ l, target.layoutImpl depth field.type = .ok l → target.layoutImpl depth' field.type = .ok l)
    (h : target.layoutField depth field = .ok l) : target.layoutField depth' field = .ok l := by
  cases field
  exact hf l h

variable {fields : List (ObjectField ObjectType)}

theorem layoutUnionFields_mono {size align : Nat} {result : Nat × Nat}
    (hf : ∀ f ∈ fields, ∀ l, target.layoutImpl depth f.type = .ok l → target.layoutImpl depth' f.type = .ok l)
    (h : target.layoutUnionFields depth size align fields = .ok result) :
    target.layoutUnionFields depth' size align fields = .ok result := by
  induction fields generalizing size align
  case nil => exact h
  case cons field fields ih =>
    rw [layoutUnionFields] at h ⊢
    apply bind_ok_mono h
    · exact fun _ => layoutField_mono (hf field (.head _))
    · exact fun _ => ih fun f hm => hf f (.tail _ hm)

theorem layoutStructFields_mono {isPacked : Bool} {size align : Nat} {result : Nat × Nat}
    (hf : ∀ f ∈ fields, ∀ l, target.layoutImpl depth f.type = .ok l → target.layoutImpl depth' f.type = .ok l)
    (h : target.layoutStructFields depth isPacked size align fields = .ok result) :
    target.layoutStructFields depth' isPacked size align fields = .ok result := by
  induction fields generalizing size align
  case nil => exact h
  case cons field fields ih =>
    rw [layoutStructFields] at h ⊢
    apply bind_ok_mono h
    · exact fun _ => layoutField_mono (hf field (.head _))
    · intro l h
      dsimp only at h ⊢
      split at h
      case h_1 => cases h
      case h_2 =>
        split at h
        case isTrue => cases h
        case isFalse ho =>
          rw [if_neg ho]
          exact ih (fun f hm => hf f (.tail _ hm)) h

theorem layoutImpl_mono {t : ObjectType} {l : Layout} (hd : depth' ≤ depth) (h : target.layoutImpl depth t = .ok l) :
    target.layoutImpl depth' t = .ok l := by
  have hlt := layoutImpl_depth h
  induction t using ObjectType.induct generalizing depth depth' l
  case leaf t ht =>
    cases t <;> cases ht <;> rw [layoutImpl, if_neg (Nat.not_le_of_lt hlt)] at h <;>
      rwa [layoutImpl, if_neg (by omega)]
  case array element size ih =>
    rw [layoutImpl, if_neg (Nat.not_le_of_lt hlt)] at h
    rw [layoutImpl, if_neg (by omega)]
    split at h
    case isTrue => cases h
    case isFalse hs =>
      rw [if_neg hs]
      apply bind_ok_mono h
      · exact fun l hl => ih (Nat.succ_le_succ hd) hl (layoutImpl_depth hl)
      · exact fun _ h => h
  case enum ih =>
    rw [layoutImpl, if_neg (by omega)]
    exact ih hd (layoutImpl_enum h) hlt
  case struct header fields ih =>
    have hf : ∀ f ∈ fields, ∀ l, target.layoutImpl (depth + 1) f.type = .ok l →
        target.layoutImpl (depth' + 1) f.type = .ok l :=
      fun f hm l hl => ih f hm (Nat.succ_le_succ hd) hl (layoutImpl_depth hl)
    rw [layoutImpl, if_neg (Nat.not_le_of_lt hlt)] at h
    rw [layoutImpl, if_neg (by omega)]
    split at h
    case isTrue => cases h
    case isFalse hi =>
      rw [if_neg hi]
      split at h
      case isTrue hu =>
        rw [if_pos hu]
        exact bind_ok_mono h (fun _ => layoutUnionFields_mono hf) fun _ h => h
      case isFalse hu =>
        rw [if_neg hu]
        exact bind_ok_mono h (fun _ => layoutStructFields_mono hf) fun _ h => h

end Depth

theorem layoutOfType_eq_ok {t : ObjectType} {l : Layout} (h : target.layoutOfType t = .ok l) :
    target.validate = .ok () ∧ target.layoutImpl 0 t = .ok l := by
  unfold layoutOfType at h
  split at h
  case h_1 => cases h
  case h_2 hv => exact ⟨hv, h⟩

theorem layoutOfType_of_layoutImpl {depth : Nat} {t : ObjectType} {l : Layout} (hv : target.validate = .ok ())
    (h : target.layoutImpl depth t = .ok l) : target.layoutOfType t = .ok l := by
  unfold layoutOfType
  rw [hv]
  exact layoutImpl_mono (Nat.zero_le depth) h

-- What the C implementations guarantee of the alignments that describe a target.
structure Natural (target : TargetInfo) : Prop where
  pointerBits : target.pointerBits = 32 ∨ target.pointerBits = 64
  pointer     : target.pointerLayout.Regular
  scalar      : ∀ bits ∈ [8, 16, 32, 64], Layout.Regular ⟨bits / 8, target.scalarAlign bits⟩
  cBoolBits   : target.cBoolBits = 8

theorem targetInfoFromConfig_natural (config : TargetConfig) : (targetInfoFromConfig config).Natural where
  pointerBits := .inr rfl
  pointer     := ⟨⟨3, rfl⟩, (by decide : 8 ∣ 64 / 8)⟩
  scalar      := by
    simp only [List.forall_mem_cons]
    exact ⟨⟨⟨0, rfl⟩, Nat.dvd_refl 1⟩, ⟨⟨1, rfl⟩, Nat.dvd_refl 2⟩, ⟨⟨2, rfl⟩, Nat.dvd_refl 4⟩,
      ⟨⟨3, rfl⟩, Nat.dvd_refl 8⟩, fun _ h => nomatch h⟩
  cBoolBits   := rfl

namespace Natural

variable (ht : target.Natural)
include ht

theorem scalar8 : Layout.Regular ⟨1, target.scalarAlign 8⟩ :=
  ht.scalar 8 (by decide)

theorem scalar32 : Layout.Regular ⟨4, target.scalarAlign 32⟩ :=
  ht.scalar 32 (by decide)

theorem scalar64 : Layout.Regular ⟨8, target.scalarAlign 64⟩ :=
  ht.scalar 64 (by decide)

theorem scalarAlign8 : target.scalarAlign 8 = 1 :=
  Nat.dvd_one.mp ht.scalar8.dvd

theorem usize : Layout.Regular ⟨target.pointerBits / 8, target.scalarAlign target.pointerBits⟩ := by
  cases ht.pointerBits
  case inl h => exact h ▸ ht.scalar 32 (by decide)
  case inr h => exact h ▸ ht.scalar 64 (by decide)

end Natural

-- The two words of a slice.
theorem sliceLayout_eq (ht : target.Natural) {l : Layout} (h : target.sliceLayout = .ok l) :
    l = StructLayout.struct false
      [target.pointerLayout, ⟨target.pointerBits / 8, target.scalarAlign target.pointerBits⟩] := by
  unfold sliceLayout at h
  dsimp only at h
  split at h
  case h_1 => cases h
  case h_2 offset ho =>
    split at h
    case isTrue => cases h
    case isFalse =>
      split at h
      case h_1 => cases h
      case h_2 size hs =>
        cases h
        have hp := ht.pointer.align_pos
        have ha : (if target.pointerLayout.align > target.scalarAlign target.pointerBits then
            target.pointerLayout.align else target.scalarAlign target.pointerBits) =
            max (max 1 target.pointerLayout.align) (target.scalarAlign target.pointerBits) := by
          split <;> omega
        rw [ha] at hs ⊢
        rw [(roundUp?_eq_some hs).2, (roundUp?_eq_some ho).2]
        simp [StructLayout.struct, extent, maxAlign, fieldAlign, Layout.padded]

theorem sliceLayout_regular (ht : target.Natural) {l : Layout} (h : target.sliceLayout = .ok l) : l.Regular := by
  rw [sliceLayout_eq ht h]
  apply struct_regular
  simp only [List.forall_mem_cons]
  exact ⟨ht.pointer, ht.usize, fun _ h => nomatch h⟩

theorem fieldLayouts_forall {P : Layout → Prop} {depth : Nat} {fields : List (ObjectField ObjectType)} {ls : List Layout}
    (h : target.FieldLayouts depth fields ls)
    (hf : ∀ f ∈ fields, ∀ l, target.layoutImpl depth f.type = .ok l → P l) : ∀ l ∈ ls, P l := by
  induction h
  case nil => exact fun _ h => nomatch h
  case cons hl _ ih =>
    intro l hm
    cases hm
    case head => exact hf _ (.head _) _ hl
    case tail hm => exact ih (fun f hm => hf f (.tail _ hm)) l hm

theorem fieldLayouts_mem {depth : Nat} {fields : List (ObjectField ObjectType)} {ls : List Layout}
    (h : target.FieldLayouts depth fields ls) {f : ObjectField ObjectType} (hf : f ∈ fields) :
    ∃ l, target.layoutImpl depth f.type = .ok l := by
  induction h
  case nil => cases hf
  case cons hl _ ih =>
    cases hf
    case head => exact ⟨_, hl⟩
    case tail hf => exact ih hf

theorem layoutImpl_regular (ht : target.Natural) {depth : Nat} {t : ObjectType} {l : Layout}
    (h : target.layoutImpl depth t = .ok l) : l.Regular := by
  induction t using ObjectType.induct generalizing depth l
  case leaf t hl =>
    cases layoutImpl_leaf hl h
    case scalar type layout => exact layout ▸ ht.scalar _ (ObjectType.scalarBits_mem type)
    case pointer layout => exact layout ▸ ht.pointer
    case slice layout => exact sliceLayout_regular ht layout
  case array element size ih =>
    have ⟨_, l', hl', hl⟩ := layoutImpl_array h
    have := ih hl'
    rw [hl]
    exact ⟨this.power, this.dvd.mul_right _⟩
  case enum ih => exact ih (layoutImpl_enum h)
  case struct header fields ih =>
    have ⟨_, ls, hls, hl⟩ := layoutImpl_struct h
    rw [hl]
    exact header.layout_regular (fieldLayouts_forall hls fun f hm _ => ih f hm)

end TargetInfo
end Coglet.Target
