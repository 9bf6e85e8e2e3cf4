import Coglet.Backend.SysV

open StructLayout RegisterPassing
open Coglet.Ir (AggregateHeader)
open Coglet.Target (AbiShape ObjectField TargetInfo)

-- The classes of the System V AMD64 ABI, and that the backend computes them.

namespace Coglet.Backend.Llvm

-- What decides how an object is passed.
inductive Finding
  | scalar (offset size : Nat) (cls : RegClass)
  | unaligned
  | large

namespace Finding

def ForcesMemory : Finding → Prop
  | scalar offset size _ => 0 < size ∧ 16 < offset + size
  | unaligned | large => True

-- A scalar belongs to the eightbytes that it has bytes in.
def In (eightbyte : Nat) (cls : RegClass) : Finding → Prop
  | scalar offset size c => c = cls ∧ 0 < size ∧ offset < eightbyte * 8 + 8 ∧ eightbyte * 8 < offset + size
  | unaligned | large => False

end Finding

section Abi

variable (dl : DataLayout) (target : TargetInfo)

-- The layout of an object in C is the one that it is stored with.
def objectLayout (abi : AbiShape) (runtime : Ir.ObjectType) : Layout :=
  ((lowerCObjectType dl target abi runtime).map dl.layout).getD ⟨0, 1⟩

def valueLayout (runtime : Ir.ObjectType) : Layout :=
  ((lowerType dl target runtime).map dl.layout).getD ⟨0, 1⟩

def memberOffset (header : AggregateHeader) (fields : List (ObjectField Ir.ObjectType)) (index : Nat) : Nat :=
  if header.isUnion then 0 else (structFieldOffset dl target header fields index).getD 0

def registerClass : Ir.ObjectType → RegClass
  | .float _ => .sse
  | .enum backing _ _ => registerClass backing
  | _ => .integer

mutual

-- What an object at the given offset consists of: its scalars, the fields and elements that are not aligned, and the
-- aggregates of more than two eightbytes.
def Finds (abi : AbiShape) (runtime : Ir.ObjectType) (base : Nat) (finding : Finding) : Prop :=
  match runtime with
  | .array element length =>
    match abi with
    | .array elementAbi => ∃ i < length,
      (isMisaligned (objectLayout dl target elementAbi element).align
          (base + (objectLayout dl target elementAbi element).size * i) ∧ finding = .unaligned) ∨
        Finds elementAbi element (base + (objectLayout dl target elementAbi element).size * i) finding
    | .pointer | .opaquePointer | .function =>
      finding = .scalar base (objectLayout dl target abi (.array element length)).size .integer
    | .semantic | .cScalar _ => finding = .large
  | .aggregate header fields =>
    match abi with
    | .array _ => False
    | .pointer | .opaquePointer | .function =>
      finding = .scalar base (objectLayout dl target abi (.aggregate header fields)).size .integer
    | .semantic | .cScalar _ =>
      ((valueLayout dl target (.aggregate header fields)).size > 16 ∧ finding = .large) ∨
        FindsInFields header fields base 0 fields finding
  | .enum backing isReprC backingAbi =>
    match abi with
    | .array _ => False
    | .pointer | .opaquePointer | .function =>
      finding = .scalar base (objectLayout dl target abi (.enum backing isReprC backingAbi)).size .integer
    | .semantic | .cScalar _ =>
      if isReprC then Finds backingAbi backing base finding
      else finding = .scalar base (objectLayout dl target abi (.enum backing isReprC backingAbi)).size .integer
  | scalar =>
    match abi with
    | .array _ => False
    | .pointer | .opaquePointer | .function =>
      finding = .scalar base (objectLayout dl target abi scalar).size .integer
    | .semantic | .cScalar _ =>
      finding = .scalar base (objectLayout dl target abi scalar).size (registerClass scalar)

def FindsInField (base : Nat) (finding : Finding) : ObjectField Ir.ObjectType → Prop
  | ⟨type, abi⟩ =>
    (isMisaligned (objectLayout dl target abi type).align base ∧ finding = .unaligned) ∨ Finds abi type base finding

def FindsInFields (header : AggregateHeader) (all : List (ObjectField Ir.ObjectType)) (base index : Nat) :
    List (ObjectField Ir.ObjectType) → Finding → Prop
  | [], _ => False
  | field :: fields, finding => FindsInField (base + memberOffset dl target header all index) finding field ∨
      FindsInFields header all base (index + 1) fields finding

end

end Abi

def sysvClass : RegClass → SysVClass
  | .integer => .integer
  | .sse => .sse

-- A class is set if and only if bytes are used.
structure SysVClassification.Consistent (out : SysVClassification) : Prop where
  memory : ∀ k, out.classes k ≠ .memory
  used   : ∀ k, out.usedBytes k = 0 ↔ out.classes k = .noClass

-- The outcome of marking what is found in an object that is not known to be in memory.
structure Marks (F : Finding → Prop) (out out' : SysVClassification) : Prop where
  consistent : out'.Consistent
  memory     : out'.memory ↔ ∃ f, F f ∧ f.ForcesMemory
  integer    : out'.memory = false → ∀ k < 2,
    (out'.classes k = .integer ↔ out.classes k = .integer ∨ ∃ f, F f ∧ f.In k .integer)
  empty      : out'.memory = false → ∀ k < 2,
    (out'.classes k = .noClass ↔ out.classes k = .noClass ∧ ∀ f, F f → ∀ cls, ¬f.In k cls)

namespace Marks

variable {F G : Finding → Prop} {out out₁ out₂ : SysVClassification}

theorem congr (h : Marks F out out₁) (hF : ∀ f, F f ↔ G f) : Marks G out out₁ := by
  have : F = G := funext fun f => propext (hF f)
  exact this ▸ h

theorem none (ho : out.memory = false) (hc : out.Consistent) : Marks (fun _ => False) out out where
  consistent := hc
  memory     := by simp [ho]
  integer    := by simp
  empty      := by simp

theorem toMemory (hc : out.Consistent) {f : Finding} (hf : F f) (hm : f.ForcesMemory) : Marks F out out.toMemory where
  consistent := ⟨hc.memory, hc.used⟩
  memory     := ⟨fun _ => ⟨f, hf, hm⟩, fun _ => rfl⟩
  integer    := fun h => Bool.noConfusion h
  empty      := fun h => Bool.noConfusion h

-- The rest is not looked at if the first part is in memory already.
theorem stop (h : Marks F out out₁) (hm : out₁.memory = true) : Marks (fun f => F f ∨ G f) out out₁ where
  consistent := h.consistent
  memory     := by
    have ⟨f, hf, hfm⟩ := h.memory.mp hm
    exact ⟨fun _ => ⟨f, .inl hf, hfm⟩, fun _ => hm⟩
  integer    := fun hn => Bool.noConfusion (hm.symm.trans hn)
  empty      := fun hn => Bool.noConfusion (hm.symm.trans hn)

theorem seq (h : Marks F out out₁) (hm : out₁.memory = false) (h' : Marks G out₁ out₂) :
    Marks (fun f => F f ∨ G f) out out₂ where
  consistent := h'.consistent
  memory     := by
    have hn : ¬∃ f, F f ∧ f.ForcesMemory := fun he => Bool.noConfusion (hm.symm.trans (h.memory.mpr he))
    rw [h'.memory]
    constructor
    case mp => exact fun ⟨f, hf, hfm⟩ => ⟨f, .inr hf, hfm⟩
    case mpr =>
      rintro ⟨f, hf | hf, hfm⟩
      · exact absurd ⟨f, hf, hfm⟩ hn
      · exact ⟨f, hf, hfm⟩
  integer    := by
    intro hm' k hk
    rw [h'.integer hm' k hk, h.integer hm k hk, or_assoc]
    simp only [or_and_right, exists_or]
  empty      := by
    intro hm' k hk
    rw [h'.empty hm' k hk, h.empty hm k hk, and_assoc]
    simp only [or_imp, forall_and]

end Marks

section Range

variable {out : SysVClassification} {cls : RegClass}

theorem mergeSysvClass_eq {a : SysVClass} (ha : a ≠ .memory) :
    mergeSysvClass a (sysvClass cls) ≠ .memory ∧ mergeSysvClass a (sysvClass cls) ≠ .noClass ∧
      (mergeSysvClass a (sysvClass cls) = .integer ↔ a = .integer ∨ cls = .integer) := by
  cases a <;> cases cls <;> first | decide | exact absurd rfl ha

theorem SysVClassification.Consistent.set {memory : Bool} {chunk : Nat} {cls : SysVClass} {bytes : Nat → Nat}
    (h : out.Consistent) (hm : cls ≠ .memory) (hn : cls ≠ .noClass) (hp : 0 < bytes chunk)
    (hb : ∀ k ≠ chunk, bytes k = out.usedBytes k) :
    SysVClassification.Consistent ⟨fun k => if k = chunk then cls else out.classes k, bytes, memory⟩ := by
  constructor
  case memory =>
    intro k
    dsimp only
    split
    case isTrue => exact hm
    case isFalse => exact h.memory k
  case used =>
    intro k
    dsimp only
    split
    case isTrue hk => exact ⟨fun h0 => absurd (hk ▸ h0) hp.ne', fun h0 => absurd h0 hn⟩
    case isFalse hk => rw [hb k hk, h.used k]

theorem markChunk_eq {stop chunk : Nat} (ho : out.memory = false) (hc : out.Consistent) (hk : chunk < 2)
    (hs : chunk * 8 < stop) : (out.markChunk stop (sysvClass cls) chunk).memory = false ∧
      (out.markChunk stop (sysvClass cls) chunk).Consistent ∧
      ∀ k, (out.markChunk stop (sysvClass cls) chunk).classes k =
        if k = chunk then mergeSysvClass (out.classes chunk) (sysvClass cls) else out.classes k := by
  have ⟨hm, hn, _⟩ := @mergeSysvClass_eq cls _ (hc.memory chunk)
  have hu : 0 < (if stop < chunk * 8 + 8 then stop else chunk * 8 + 8) - chunk * 8 := by
    split <;> omega
  unfold SysVClassification.markChunk
  rw [ho, if_neg Bool.false_ne_true, if_neg (Nat.not_le_of_lt hk)]
  dsimp only
  rw [if_neg hm]
  generalize (if stop < chunk * 8 + 8 then stop else chunk * 8 + 8) - chunk * 8 = used at hu ⊢
  split
  case isTrue hlt =>
    refine ⟨rfl, hc.set hm hn ?_ fun k hk => if_neg hk, fun _ => rfl⟩
    rwa [if_pos rfl]
  case isFalse hlt => exact ⟨rfl, hc.set hm hn (by omega) fun _ _ => rfl, fun _ => rfl⟩

theorem foldl_markChunk {stop : Nat} {chunks : List Nat} (ho : out.memory = false) (hc : out.Consistent)
    (hk : ∀ k ∈ chunks, k < 2 ∧ k * 8 < stop) :
    (chunks.foldl (SysVClassification.markChunk stop (sysvClass cls)) out).memory = false ∧
      (chunks.foldl (SysVClassification.markChunk stop (sysvClass cls)) out).Consistent ∧
      ∀ k, ((chunks.foldl (SysVClassification.markChunk stop (sysvClass cls)) out).classes k = .integer ↔
          out.classes k = .integer ∨ k ∈ chunks ∧ cls = .integer) ∧
        ((chunks.foldl (SysVClassification.markChunk stop (sysvClass cls)) out).classes k = .noClass ↔
          out.classes k = .noClass ∧ k ∉ chunks) := by
  induction chunks generalizing out
  case nil => simp [ho, hc]
  case cons chunk chunks ih =>
    have ⟨hk2, hks⟩ := hk chunk (.head _)
    have ⟨ho', hc', hcls⟩ := @markChunk_eq out cls stop chunk ho hc hk2 hks
    have ⟨hm, hcons, hfold⟩ := ih ho' hc' fun k h => hk k (.tail _ h)
    refine ⟨hm, hcons, fun k => ?_⟩
    have ⟨hi, hn⟩ := hfold k
    have ⟨_, hmn, hmi⟩ := @mergeSysvClass_eq cls _ (hc.memory chunk)
    rw [List.foldl_cons, hi, hn, hcls k]
    split
    case isTrue he =>
      subst he
      rw [hmi]
      simp [hmn]
      tauto
    case isFalse he => simp [he]

theorem mem_chunks {offset size k : Nat} (hs : 0 < size) :
    k ∈ List.range' (offset / 8) ((offset + size - 1) / 8 + 1 - offset / 8) ↔
      offset < k * 8 + 8 ∧ k * 8 < offset + size := by
  rw [List.mem_range'_1]
  omega

theorem markRange_marks {offset size : Nat} (ho : out.memory = false) (hc : out.Consistent) :
    Marks (· = .scalar offset size cls) out (out.markRange offset size (sysvClass cls)) := by
  unfold SysVClassification.markRange
  rw [ho]
  split
  case isTrue hz =>
    have hz : size = 0 := by simpa using hz
    subst hz
    constructor
    case consistent => exact hc
    case memory => simp [ho, Finding.ForcesMemory]
    case integer => simp [Finding.In]
    case empty => simp [Finding.In]
  case isFalse hz =>
    have hz : 0 < size := Nat.pos_of_ne_zero fun h => hz (.inr h)
    split
    case isTrue hl => exact .toMemory hc rfl ⟨hz, hl⟩
    case isFalse hl =>
      have hk : ∀ k ∈ List.range' (offset / 8) ((offset + size - 1) / 8 + 1 - offset / 8),
          k < 2 ∧ k * 8 < offset + size := by
        intro k hk
        have := (mem_chunks hz).mp hk
        omega
      have ⟨hm, hcons, hfold⟩ := @foldl_markChunk out cls _ _ ho hc hk
      constructor
      case consistent => exact hcons
      case memory => simp [hm, Finding.ForcesMemory, hz, hl]
      case integer =>
        intro _ k _
        rw [(hfold k).1, mem_chunks hz]
        simp [Finding.In, hz, and_comm]
      case empty =>
        intro _ k _
        rw [(hfold k).2, mem_chunks hz]
        simp [Finding.In, hz]

end Range

-- A step of the classification marks what is found.
def MarksOf (F : Finding → Prop) (classify : SysVClassification → Option SysVClassification) : Prop :=
  ∀ out out', classify out = some out' → out.memory = false → out.Consistent → Marks F out out'

-- What relates the findings in an object to the classification before and after it, for objects in sequence.
structure Account (R : (Finding → Prop) → SysVClassification → SysVClassification → Prop) : Prop where
  consistent : ∀ {F out out'}, R F out out' → out'.Consistent
  none       : ∀ {out}, out.memory = false → out.Consistent → R (fun _ => False) out out
  toMemory   : ∀ {F : Finding → Prop} {out} {f : Finding}, out.Consistent → F f → f.ForcesMemory → R F out out.toMemory
  stop       : ∀ {F G : Finding → Prop} {out out₁}, R F out out₁ → out₁.memory = true → R (fun f => F f ∨ G f) out out₁
  seq        : ∀ {F G : Finding → Prop} {out out₁ out₂}, R F out out₁ → out₁.memory = false → R G out₁ out₂ →
    R (fun f => F f ∨ G f) out out₂
  range      : ∀ {out offset size} {cls : RegClass}, out.memory = false → out.Consistent →
    R (· = .scalar offset size cls) out (out.markRange offset size (sysvClass cls))

theorem Marks.account : Account Marks where
  consistent := Marks.consistent
  none       := Marks.none
  toMemory   := fun hc hf hm => .toMemory hc hf hm
  stop       := Marks.stop
  seq        := Marks.seq
  range      := markRange_marks

def AccountsOf (R : (Finding → Prop) → SysVClassification → SysVClassification → Prop) (F : Finding → Prop)
    (classify : SysVClassification → Option SysVClassification) : Prop :=
  ∀ out out', classify out = some out' → out.memory = false → out.Consistent → R F out out'

namespace AccountsOf

variable {R : (Finding → Prop) → SysVClassification → SysVClassification → Prop} {F G : Finding → Prop}
  {classify rest : SysVClassification → Option SysVClassification}

theorem congr (h : AccountsOf R F classify) (hF : ∀ f, F f ↔ G f) : AccountsOf R G classify := by
  have : F = G := funext fun f => propext (hF f)
  exact this ▸ h

theorem fail : AccountsOf R F fun _ => none := by
  intro out out' h
  cases h

-- The order of `return 1` after an object that is in memory and of what comes next.
theorem seq (hR : Account R) (h : AccountsOf R F classify) (h' : AccountsOf R G rest) :
    AccountsOf R (fun f => F f ∨ G f)
      fun out => (classify out).bind fun out => if out.memory then some out else rest out := by
  intro out out' hs ho hc
  have ⟨out₁, h₁, hs⟩ := Option.bind_eq_some_iff.mp hs
  have hm := h out out₁ h₁ ho hc
  split at hs
  case isTrue ht =>
    cases hs
    exact hR.stop hm ht
  case isFalse hf =>
    have hf := Bool.eq_false_of_not_eq_true hf
    exact hR.seq hm hf (h' out₁ out' hs hf (hR.consistent hm))

-- An offset is checked before the object that is there.
theorem aligned (hR : Account R) {align offset : Nat} (h : AccountsOf R F classify) :
    AccountsOf R (fun f => (isMisaligned align offset ∧ f = .unaligned) ∨ F f) fun out =>
      if isMisaligned align offset then some out.toMemory else classify out := by
  intro out out' hs ho hc
  split at hs
  case isTrue ha =>
    cases hs
    exact hR.toMemory hc (.inl ⟨ha, rfl⟩) trivial
  case isFalse ha => exact h.congr (fun f => by simp [ha]) out out' hs ho hc

theorem bind {α : Type} {x : Option α} {F : Finding → Prop} {f : α → SysVClassification → Option SysVClassification}
    (h : ∀ a, x = some a → AccountsOf R F (f a)) : AccountsOf R F fun out => x.bind fun a => f a out := by
  intro out out' hs
  have ⟨a, ha, hs⟩ := Option.bind_eq_some_iff.mp hs
  exact h a ha out out' hs

end AccountsOf

section Elements

variable {R : (Finding → Prop) → SysVClassification → SysVClassification → Prop} (hR : Account R)
include hR

theorem classifyElements_accounts {l : Layout} {base : Nat}
    {classify : Nat → SysVClassification → Option SysVClassification} {F : Nat → Finding → Prop}
    (h : ∀ offset, AccountsOf R (F offset) (classify offset)) (index count : Nat) :
    AccountsOf R (fun f => ∃ i, index ≤ i ∧ i < index + count ∧
      ((isMisaligned l.align (base + l.size * i) ∧ f = .unaligned) ∨ F (base + l.size * i) f))
      (classifyElements l base classify index count) := by
  induction count generalizing index
  case zero =>
    have hnone : AccountsOf R (fun _ => False) (classifyElements l base classify index 0) := by
      intro out out' hs ho hc
      cases hs
      exact hR.none ho hc
    apply hnone.congr
    intro f
    simp only [false_iff, not_exists]
    omega
  case succ count ih =>
    have hrest := ih (index + 1)
    have hseq := @AccountsOf.aligned _ _ _ hR l.align (base + l.size * index)
      ((h (base + l.size * index)).seq hR hrest)
    apply AccountsOf.congr hseq
    intro f
    constructor
    case mp =>
      rintro (hf | hf | ⟨i, hi, hn, hf⟩)
      · exact ⟨index, Nat.le_refl _, by omega, .inl hf⟩
      · exact ⟨index, Nat.le_refl _, by omega, .inr hf⟩
      · exact ⟨i, by omega, by omega, hf⟩
    case mpr =>
      rintro ⟨i, hi, hn, hf⟩
      cases Nat.eq_or_lt_of_le hi
      case inl he =>
        subst he
        cases hf
        case inl hf => exact .inl hf
        case inr hf => exact .inr (.inl hf)
      case inr hi => exact .inr (.inr ⟨i, hi, by omega, hf⟩)

end Elements

section Objects

variable {dl : DataLayout} {target : TargetInfo}

theorem objectLayout_eq {abi : AbiShape} {runtime : Ir.ObjectType} {storage : LlvmType}
    (h : lowerCObjectType dl target abi runtime = some storage) :
    objectLayout dl target abi runtime = dl.layout storage := by
  rw [objectLayout, h]
  rfl

theorem valueLayout_eq {runtime : Ir.ObjectType} {storage : LlvmType}
    (h : lowerType dl target runtime = some storage) : valueLayout dl target runtime = dl.layout storage := by
  rw [valueLayout, h]
  rfl

variable {R : (Finding → Prop) → SysVClassification → SysVClassification → Prop} (hR : Account R)
include hR

theorem markObject_accounts {abi : AbiShape} {runtime : Ir.ObjectType} {base : Nat} {cls : RegClass} :
    AccountsOf R (· = .scalar base (objectLayout dl target abi runtime).size cls)
      (markObject dl target abi runtime base (sysvClass cls)) := by
  intro out out' hs ho hc
  have ⟨storage, hst, hs⟩ := Option.bind_eq_some_iff.mp hs
  cases hs
  rw [objectLayout_eq hst]
  exact hR.range ho hc

variable {fields : List (ObjectField Ir.ObjectType)}

theorem classifyStructFields_accounts {header : AggregateHeader} {all : List (ObjectField Ir.ObjectType)} {base : Nat}
    (hu : header.isUnion = false)
    (hf : ∀ f ∈ fields, ∀ base, AccountsOf R (Finds dl target f.abi f.type base) (classifySysvObject dl target f.abi f.type base))
    (index : Nat) : AccountsOf R (FindsInFields dl target header all base index fields)
      (classifyStructFields dl target header all base index fields) := by
  induction fields generalizing index
  case nil =>
    intro out out' hs ho hc
    cases hs
    exact hR.none ho hc
  case cons field fields ih =>
    cases field
    have hrest := ih (fun f hm => hf f (.tail _ hm)) (index + 1)
    apply AccountsOf.bind
    intro storage hst
    apply AccountsOf.bind
    intro offset ho
    have hoff : memberOffset dl target header all index = offset := by
      rw [memberOffset, hu, if_neg Bool.false_ne_true, ho]
      rfl
    have hfield := (hf _ (.head _) (base + offset)).seq hR hrest
    have hseq := @AccountsOf.aligned _ _ _ hR (dl.layout storage).align (base + offset) hfield
    apply AccountsOf.congr hseq
    intro f
    rw [FindsInFields, FindsInField, hoff, objectLayout_eq hst, or_assoc]

theorem classifyUnionFields_accounts {header : AggregateHeader} {all : List (ObjectField Ir.ObjectType)} {base : Nat}
    (hu : header.isUnion = true)
    (hf : ∀ f ∈ fields, ∀ base, AccountsOf R (Finds dl target f.abi f.type base) (classifySysvObject dl target f.abi f.type base))
    (index : Nat) : AccountsOf R (FindsInFields dl target header all base index fields)
      (classifyUnionFields dl target base fields) := by
  induction fields generalizing index
  case nil =>
    intro out out' hs ho hc
    cases hs
    exact hR.none ho hc
  case cons field fields ih =>
    cases field
    have hrest := ih (fun f hm => hf f (.tail _ hm)) (index + 1)
    apply AccountsOf.bind
    intro storage hst
    have hoff : memberOffset dl target header all index = 0 := by
      rw [memberOffset, hu, if_pos rfl]
    have hfield := (hf _ (.head _) base).seq hR hrest
    have hseq := @AccountsOf.aligned _ _ _ hR (dl.layout storage).align base hfield
    apply AccountsOf.congr hseq
    intro f
    rw [FindsInFields, FindsInField, hoff, objectLayout_eq hst, or_assoc]
    rfl

theorem classifySysvObject_accounts {runtime : Ir.ObjectType} (abi : AbiShape) (base : Nat) :
    AccountsOf R (Finds dl target abi runtime base) (classifySysvObject dl target abi runtime base) := by
  induction runtime using Ir.ObjectType.induct generalizing abi base
  case leaf t ht =>
    cases t <;> cases ht <;> cases abi
    all_goals first | exact AccountsOf.fail | exact markObject_accounts hR
  case array element length ih =>
    cases abi
    case array elementAbi =>
      apply AccountsOf.bind
      intro storage hst
      have h := @classifyElements_accounts _ hR (dl.layout storage) base _ _ (ih elementAbi) 0 length
      apply h.congr
      intro f
      simp [Finds, objectLayout_eq hst]
    case pointer => exact markObject_accounts hR
    case opaquePointer => exact markObject_accounts hR
    case function => exact markObject_accounts hR
    all_goals
      apply AccountsOf.bind
      intro storage _ out out' hs _ hc
      split at hs
      case isTrue =>
        cases hs
        exact hR.toMemory hc rfl trivial
      case isFalse => cases hs
  case enum backing isReprC backingAbi ih =>
    cases abi
    case array => exact AccountsOf.fail
    case pointer => exact markObject_accounts hR
    case opaquePointer => exact markObject_accounts hR
    case function => exact markObject_accounts hR
    all_goals
      cases isReprC
      case true => exact ih backingAbi base
      case false => exact markObject_accounts hR
  case aggregate header fields ih =>
    have hfields : AccountsOf R (FindsInFields dl target header fields base 0 fields) fun out =>
        if header.isUnion then classifyUnionFields dl target base fields out
        else classifyStructFields dl target header fields base 0 fields out := by
      cases hu : header.isUnion
      case false => exact classifyStructFields_accounts hR hu (fun f hm => ih f hm f.abi) 0
      case true => exact classifyUnionFields_accounts hR hu (fun f hm => ih f hm f.abi) 0
    cases abi
    case array => exact AccountsOf.fail
    case pointer => exact markObject_accounts hR
    case opaquePointer => exact markObject_accounts hR
    case function => exact markObject_accounts hR
    all_goals
      apply AccountsOf.bind
      intro storage hst out out' hs ho hc
      split at hs
      case isTrue hl =>
        cases hs
        exact hR.toMemory hc (.inl ⟨valueLayout_eq hst ▸ hl, rfl⟩) trivial
      case isFalse hl =>
        refine hfields.congr (fun f => ?_) out out' hs ho hc
        simp [Finds, valueLayout_eq hst, hl]

omit hR in
theorem classifySysvObject_marks {runtime : Ir.ObjectType} (abi : AbiShape) (base : Nat) :
    MarksOf (Finds dl target abi runtime base) (classifySysvObject dl target abi runtime base) :=
  classifySysvObject_accounts Marks.account abi base

end Objects

end Coglet.Backend.Llvm
