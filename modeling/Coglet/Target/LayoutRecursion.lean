import Coglet.Target.LayoutCorrect

open StructLayout Relation

namespace Coglet.Target.TypeGraph

variable {τ : Type} {target : TargetInfo} {graph : TypeGraph τ} {type part : τ}

section Finite

theorem part_struct {header : RecordHeader} {types : List τ} (hg : graph type = .struct header (types.map some))
    (h : Part graph type part) : part ∈ types := by
  cases h
  case element he => cases hg.symm.trans he
  case field hs hm =>
    cases hg.symm.trans hs
    obtain ⟨_, hm, he⟩ := List.mem_map.mp hm
    exact Option.some.inj he ▸ hm

theorem part_array {element : τ} {size : BitVec 32} (hg : graph type = .array (some element) size)
    (h : Part graph type part) : part = element := by
  cases h
  case element he =>
    cases hg.symm.trans he
    rfl
  case field hs _ => cases hg.symm.trans hs

-- A finite type is built from its parts.
theorem Finite.acc (h : Finite graph type) : Acc (fun part type => Part graph type part) type := by
  induction h
  case array hg _ _ ih => exact .intro _ fun part hp => part_array hg hp ▸ ih
  case struct hg _ _ ih => exact .intro _ fun part hp => ih part (part_struct hg hp)
  all_goals
    refine .intro _ fun part hp => ?_
    cases hp <;> simp_all

-- Each field has a layout.
theorem exists_zip {types : List τ} {ls : List Layout} {P : τ → Prop} (hl : types.length = ls.length) (hm : part ∈ types)
    (h : ∀ field ∈ types.zip ls, P field.1) : P part := by
  rw [← List.map_fst_zip (Nat.le_of_eq hl), List.mem_map] at hm
  obtain ⟨field, hm, rfl⟩ := hm
  exact h field hm

theorem Finite.of_part (h : Finite graph type) (hp : Part graph type part) : Finite graph part := by
  induction h
  case array hg _ hf _ => exact part_array hg hp ▸ hf
  case struct hg _ hf _ => exact hf part (part_struct hg hp)
  all_goals cases hp <;> simp_all

theorem Laid.acc {layout : Layout} (h : Laid target graph type layout) :
    Acc (fun part type => Part graph type part) type := by
  induction h
  case array hg _ _ ih => exact .intro _ fun part hp => part_array hg hp ▸ ih
  case struct hg _ _ hl _ _ _ _ ih => exact .intro _ fun part hp => exists_zip hl (part_struct hg hp) ih
  case union hg _ _ hl _ _ _ ih => exact .intro _ fun part hp => exists_zip hl (part_struct hg hp) ih
  all_goals
    refine .intro _ fun part hp => ?_
    cases hp <;> simp_all

theorem not_cyclic (h : Acc (fun part type => Part graph type part) type) {inner : τ}
    (hr : ReflTransGen (Part graph) type inner) : ¬TransGen (Part graph) inner inner := by
  have hinner : Acc (fun part type => Part graph type part) inner := by
    induction hr
    case refl => exact h
    case tail hp ih => exact ih.inv hp
  have ht := hinner.transGen
  clear hr hinner
  rw [← transGen_swap]
  induction ht
  case intro inner _ ih => exact fun hc => ih inner hc hc

end Finite

section Failure

variable [DecidableEq τ] {room : Nat} {stack : List τ} {message : String}

def recursive : String :=
  "recursive by-value type has no finite layout"

def tooDeep : String :=
  "recursive type layout is too deep"

def overflows : List String :=
  ["array layout size overflows", "slice layout size overflows", "struct layout size overflows"]

-- Why a type has no layout.
inductive Failure (target : TargetInfo) (graph : TypeGraph τ) (room : Nat) (stack : List τ) (type : τ) (message : String) : Prop
  | tooDeep : message = tooDeep → Failure target graph room stack type message
  | recursive : type ∈ stack → message = recursive → Failure target graph room stack type message
  | overflow : message ∈ overflows → Failure target graph room stack type message
  | malformed : ¬Finite graph type → message ≠ recursive → Failure target graph room stack type message
  | part {part : τ} {room' : Nat} : room = room' + 1 → Part graph type part →
    layoutImpl target graph room' (type :: stack) (some part) = .error message →
    Failure target graph room stack type message

section Fields

variable {layout : Option τ → Except String TargetLayout} {isPacked : Bool} {size align : BitVec 64} {fields : List (Option τ)}

omit [DecidableEq τ] in
theorem bind_eq_error {α β : Type} {x : Except String α} {f : α → Except String β} (h : x >>= f = .error message) :
    x = .error message ∨ ∃ a, x = .ok a ∧ f a = .error message := by
  cases x
  case error =>
    cases h
    exact .inl rfl
  case ok a => exact .inr ⟨a, rfl, h⟩

omit [DecidableEq τ] in
theorem layoutUnionFields_eq_error (h : layoutUnionFields layout size align fields = .error message) :
    ∃ field ∈ fields, layout field = .error message := by
  induction fields generalizing size align
  case nil => cases h
  case cons field fields ih =>
    rcases bind_eq_error h with he | ⟨l, -, hr⟩
    · exact ⟨field, List.mem_cons_self, he⟩
    · obtain ⟨other, hm, he⟩ := ih hr
      exact ⟨other, List.mem_cons_of_mem _ hm, he⟩

omit [DecidableEq τ] in
theorem layoutStructFields_eq_error (h : layoutStructFields layout isPacked size align fields = .error message) :
    message ∈ overflows ∨ ∃ field ∈ fields, layout field = .error message := by
  have ho : "struct layout size overflows" ∈ overflows := by simp [overflows]
  induction fields generalizing size align
  case nil => cases h
  case cons field fields ih =>
    rcases bind_eq_error h with he | ⟨l, -, hr⟩
    case inl => exact .inr ⟨field, List.mem_cons_self, he⟩
    case inr =>
      simp only at hr
      split at hr
      case h_1 =>
        cases hr
        exact .inl ho
      case h_2 =>
        split at hr
        case isTrue =>
          cases hr
          exact .inl ho
        case isFalse => exact (ih hr).imp id fun ⟨other, hm, he⟩ => ⟨other, List.mem_cons_of_mem _ hm, he⟩

omit [DecidableEq τ] in
theorem finishStruct_eq_error {header : RecordHeader} (h : finishStruct header size align = .error message) :
    message ∈ overflows := by
  simp only [finishStruct] at h
  split at h
  case h_1 =>
    cases h
    simp [overflows]
  case h_2 => cases h

omit [DecidableEq τ] in
theorem sliceLayout_eq_error (h : sliceLayout target = .error message) : message ∈ overflows := by
  have ho : "slice layout size overflows" ∈ overflows := by simp [overflows]
  simp only [sliceLayout] at h
  split at h
  case h_1 =>
    cases h
    exact ho
  case h_2 =>
    split at h
    case isTrue =>
      cases h
      exact ho
    case isFalse =>
      split at h
      case h_1 =>
        cases h
        exact ho
      case h_2 => cases h

end Fields

theorem layoutImpl_none (stack : List τ) : layoutImpl target graph room stack none = .error "layout type is null" := by
  cases room <;> rfl

-- A part that is missing or has no layout.
theorem Failure.of_part {field : Option τ} (hn : field = none → ¬Finite graph type)
    (hp : ∀ part, field = some part → Part graph type part)
    (h : layoutImpl target graph room (type :: stack) field = .error message) :
    Failure target graph (room + 1) stack type message := by
  cases field
  case none =>
    rw [layoutImpl_none] at h
    cases h
    exact .malformed (hn rfl) (by decide)
  case some part => exact .part rfl (hp part rfl) h

theorem layoutImpl_eq_error (h : layoutImpl target graph room stack (some type) = .error message) :
    Failure target graph room stack type message := by
  cases room
  case zero =>
    cases h
    exact .tooDeep rfl
  case succ room =>
    rw [layoutImpl] at h
    split at h
    case isTrue hm =>
      cases h
      exact .recursive hm rfl
    case isFalse =>
      split at h
      case h_1 | h_2 | h_3 | h_8 => cases h
      case h_4 abi hg =>
        split at h
        case isTrue ha =>
          cases h
          refine .malformed (fun hf => ?_) (by decide)
          cases hf <;> simp_all
        case isFalse => cases h
      case h_5 element size hg =>
        split at h
        case isTrue hs =>
          cases h
          refine .malformed (fun hf => ?_) (by decide)
          cases hf <;> simp_all
          omega
        case isFalse =>
          rcases bind_eq_error h with he | ⟨l, -, hr⟩
          case inl =>
            refine .of_part (fun hn hf => ?_) (fun part hp => .element (hp ▸ hg)) he
            cases hf <;> simp_all
          case inr =>
            simp only at hr
            split at hr
            case isTrue =>
              cases hr
              exact .overflow (by simp [overflows])
            case isFalse => cases hr
      case h_6 => exact .overflow (sliceLayout_eq_error h)
      case h_7 hg =>
        cases h
        refine .malformed (fun hf => ?_) (by decide)
        cases hf <;> simp_all
      case h_9 header fields hg =>
        have hpart {field : Option τ} (hm : field ∈ fields)
            (he : layoutImpl target graph room (type :: stack) field = .error message) :
            Failure target graph (room + 1) stack type message := by
          refine .of_part (fun hn hf => ?_) (fun part hp => .field hg (hp ▸ hm)) he
          have hnone : none ∈ fields := hn ▸ hm
          cases hf <;> simp_all
          obtain ⟨-, rfl⟩ := hg
          simp at hnone
        split at h
        case isTrue hi =>
          cases h
          refine .malformed (fun hf => ?_) (by decide)
          cases hf <;> simp_all
        case isFalse =>
          split at h
          case isTrue =>
            rcases bind_eq_error h with he | ⟨l, -, hr⟩
            · obtain ⟨field, hm, he⟩ := layoutUnionFields_eq_error he
              exact hpart hm he
            · exact .overflow (finishStruct_eq_error hr)
          case isFalse =>
            rcases bind_eq_error h with he | ⟨l, -, hr⟩
            · rcases layoutStructFields_eq_error he with ho | ⟨field, hm, he⟩
              · exact .overflow ho
              · exact hpart hm he
            · exact .overflow (finishStruct_eq_error hr)
      case h_10 hg =>
        cases h
        refine .malformed (fun hf => ?_) (by decide)
        cases hf <;> simp_all

-- The stack has types that contain the current one.
theorem layoutImpl_recursive (hs : ∀ outer ∈ stack, TransGen (Part graph) outer type)
    (h : layoutImpl target graph room stack (some type) = .error recursive) :
    ∃ inner, ReflTransGen (Part graph) type inner ∧ TransGen (Part graph) inner inner := by
  induction room generalizing stack type
  case zero => exact absurd (Except.error.inj h) (by decide)
  case succ room ih =>
    cases layoutImpl_eq_error h
    case tooDeep he => exact absurd he (by decide)
    case recursive hm _ => exact ⟨type, .refl, hs type hm⟩
    case overflow hm => exact absurd hm (by decide)
    case malformed hne => exact absurd rfl hne
    case part part room' he hp hr =>
      cases he
      obtain ⟨inner, hreach, hc⟩ := ih (List.forall_mem_cons.mpr ⟨.single hp, fun outer hm => (hs outer hm).tail hp⟩) hr
      exact ⟨inner, .head hp hreach, hc⟩

theorem layoutImpl_finite (hf : Finite graph type) (hs : ∀ outer ∈ stack, TransGen (Part graph) outer type)
    (h : layoutImpl target graph room stack (some type) = .error message) : message ∈ tooDeep :: overflows := by
  induction room generalizing stack type
  case zero =>
    cases h
    exact List.mem_cons_self
  case succ room ih =>
    cases layoutImpl_eq_error h
    case tooDeep he => exact he ▸ List.mem_cons_self
    case recursive hm _ => exact absurd (hs type hm) (not_cyclic hf.acc .refl)
    case overflow hm => exact List.mem_cons_of_mem _ hm
    case malformed hn _ => exact absurd hf hn
    case part part room' he hp hr =>
      cases he
      exact ih (hf.of_part hp) (List.forall_mem_cons.mpr ⟨.single hp, fun outer hm => (hs outer hm).tail hp⟩) hr

end Failure

section OfType

variable [DecidableEq τ]

theorem layoutOfType_eq (hv : target.validate = .ok ()) (type : Option τ) :
    layoutOfType target graph type = layoutImpl target graph 256 [] type := by
  rw [layoutOfType, hv]

theorem pointerBytes_pos (hv : target.validate = .ok ()) : 0 < target.pointerBits / 8 := by
  rw [TargetInfo.validate] at hv
  split at hv
  case isTrue => cases hv
  case isFalse h => omega

theorem unsigned_config (config : TargetConfig) : (targetInfoFromConfig config).Unsigned :=
  ⟨(by decide : 64 < 2 ^ 32), (by decide : 8 < 2 ^ 32), by simp [TargetInfo.scalarAlign, targetInfoFromConfig]⟩

theorem powersOfTwo_config (config : TargetConfig) : (targetInfoFromConfig config).PowersOfTwo := by
  refine ⟨⟨3, rfl⟩, ?_⟩
  simp only [List.forall_mem_cons]
  exact ⟨⟨0, rfl⟩, ⟨1, rfl⟩, ⟨2, rfl⟩, ⟨3, rfl⟩, fun _ hm => absurd hm List.not_mem_nil⟩

def linux : TargetInfo :=
  targetInfoFromConfig ⟨.x86_64, .linux, .sysv⟩

def plainHeader : RecordHeader where
  isPacked     := false
  isUnion      := false
  isIncomplete := false
  align        := 0#32
  alignPower   := .inl rfl

-- A struct of a byte and a word.
def byteAndWord : TypeGraph (Fin 3)
  | 0 => .struct plainHeader [some 1, some 2]
  | 1 => .scalar .u8
  | 2 => .scalar .u64

-- The type `1` contains itself, the type `0` contains only that type, and the type `2` has another fault in front.
def recursiveTypes : TypeGraph (Fin 4)
  | 0 => .struct plainHeader [some 1]
  | 1 => .struct plainHeader [some 1]
  | 2 => .struct plainHeader [some 3, some 2]
  | 3 => .other

end OfType

end Coglet.Target.TypeGraph
