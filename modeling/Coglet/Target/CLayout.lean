import Coglet.Target.TypeGraph
import Mathlib.Logic.Relation

open StructLayout

namespace Coglet.Target.TypeGraph

variable {τ : Type} {target : TargetInfo} {graph : TypeGraph τ} {type part : τ} {layout : Layout}

-- The types that are a part of an object of a type.
inductive Part (graph : TypeGraph τ) (type : τ) : τ → Prop
  | element {element : τ} {size : BitVec 32} : graph type = .array (some element) size → Part graph type element
  | field {header : RecordHeader} {fields : List (Option τ)} {field : τ} : graph type = .struct header fields →
    some field ∈ fields → Part graph type field

-- The types of finite objects.
inductive Finite (graph : TypeGraph τ) : τ → Prop
  | scalar {type : τ} {kind : ScalarKind} : graph type = .scalar kind → Finite graph type
  | pointer {type : τ} : graph type = .pointer ∨ graph type = .opaquePointer ∨ graph type = .function .c → Finite graph type
  | slice {type : τ} : graph type = .slice → Finite graph type
  | enum {type : τ} {kind : ScalarKind} : graph type = .enum (some kind) → Finite graph type
  | array {type element : τ} {size : BitVec 32} : graph type = .array (some element) size → 0 ≤ size.toInt →
    Finite graph element → Finite graph type
  | struct {type : τ} {header : RecordHeader} {types : List τ} : graph type = .struct header (types.map some) →
    header.isIncomplete = false → (∀ field ∈ types, Finite graph field) → Finite graph type

-- The layout of a type according to the rules of C.
inductive Laid (target : TargetInfo) (graph : TypeGraph τ) : τ → Layout → Prop
  | scalar {type : τ} {kind : ScalarKind} : graph type = .scalar kind ∨ graph type = .enum (some kind) →
    Laid target graph type ⟨kind.bits / 8, target.scalarAlign kind.bits⟩
  | pointer {type : τ} : graph type = .pointer ∨ graph type = .opaquePointer ∨ graph type = .function .c →
    Laid target graph type target.pointerLayout
  -- A slice is a struct of a pointer and a length.
  | slice {type : τ} {length : Layout} {offsets : List Nat} {last size align : Nat} : graph type = .slice →
    length = ⟨target.pointerBits / 8, target.scalarAlign target.pointerBits⟩ →
    Placement false 0 [target.pointerLayout, length] offsets last → align = max target.pointerLayout.align length.align →
    IsLeast {x | last ≤ x ∧ align ∣ x} size → Laid target graph type ⟨size, align⟩
  | array {type element : τ} {size : BitVec 32} {l : Layout} : graph type = .array (some element) size → 0 ≤ size.toInt →
    Laid target graph element l → Laid target graph type ⟨size.toNat * l.size, l.align⟩
  | struct {type : τ} {header : RecordHeader} {types : List τ} {ls : List Layout} {offsets : List Nat} {last size align : Nat} :
    graph type = .struct header (types.map some) → header.isIncomplete = false → header.isUnion = false →
    types.length = ls.length → (∀ field ∈ types.zip ls, Laid target graph field.1 field.2) →
    Placement header.isPacked 0 ls offsets last → align = max (maxAlign header.isPacked 1 ls) header.align.toNat →
    IsLeast {x | last ≤ x ∧ align ∣ x} size → Laid target graph type ⟨size, align⟩
  | union {type : τ} {header : RecordHeader} {types : List τ} {ls : List Layout} {size align : Nat} :
    graph type = .struct header (types.map some) → header.isIncomplete = false → header.isUnion = true →
    types.length = ls.length → (∀ field ∈ types.zip ls, Laid target graph field.1 field.2) →
    align = max (maxAlign header.isPacked 1 ls) header.align.toNat →
    IsLeast {x | maxSize 0 ls ≤ x ∧ align ∣ x} size → Laid target graph type ⟨size, align⟩

end Coglet.Target.TypeGraph
