import Coglet.Lib.DepthFirst

-- The search for structs that contain themselves by value.

namespace Coglet.Check

open DepthFirst Relation

-- A resolved type as far as the layout of fields depends on it
inductive FieldType (τ : Type)
  | null
  | scalar | opaquePointer
  | pointer (element : FieldType τ)
  | struct (type : τ)
  | enum (isReprC : Bool)
  | array (element : FieldType τ) (size : Int)
  | function (isExternC : Bool)
  -- Slices, `void`, untyped literals and names that were not resolved
  | other

structure StructField (τ : Type) where
  name : String
  type : FieldType τ

structure StructType (τ : Type) where
  name         : String
  isReprC      : Bool
  isIncomplete : Bool
  fields       : List (StructField τ)

abbrev StructTypes (τ : Type) := τ → StructType τ

namespace FieldType

variable {τ : Type} (types : StructTypes τ)

-- The function `repr_c_struct_field_type_supported`
def reprCSupported : FieldType τ → Bool
  | null => false
  | scalar | opaquePointer => true
  | pointer null => false
  | pointer (struct type) => (types type).isReprC
  | pointer element => element.reprCSupported
  | struct type => (types type).isReprC && !(types type).isIncomplete
  | enum isReprC => isReprC
  | array element size => decide (0 < size) && element.reprCSupported
  | function isExternC => isExternC
  | other => false

def stripArrays : FieldType τ → FieldType τ
  | array element _ => element.stripArrays
  | type => type

end FieldType

-- A declaration of a struct or union. It has a type when its shell was declared.
structure StructDecl {τ : Type} (types : StructTypes τ) where
  isReprC      : Bool
  isUnion      : Bool
  resolvedType : Option τ
  shell        : ∀ type, resolvedType = some type → (types type).isReprC = isReprC

section Fields

variable {τ : Type} (types : StructTypes τ)

-- The end of `fill_struct_fields`. The field has no type if its type is not supported.
def filledType (owner : StructType τ) (field : StructField τ) : FieldType τ :=
  if owner.isReprC && !field.type.reprCSupported types then .null else field.type

-- The struct that a field stores inline
def inlineStruct (owner : StructType τ) (field : StructField τ) : Option τ :=
  match (filledType types owner field).stripArrays with
  | .struct type => some type
  | _ => none

def containedStructs (type : τ) : List (StructField τ × τ) :=
  (types type).fields.filterMap fun field => (inlineStruct types (types type) field).map fun inner => (field, inner)

end Fields

section Search

variable {τ : Type} [DecidableEq τ] {types : StructTypes τ} (nodes : List (StructDecl types))

-- The functions `find_repr_c_struct_node_index` and `find_concrete_coglet_struct_index`
def findIndex (type : τ) : Option Nat :=
  nodes.findIdx? (·.resolvedType = some type)

def resolvedType (i : Nat) : Option τ :=
  nodes[i]?.bind (·.resolvedType)

-- The fields that are followed from a node. Only the search over Coglet structs looks at the representation.
def dependencies (skipsReprC : Bool) (i : Nat) : List (StructField τ × Nat) :=
  match resolvedType nodes i with
  | none => []
  | some type =>
    (containedStructs types type).filterMap fun (field, inner) =>
      if skipsReprC && (types inner).isReprC then none
      else (findIndex nodes inner).map fun j => (field, j)

def searchLayouts (skipsReprC : Bool) : Option (List (Nat × StructField τ)) :=
  (search (dependencies nodes skipsReprC) (nodes.length + 1) (List.range nodes.length)).map (·.reports)

end Search

section Links

variable {τ : Type} [DecidableEq τ] {types : StructTypes τ} {nodes : List (StructDecl types)} {skips : Bool}
  {i j : Nat} {a b : τ}

-- The containment that a search follows
structure Linked (nodes : List (StructDecl types)) (skips : Bool) (a b : τ) : Prop where
  source    : ∃ decl ∈ nodes, decl.resolvedType = some a
  target    : ∃ decl ∈ nodes, decl.resolvedType = some b
  contained : ∃ field, (field, b) ∈ containedStructs types a
  followed  : (skips && (types b).isReprC) = false

theorem resolvedType_of_findIndex (h : findIndex nodes a = some i) : resolvedType nodes i = some a := by
  obtain ⟨hi, ha, _⟩ := List.findIdx?_eq_some_iff_getElem.mp h
  simpa [resolvedType, hi] using ha

theorem findIndex_lt (h : findIndex nodes a = some i) : i < nodes.length :=
  (List.findIdx?_eq_some_iff_getElem.mp h).1

theorem exists_findIndex (h : ∃ decl ∈ nodes, decl.resolvedType = some a) : ∃ i, findIndex nodes a = some i := by
  obtain ⟨decl, hd, ha⟩ := h
  cases hf : findIndex nodes a
  case some i => exact ⟨i, rfl⟩
  case none => simpa [ha] using List.findIdx?_eq_none_iff.mp hf decl hd

theorem exists_decl (h : resolvedType nodes i = some a) : ∃ decl ∈ nodes, decl.resolvedType = some a := by
  obtain ⟨decl, hd, ha⟩ := Option.bind_eq_some_iff.mp h
  exact ⟨decl, List.mem_of_getElem? hd, ha⟩

theorem edge_iff : Edge (dependencies nodes skips) i j ↔
    ∃ a b, resolvedType nodes i = some a ∧ (∃ field, (field, b) ∈ containedStructs types a) ∧
      (skips && (types b).isReprC) = false ∧ findIndex nodes b = some j := by
  unfold Edge dependencies
  cases resolvedType nodes i
  case none => simp
  case some a =>
    simp only [List.mem_filterMap, Prod.exists, Option.some.injEq]
    constructor
    case mp =>
      rintro ⟨_, field, b, hb, h⟩
      split at h
      case isTrue => cases h
      case isFalse hs =>
        obtain ⟨j', hj, he⟩ := Option.map_eq_some_iff.mp h
        cases he
        exact ⟨a, b, rfl, ⟨_, hb⟩, by simpa using hs, hj⟩
    case mpr =>
      rintro ⟨_, b, rfl, ⟨field, hb⟩, hs, hj⟩
      exact ⟨field, field, b, hb, by simp [hs, hj]⟩

theorem linked_of_edge (h : Edge (dependencies nodes skips) i j) (ha : resolvedType nodes i = some a) :
    ∃ b, resolvedType nodes j = some b ∧ Linked nodes skips a b := by
  obtain ⟨a', b, ha', hc, hs, hj⟩ := edge_iff.mp h
  cases ha.symm.trans ha'
  have hb := resolvedType_of_findIndex hj
  exact ⟨b, hb, exists_decl ha, exists_decl hb, hc, hs⟩

theorem linked_of_path (h : TransGen (Edge (dependencies nodes skips)) i j) (ha : resolvedType nodes i = some a) :
    ∃ b, resolvedType nodes j = some b ∧ TransGen (Linked nodes skips) a b := by
  induction h
  case single h =>
    obtain ⟨b, hb, hl⟩ := linked_of_edge h ha
    exact ⟨b, hb, .single hl⟩
  case tail h ih =>
    obtain ⟨b, hb, hp⟩ := ih
    obtain ⟨c, hc, hl⟩ := linked_of_edge h hb
    exact ⟨c, hc, hp.tail hl⟩

theorem edge_of_linked (h : Linked nodes skips a b) (hi : findIndex nodes a = some i) :
    ∃ j, findIndex nodes b = some j ∧ Edge (dependencies nodes skips) i j := by
  obtain ⟨j, hj⟩ := exists_findIndex h.target
  exact ⟨j, hj, edge_iff.mpr ⟨a, b, resolvedType_of_findIndex hi, h.contained, h.followed, hj⟩⟩

theorem path_of_linked (h : TransGen (Linked nodes skips) a b) (hi : findIndex nodes a = some i) :
    ∃ j, findIndex nodes b = some j ∧ TransGen (Edge (dependencies nodes skips)) i j := by
  induction h
  case single h =>
    obtain ⟨j, hj, he⟩ := edge_of_linked h hi
    exact ⟨j, hj, .single he⟩
  case tail h ih =>
    obtain ⟨j, hj, hp⟩ := ih
    obtain ⟨k, hk, he⟩ := edge_of_linked h hj
    exact ⟨k, hk, hp.tail he⟩

theorem cycle_iff :
    (∃ i, TransGen (Edge (dependencies nodes skips)) i i) ↔ ∃ a, TransGen (Linked nodes skips) a a := by
  constructor
  case mp =>
    rintro ⟨i, h⟩
    obtain ⟨j, he, _⟩ := TransGen.head'_iff.mp h
    obtain ⟨a, _, ha, _⟩ := edge_iff.mp he
    obtain ⟨b, hb, hp⟩ := linked_of_path h ha
    cases ha.symm.trans hb
    exact ⟨a, hp⟩
  case mpr =>
    rintro ⟨a, h⟩
    obtain ⟨b, hl, _⟩ := TransGen.head'_iff.mp h
    obtain ⟨i, hi⟩ := exists_findIndex hl.source
    obtain ⟨j, hj, hp⟩ := path_of_linked h hi
    cases hi.symm.trans hj
    exact ⟨i, hp⟩

-- A search ends, and it finds something exactly if there is a cycle.
theorem searchLayouts_iff : ∃ reports, searchLayouts nodes skips = some reports ∧
    (reports ≠ [] ↔ ∃ a, TransGen (Linked nodes skips) a a) := by
  have hn (i : Nat) (edge : StructField τ × Nat) (he : edge ∈ dependencies nodes skips i) :
      i ∈ List.range nodes.length ∧ edge.2 ∈ List.range nodes.length := by
    obtain ⟨a, b, ha, _, _, hj⟩ := edge_iff.mp ⟨edge.1, he⟩
    obtain ⟨decl, hd, _⟩ := Option.bind_eq_some_iff.mp ha
    exact ⟨List.mem_range.mpr (List.getElem?_eq_some_iff.mp hd).1, List.mem_range.mpr (findIndex_lt hj)⟩
  obtain ⟨s, hs, hr⟩ := search_reports_iff (fun i _ edge he => (hn i edge he).2) fun i hne => by
    obtain ⟨edge, he⟩ := List.exists_mem_of_ne_nil _ hne
    exact (hn i edge he).1
  rw [List.length_range] at hs
  exact ⟨s.reports, by rw [searchLayouts, hs]; rfl, hr.trans cycle_iff⟩

end Links

-- What is checked: the statements of a file, in which other statements than blocks count as blocks of their parts.
inductive Statement {τ : Type} (types : StructTypes τ)
  | structDecl (decl : StructDecl types)
  | block (statements : List (Statement types))
  | function (body : List (Statement types))

namespace Statement

variable {τ : Type} {types : StructTypes τ}

mutual

-- The declarations that `check_node` accepts
def declared (functionDepth : Nat) : Statement types → List (StructDecl types)
  | structDecl decl => if decl.isReprC && decide (0 < functionDepth) then [] else [decl]
  | block statements => declaredAll functionDepth statements
  | function body => declaredAll (functionDepth + 1) body

def declaredAll (functionDepth : Nat) : List (Statement types) → List (StructDecl types)
  | [] => []
  | statement :: statements => statement.declared functionDepth ++ declaredAll functionDepth statements

end

def topLevel : Statement types → Option (StructDecl types)
  | structDecl decl => some decl
  | _ => none

end Statement

-- A program after its check. The instances of generic structs are declared on the way.
structure Program {τ : Type} (types : StructTypes τ) where
  statements : List (Statement types)
  instances  : List (StructDecl types)
  generic    : ∀ decl ∈ instances, decl.isReprC = false
  -- The table of declarations, in some order
  table      : List (StructDecl types)
  complete   : table.Perm (Statement.declaredAll 0 statements ++ instances)

namespace Program

variable {τ : Type} {types : StructTypes τ} (p : Program types)

def reprCNodes : List (StructDecl types) :=
  (p.statements.filterMap (·.topLevel)).filter (·.isReprC)

def concreteNodes : List (StructDecl types) :=
  p.table.filter fun decl => decl.resolvedType.any fun type => !(types type).isReprC

section Validate

variable [DecidableEq τ]

def validateReprCStructLayouts : Option (List String) :=
  (searchLayouts p.reprCNodes false).map fun reports => reports.map fun (i, field) =>
    let kind := if p.reprCNodes[i]?.any (·.isUnion) then "union" else "struct"
    "#repr(c) by-value field '" ++ field.name ++ "' creates a recursive " ++ kind ++ " layout"

def validateConcreteCogletStructLayouts : Option (List String) :=
  (searchLayouts p.concreteNodes true).map fun reports => reports.map fun (i, field) =>
    let name := ((resolvedType p.concreteNodes i).map fun type => (types type).name).getD ""
    "by-value field '" ++ field.name ++ "' creates a recursive struct layout in '" ++ name ++ "'"

end Validate

-- The containment of declared structs by value
def Declared (type : τ) : Prop :=
  ∃ decl ∈ p.table, decl.resolvedType = some type

def Contains (a b : τ) : Prop :=
  p.Declared a ∧ p.Declared b ∧ ∃ field, (field, b) ∈ containedStructs types a

def Recursive : Prop :=
  ∃ a, TransGen p.Contains a a

-- The `#repr(c)` structs that are declared in a block and not by a statement of the program.
def Nested (type : τ) : Prop :=
  (types type).isReprC = true ∧ ¬∃ decl ∈ p.statements.filterMap (·.topLevel), decl.resolvedType = some type

def ContainsUnnested (a b : τ) : Prop :=
  p.Contains a b ∧ ¬p.Nested a ∧ ¬p.Nested b

section Containment

variable {p : Program types} {a b : τ}

theorem isReprC_of_supported {t : FieldType τ} (h : t.reprCSupported types) (hs : t.stripArrays = .struct b) :
    (types b).isReprC := by
  induction t
  case array element size ih =>
    simp only [FieldType.reprCSupported, Bool.and_eq_true] at h
    exact ih h.2 hs
  case struct =>
    cases hs
    simp only [FieldType.reprCSupported, Bool.and_eq_true] at h
    exact h.1
  all_goals cases hs

-- A struct with the layout of C contains only structs with the layout of C.
theorem isReprC_of_contained (h : (field, b) ∈ containedStructs types a) (ha : (types a).isReprC) :
    (types b).isReprC := by
  obtain ⟨f, hf, h⟩ := List.mem_filterMap.mp h
  obtain ⟨c, hc, he⟩ := Option.map_eq_some_iff.mp h
  cases he
  unfold inlineStruct filledType at hc
  rw [ha] at hc
  by_cases hs : field.type.reprCSupported types
  case neg => simp [hs, FieldType.stripArrays] at hc
  case pos =>
    simp only [hs, Bool.not_true, Bool.and_false, Bool.false_eq_true, if_false] at hc
    split at hc
    case h_1 ht =>
      cases hc
      exact isReprC_of_supported hs ht
    case h_2 => cases hc

theorem declaredAll_topLevel {statements : List (Statement types)} (h : decl ∈ statements.filterMap (·.topLevel)) :
    decl ∈ Statement.declaredAll 0 statements := by
  induction statements
  case nil => simp at h
  case cons statement statements ih =>
    rw [Statement.declaredAll, List.mem_append]
    rw [List.filterMap_cons] at h
    cases statement
    case structDecl d =>
      cases List.mem_cons.mp h
      case inl h => exact .inl (by simp [Statement.declared, h])
      case inr h => exact .inr (ih h)
    all_goals exact .inr (ih h)

theorem mem_table_of_reprCNodes (h : decl ∈ p.reprCNodes) : decl ∈ p.table :=
  p.complete.mem_iff.mpr (List.mem_append_left _ (declaredAll_topLevel (List.mem_of_mem_filter h)))

theorem isReprC_of_reprCNodes (h : decl ∈ p.reprCNodes) (ha : decl.resolvedType = some a) : (types a).isReprC :=
  (decl.shell a ha).trans (List.mem_filter.mp h).2

theorem mem_concreteNodes_iff (ha : decl.resolvedType = some a) :
    decl ∈ p.concreteNodes ↔ decl ∈ p.table ∧ (types a).isReprC = false := by
  simp [concreteNodes, ha]

theorem mem_nodes (hd : p.Declared a) (hn : ¬p.Nested a) :
    if (types a).isReprC then ∃ decl ∈ p.reprCNodes, decl.resolvedType = some a
    else ∃ decl ∈ p.concreteNodes, decl.resolvedType = some a := by
  split
  case isTrue hr =>
    obtain ⟨decl, hm, ha⟩ := by_contra fun h => hn ⟨hr, h⟩
    exact ⟨decl, List.mem_filter.mpr ⟨hm, (decl.shell a ha).symm.trans hr⟩, ha⟩
  case isFalse hr =>
    obtain ⟨decl, hm, ha⟩ := hd
    exact ⟨decl, (mem_concreteNodes_iff ha).mpr ⟨hm, by simpa using hr⟩, ha⟩

theorem not_nested_of_reprCNodes (h : ∃ decl ∈ p.reprCNodes, decl.resolvedType = some a) : ¬p.Nested a :=
  fun hn => hn.2 <| h.imp fun _ hd => ⟨List.mem_of_mem_filter hd.1, hd.2⟩

theorem not_nested_of_concreteNodes (h : ∃ decl ∈ p.concreteNodes, decl.resolvedType = some a) : ¬p.Nested a := by
  obtain ⟨decl, hm, ha⟩ := h
  intro hn
  cases hn.1.symm.trans ((mem_concreteNodes_iff ha).mp hm).2

theorem containsUnnested_of_reprC (h : Linked p.reprCNodes false a b) : p.ContainsUnnested a b :=
  ⟨⟨h.source.imp fun _ hd => ⟨mem_table_of_reprCNodes hd.1, hd.2⟩,
    h.target.imp fun _ hd => ⟨mem_table_of_reprCNodes hd.1, hd.2⟩, h.contained⟩,
    not_nested_of_reprCNodes h.source, not_nested_of_reprCNodes h.target⟩

theorem containsUnnested_of_concrete (h : Linked p.concreteNodes true a b) : p.ContainsUnnested a b :=
  ⟨⟨h.source.imp fun _ hd => ⟨List.mem_of_mem_filter hd.1, hd.2⟩,
    h.target.imp fun _ hd => ⟨List.mem_of_mem_filter hd.1, hd.2⟩, h.contained⟩,
    not_nested_of_concreteNodes h.source, not_nested_of_concreteNodes h.target⟩

theorem isReprC_of_containsUnnested (h : p.ContainsUnnested a b) (ha : (types a).isReprC) : (types b).isReprC := by
  obtain ⟨field, hf⟩ := h.1.2.2
  exact isReprC_of_contained hf ha

theorem reprC_of_containsUnnested (h : p.ContainsUnnested a b) (ha : (types a).isReprC) :
    Linked p.reprCNodes false a b := by
  have hb := isReprC_of_containsUnnested h ha
  have hs := mem_nodes h.1.1 h.2.1
  have ht := mem_nodes h.1.2.1 h.2.2
  rw [if_pos ha] at hs
  rw [if_pos hb] at ht
  exact ⟨hs, ht, h.1.2.2, rfl⟩

theorem concrete_of_containsUnnested (h : p.ContainsUnnested a b) (hb : (types b).isReprC = false) :
    Linked p.concreteNodes true a b := by
  have ha : ¬(types a).isReprC := fun ha => by simp [isReprC_of_containsUnnested h ha] at hb
  have hs := mem_nodes h.1.1 h.2.1
  have ht := mem_nodes h.1.2.1 h.2.2
  rw [if_neg ha] at hs
  rw [if_neg (by simp [hb])] at ht
  exact ⟨hs, ht, h.1.2.2, by simp [hb]⟩

-- A path stays among the structs with the layout of C once it is there.
theorem reprC_path (h : TransGen p.ContainsUnnested a b) (ha : (types a).isReprC) :
    (types b).isReprC ∧ TransGen (Linked p.reprCNodes false) a b := by
  induction h
  case single h => exact ⟨isReprC_of_containsUnnested h ha, .single (reprC_of_containsUnnested h ha)⟩
  case tail h ih => exact ⟨isReprC_of_containsUnnested h ih.1, ih.2.tail (reprC_of_containsUnnested h ih.1)⟩

theorem concrete_path (h : TransGen p.ContainsUnnested a b) (hb : (types b).isReprC = false) :
    (types a).isReprC = false ∧ TransGen (Linked p.concreteNodes true) a b := by
  induction h using TransGen.head_induction_on
  case single h =>
    have hl := concrete_of_containsUnnested h hb
    exact ⟨by_contra fun ha => by simp [isReprC_of_containsUnnested h (by simpa using ha)] at hb, .single hl⟩
  case head h _ ih =>
    have hl := concrete_of_containsUnnested h ih.1
    refine ⟨by_contra fun ha => ?_, ih.2.head hl⟩
    have := isReprC_of_containsUnnested h (by simpa using ha)
    simp [ih.1] at this

theorem linked_cycle_iff : ((∃ a, TransGen (Linked p.reprCNodes false) a a) ∨
    ∃ a, TransGen (Linked p.concreteNodes true) a a) ↔ ∃ a, TransGen p.ContainsUnnested a a := by
  constructor
  case mp =>
    rintro (⟨a, h⟩ | ⟨a, h⟩)
    · exact ⟨a, h.lift id fun _ _ => containsUnnested_of_reprC⟩
    · exact ⟨a, h.lift id fun _ _ => containsUnnested_of_concrete⟩
  case mpr =>
    rintro ⟨a, h⟩
    cases hr : (types a).isReprC
    case true => exact .inl ⟨a, (reprC_path h hr).2⟩
    case false => exact .inr ⟨a, (concrete_path h hr).2⟩

end Containment

section Reports

variable [DecidableEq τ]

theorem validate_iff (p : Program types) : ∃ reprC concrete, p.validateReprCStructLayouts = some reprC ∧
    p.validateConcreteCogletStructLayouts = some concrete ∧
    (reprC ≠ [] ∨ concrete ≠ [] ↔ ∃ a, TransGen p.ContainsUnnested a a) := by
  obtain ⟨reports, hs, hr⟩ := @searchLayouts_iff _ _ _ p.reprCNodes false
  obtain ⟨reports', hs', hr'⟩ := @searchLayouts_iff _ _ _ p.concreteNodes true
  refine ⟨_, _, by rw [validateReprCStructLayouts, hs]; rfl,
    by rw [validateConcreteCogletStructLayouts, hs']; rfl, ?_⟩
  simp only [ne_eq, List.map_eq_nil_iff]
  exact (or_congr hr hr').trans linked_cycle_iff

-- Both searches end. They report something exactly for the recursive programs, unless every recursion goes through
-- nested `#repr(c)` structs.
theorem recursion_reported_iff (p : Program types) : ∃ reprC concrete, p.validateReprCStructLayouts = some reprC ∧
    p.validateConcreteCogletStructLayouts = some concrete ∧
    ((reprC ≠ [] ∨ concrete ≠ [] ↔ p.Recursive) ↔ (p.Recursive → ∃ a, TransGen p.ContainsUnnested a a)) := by
  obtain ⟨reprC, concrete, hs, hs', hr⟩ := p.validate_iff
  refine ⟨reprC, concrete, hs, hs', ?_⟩
  rw [hr]
  exact ⟨fun h => h.mpr, fun h => ⟨fun ⟨a, ha⟩ => ⟨a, ha.lift id fun _ _ h => h.1⟩, h⟩⟩

end Reports

section Counterexample

-- The struct of `#repr(c) A :: struct { a: A; }`
def selfContaining : StructTypes Unit :=
  fun _ => { name := "A", isReprC := true, isIncomplete := false, fields := [⟨"a", .struct ()⟩] }

-- The declaration stands in a block outside of any function.
def recursionInBlock : Program selfContaining :=
  let decl := { isReprC := true, isUnion := false, resolvedType := some (), shell := fun _ _ => rfl }
  { statements := [.block [.structDecl decl]]
    instances  := []
    generic    := nofun
    table      := [decl]
    complete   := .refl _ }

theorem recursionInBlock_accepted : recursionInBlock.validateReprCStructLayouts = some [] ∧
    recursionInBlock.validateConcreteCogletStructLayouts = some [] ∧ recursionInBlock.Recursive := by
  refine ⟨rfl, rfl, (), .single ⟨⟨_, List.mem_singleton_self _, rfl⟩, ⟨_, List.mem_singleton_self _, rfl⟩, ?_⟩⟩
  exact ⟨⟨"a", .struct ()⟩, List.mem_singleton_self _⟩

end Counterexample

end Program

end Coglet.Check
