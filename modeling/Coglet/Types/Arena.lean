import Coglet.Types.Object

namespace Coglet

structure NominalDeclaration where
  type    : TypeObject
  isUnion : Bool
  name    : String

-- A concrete struct that is made from a generic one.
structure GenericStructSpecialization where
  templateId    : Nat
  typeArguments : List TypeObject
  type          : TypeObject

-- The part of the semantic context that is about types.
structure TypeArena where
  -- Every object is at the position of its address.
  objects         : List TypeObject
  sliceTypes      : List TypeObject
  declarations    : List NominalDeclaration
  specializations : List GenericStructSpecialization

namespace TypeArena

open TypeObject

def canonicalBuiltins : List BuiltinKind :=
  [.s8, .s16, .s32, .s64, .u8, .u16, .u32, .u64, .f32, .f64, .bool, .void, .null]

def initial : TypeArena where
  objects         := canonicalBuiltins.mapIdx .builtin
  sliceTypes      := []
  declarations    := []
  specializations := []

def builtinType (kind : BuiltinKind) : Option TypeObject :=
  (canonicalBuiltins.findIdx? (· = kind)).map (.builtin · kind)

-- The kind of the canonical type and its address.
def fixedIntegerTypeForBits : Nat → Bool → Option (Address × BuiltinKind)
  | 8, true => some (0, .s8)
  | 16, true => some (1, .s16)
  | 32, true => some (2, .s32)
  | 64, true => some (3, .s64)
  | 8, false => some (4, .u8)
  | 16, false => some (5, .u16)
  | 32, false => some (6, .u32)
  | 64, false => some (7, .u64)
  | _, _ => none

section Operations

variable (σ : TypeArena)

-- The address of the next object.
def next : Address :=
  σ.objects.length

def allocate (t : TypeObject) : TypeArena :=
  { σ with objects := σ.objects ++ [t] }

def isSliceOf (access : PointerAccess) (element : TypeObject) : TypeObject → Bool
  | .slice _ a e => a = access && e.typeEqual element
  | _ => false

def internSliceType (element : TypeObject) (access : PointerAccess) : TypeObject × TypeArena :=
  match σ.sliceTypes.find? (isSliceOf access element) with
  | some type => (type, σ)
  | none =>
    let type := .slice σ.next access element
    (type, { σ.allocate type with sliceTypes := type :: σ.sliceTypes })

def declareNominal (type : TypeObject) (isUnion : Bool) (name : String) : TypeObject × TypeArena :=
  (type, { σ.allocate type with declarations := σ.declarations ++ [⟨type, isUnion, name⟩] })

def declareStructShell (isUnion : Bool) (name : String) : TypeObject × TypeArena :=
  σ.declareNominal (.struct σ.next) isUnion name

def declareEnumShell (name : String) : TypeObject × TypeArena :=
  σ.declareNominal (.enum σ.next) false name

def findGenericStructSpecialization (templateId : Nat) (typeArguments : List TypeObject) :
    Option GenericStructSpecialization :=
  σ.specializations.find? fun specialization =>
    specialization.templateId = templateId && typesEqual specialization.typeArguments typeArguments

-- The fields of the new struct are resolved by later operations on the arena.
def instantiateGenericStruct (templateId : Nat) (typeArguments : List TypeObject) (name : String) :
    TypeObject × TypeArena :=
  match σ.findGenericStructSpecialization templateId typeArguments with
  | some specialization => (specialization.type, σ)
  | none =>
    let (type, τ) := σ.declareStructShell false name
    (type, { τ with specializations := ⟨templateId, typeArguments, type⟩ :: τ.specializations })

end Operations

section Resolution

inductive TypeSymbol
  | type (type : TypeObject)
  | genericStruct (templateId : Nat) (parameterCount : Nat) (name : String)

-- What the resolution of a type asks about the program outside of the type.
structure TypeScope where
  lookup              : String → String → Option TypeSymbol
  -- The provenance and the constraints of the type arguments are acceptable.
  argumentsAccepted   : Nat → List TypeObject → Bool
  cSignatureSupported : TypeObject → Bool

def isConcrete : TypeObject → Bool
  | .builtin _ .untypedInt | .builtin _ .untypedFloat | .builtin _ .null | .named .. => false
  | _ => true

mutual

def resolveType (scope : TypeScope) : TypeObject → TypeArena → Option (TypeObject × TypeArena)
  | .builtin l kind, σ => some ((builtinType kind).getD (.builtin l kind), σ)
  | .named _ module name sourceArguments, σ => do
    match ← scope.lookup module name with
    | .type type => if sourceArguments.isEmpty then some (type, σ) else none
    | .genericStruct templateId parameterCount name =>
      if sourceArguments.length = 0 ∨ sourceArguments.length ≠ parameterCount then
        none
      else
        let (typeArguments, σ) ← resolveTypes scope sourceArguments σ
        if typeArguments.all isConcrete ∧ scope.argumentsAccepted templateId typeArguments then
          some (σ.instantiateGenericStruct templateId typeArguments name)
        else
          none
  | .slice _ access element, σ => do
    let (element, σ) ← resolveType scope element σ
    some (σ.internSliceType element access)
  | .pointer l access isVolatile element, σ => do
    let (resolved, σ) ← resolveType scope element σ
    if resolved.address = element.address then
      some (.pointer l access isVolatile element, σ)
    else
      let copy := .pointer σ.next access isVolatile resolved
      some (copy, σ.allocate copy)
  | .array l size element, σ => do
    let (resolved, σ) ← resolveType scope element σ
    if resolved.address = element.address then
      some (.array l size element, σ)
    else
      let copy := .array σ.next size resolved
      some (copy, σ.allocate copy)
  | .function l abi callConv isVariadic parameters returnType, σ => do
    let (resolvedParameters, σ) ← resolveTypes scope parameters σ
    let (resolvedReturn, σ) ← resolveType scope returnType σ
    let changed := !(resolvedParameters.map (·.address) = parameters.map (·.address) &&
      resolvedReturn.address = returnType.address)
    let type := if changed then .function σ.next abi callConv isVariadic resolvedParameters resolvedReturn
      else .function l abi callConv isVariadic parameters returnType
    let σ := if changed then σ.allocate type else σ
    if abi = .c ∧ isVariadic ∧ callConv = .stdcall then
      none
    else if abi = .c ∧ !scope.cSignatureSupported type then
      none
    else
      some (type, σ)
  | type, σ => some (type, σ)

def resolveTypes (scope : TypeScope) : List TypeObject → TypeArena → Option (List TypeObject × TypeArena)
  | [], σ => some ([], σ)
  | type :: types, σ => do
    let (type, σ) ← resolveType scope type σ
    let (types, σ) ← resolveTypes scope types σ
    some (type :: types, σ)

end
end Resolution

end TypeArena
end Coglet
