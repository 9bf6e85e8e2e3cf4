import Coglet.Types
import Coglet.Lib.Interning

namespace Coglet.Ir

abbrev CogIrTypeId := Nat

abbrev CogIrAbiTypeId := Nat

def COG_IR_ID_INVALID : Nat := 0xFFFFFFFF

inductive CogIrAbiRepresentation
  | coglet
  | c
deriving DecidableEq, Repr

inductive CogIrCallingConvention
  | default | cdecl | stdcall | sysv64 | win64
deriving DecidableEq, Repr

inductive CogIrNominalKind
  | struct
  | union
  | enum
deriving DecidableEq, Repr

structure CogIrAggregateField where
  debugName : String
  type      : CogIrTypeId
  abiType   : Option CogIrAbiTypeId
deriving DecidableEq, Repr

structure CogIrEnumMember where
  debugName : String
  bits      : Nat
deriving DecidableEq, Repr

-- What is known about a nominal type. It is declared first and defined later.
inductive CogIrNominalBody
  | declared
  | incomplete
  | aggregate (fields : List CogIrAggregateField) (isReprC isPacked : Bool) (explicitAlignment : Nat)
  | enumeration (backingType : CogIrTypeId) (members : List CogIrEnumMember) (isReprC : Bool)
      (backingAbiType : Option CogIrAbiTypeId)
deriving DecidableEq, Repr

inductive CogIrType
  | void | bool
  | integer (bits : Nat) (isSigned : Bool)
  | float (bits : Nat)
  | pointer (pointee : CogIrTypeId) (isReadonly isVolatile : Bool)
  | opaquePointer (isReadonly isVolatile : Bool)
  | array (elementType : CogIrTypeId) (length : Nat)
  | function (resultType : CogIrTypeId) (parameterTypes : List CogIrTypeId) (abi : CogIrAbiRepresentation)
      (callingConvention : CogIrCallingConvention) (isVariadic : Bool)
  | nominal (kind : CogIrNominalKind) (debugName : String) (body : CogIrNominalBody)
deriving DecidableEq, Repr

-- The types that are looked up before they are added.
def CogIrType.Structural : CogIrType → Prop
  | nominal .. => False
  | _ => True

structure CogIrModule where
  types    : List CogIrType
  isFrozen : Bool

namespace CogIrModule

section Builders

variable (module : CogIrModule)

def getType (id : CogIrTypeId) : Option CogIrType :=
  module.types[id]?

def appendType (type : CogIrType) : Option (CogIrTypeId × CogIrModule) :=
  if module.isFrozen ∨ module.types.length ≥ COG_IR_ID_INVALID then
    none
  else
    some (module.types.length, { module with types := module.types ++ [type] })

-- The linear search of the builders is followed by `append_type`.
def internType (type : CogIrType) : Option (CogIrTypeId × CogIrModule) :=
  if module.isFrozen then
    none
  else
    match module.types.findIdx? (· = type) with
    | some id => some (id, module)
    | none    => module.appendType type

def typeVoid : Option (CogIrTypeId × CogIrModule) :=
  module.internType .void

def typeBool : Option (CogIrTypeId × CogIrModule) :=
  module.internType .bool

def typeInteger (bits : Nat) (isSigned : Bool) : Option (CogIrTypeId × CogIrModule) :=
  if bits = 8 ∨ bits = 16 ∨ bits = 32 ∨ bits = 64 then module.internType (.integer bits isSigned) else none

def typeFloat (bits : Nat) : Option (CogIrTypeId × CogIrModule) :=
  if bits = 32 ∨ bits = 64 then module.internType (.float bits) else none

def typePointer (pointee : CogIrTypeId) (isReadonly isVolatile : Bool) : Option (CogIrTypeId × CogIrModule) :=
  if (module.getType pointee).isSome then module.internType (.pointer pointee isReadonly isVolatile) else none

def typeOpaquePointer (isReadonly isVolatile : Bool) : Option (CogIrTypeId × CogIrModule) :=
  module.internType (.opaquePointer isReadonly isVolatile)

def typeArray (elementType : CogIrTypeId) (length : Nat) : Option (CogIrTypeId × CogIrModule) :=
  if (module.getType elementType).isSome then module.internType (.array elementType length) else none

def typeFunction (resultType : CogIrTypeId) (parameterTypes : List CogIrTypeId) (abi : CogIrAbiRepresentation)
    (callingConvention : CogIrCallingConvention) (isVariadic : Bool) : Option (CogIrTypeId × CogIrModule) :=
  if (module.getType resultType).isSome ∧ parameterTypes.all fun type => (module.getType type).isSome then
    module.internType (.function resultType parameterTypes abi callingConvention isVariadic)
  else
    none

def declareNominalType (kind : CogIrNominalKind) (debugName : String) : Option (CogIrTypeId × CogIrModule) :=
  if module.isFrozen then none else module.appendType (.nominal kind debugName .declared)

def replaceBody (id : CogIrTypeId) (kind : CogIrNominalKind) (debugName : String) (body : CogIrNominalBody) :
    CogIrModule :=
  { module with types := module.types.set id (.nominal kind debugName body) }

def markIncompleteAggregateType (id : CogIrTypeId) : Option CogIrModule :=
  match module.isFrozen, module.getType id with
  | false, some (.nominal .struct debugName .declared) => some (module.replaceBody id .struct debugName .incomplete)
  | false, some (.nominal .union debugName .declared) => some (module.replaceBody id .union debugName .incomplete)
  | _, _ => none

def defineAggregateType (id : CogIrTypeId) (fields : List CogIrAggregateField) (isReprC isPacked : Bool)
    (explicitAlignment : Nat) : Option CogIrModule :=
  let body := CogIrNominalBody.aggregate fields isReprC isPacked explicitAlignment
  let fieldsKnown := fields.all fun field => (module.getType field.type).isSome
  match module.isFrozen, module.getType id with
  | false, some (.nominal .struct debugName .declared) =>
    if fieldsKnown then some (module.replaceBody id .struct debugName body) else none
  | false, some (.nominal .union debugName .declared) =>
    if fieldsKnown then some (module.replaceBody id .union debugName body) else none
  | _, _ => none

def defineEnumType (abiTypeKnown : CogIrAbiTypeId → Bool) (id backingType : CogIrTypeId)
    (members : List CogIrEnumMember) (isReprC : Bool) (backingAbiType : Option CogIrAbiTypeId) :
    Option CogIrModule :=
  match module.isFrozen, module.getType id, module.getType backingType with
  | false, some (.nominal .enum debugName .declared), some (.integer ..) =>
    if isReprC ∧ !backingAbiType.any abiTypeKnown then
      none
    else
      some (module.replaceBody id .enum debugName (.enumeration backingType members isReprC backingAbiType))
  | _, _, _ => none

end Builders

end CogIrModule
end Coglet.Ir
