import Coglet.Types.Identity
import Coglet.Ir.TypeTable

namespace Coglet.Ir

open TypeObject

-- What the lowering of types reads from the result of the checker.
structure Frontend where
  pointerBits : Nat
  typeUsize   : Address × BuiltinKind
  formatName  : TypeObject → String
  isUsize     : TypeArena.fixedIntegerTypeForBits pointerBits false = some typeUsize

structure CogIrLowerContext where
  module  : CogIrModule
  typeMap : List (Address × CogIrTypeId)

def lowerFunctionAbi : FunctionAbi → CogIrAbiRepresentation
  | .coglet => .coglet
  | .c => .c

def lowerCallingConvention : CCallingConvention → CogIrCallingConvention
  | .default => .default
  | .cdecl => .cdecl
  | .stdcall => .stdcall
  | .sysv64 => .sysv64
  | .win64 => .win64

def CogIrModule.typeBuiltin (module : CogIrModule) : BuiltinKind → Option (CogIrTypeId × CogIrModule)
  | .void => module.typeVoid
  | .bool => module.typeBool
  | .s8 => module.typeInteger 8 true
  | .s16 => module.typeInteger 16 true
  | .s32 => module.typeInteger 32 true
  | .s64 => module.typeInteger 64 true
  | .u8 => module.typeInteger 8 false
  | .u16 => module.typeInteger 16 false
  | .u32 => module.typeInteger 32 false
  | .u64 => module.typeInteger 64 false
  | .f32 => module.typeFloat 32
  | .f64 => module.typeFloat 64
  -- These types belong to the checker only.
  | .untypedInt | .untypedFloat | .null => none

namespace CogIrLowerContext

def findType (ctx : CogIrLowerContext) (address : Address) : Option CogIrTypeId :=
  ctx.typeMap.lookup address

def rememberType (ctx : CogIrLowerContext) (address : Address) (id : CogIrTypeId) : Option CogIrLowerContext :=
  match ctx.findType address with
  | some existing => if existing = id then some ctx else none
  | none => some { ctx with typeMap := ctx.typeMap ++ [(address, id)] }

-- One call of a builder of the module.
def build (ctx : CogIrLowerContext) (builder : CogIrModule → Option (CogIrTypeId × CogIrModule)) :
    Option (CogIrTypeId × CogIrLowerContext) :=
  (builder ctx.module).map fun (id, module) => (id, { ctx with module })

-- The lookup in the type map that precedes the construction of a type, and the entry that follows it.
def remembering (address : Address) (construct : CogIrLowerContext → Option (CogIrTypeId × CogIrLowerContext))
    (ctx : CogIrLowerContext) : Option (CogIrTypeId × CogIrLowerContext) :=
  match ctx.findType address with
  | some existing => some (existing, ctx)
  | none => do
    let (result, ctx) ← construct ctx
    let ctx ← ctx.rememberType address result
    some (result, ctx)

end CogIrLowerContext

open CogIrLowerContext

def sliceFields (data length : CogIrTypeId) : List CogIrAggregateField :=
  [⟨"data", data, none⟩, ⟨"len", length, none⟩]

def lowerBuiltin (type : Address × BuiltinKind) : CogIrLowerContext → Option (CogIrTypeId × CogIrLowerContext) :=
  remembering type.1 fun ctx => ctx.build (·.typeBuiltin type.2)

-- A slice type becomes a new nominal struct of a pointer and a length.
def lowerSlice (frontend : Frontend) (type : TypeObject) (access : PointerAccess) (element : CogIrTypeId)
    (ctx : CogIrLowerContext) : Option (CogIrTypeId × CogIrLowerContext) := do
  let (data, ctx) ← ctx.build (·.typePointer element (access = .readonly) false)
  let (length, ctx) ← lowerBuiltin frontend.typeUsize ctx
  let (result, ctx) ← ctx.build (·.declareNominalType .struct (frontend.formatName type))
  let ctx ← ctx.rememberType type.address result
  let module ← ctx.module.defineAggregateType result (sliceFields data length) false false 0
  some (result, { ctx with module })

mutual

def cogIrLowerType (frontend : Frontend) : TypeObject → CogIrLowerContext → Option (CogIrTypeId × CogIrLowerContext)
  | .builtin l kind => lowerBuiltin (l, kind)
  | .pointer l access isVolatile element => remembering l fun ctx => do
    let (element, ctx) ← cogIrLowerType frontend element ctx
    ctx.build (·.typePointer element (access = .readonly) isVolatile)
  | .opaquePointer l access isVolatile => remembering l fun ctx =>
    ctx.build (·.typeOpaquePointer (access = .readonly) isVolatile)
  | .array l size element => remembering l fun ctx =>
    if size < 0 then
      none
    else do
      let (element, ctx) ← cogIrLowerType frontend element ctx
      ctx.build (·.typeArray element size.toNat)
  | .slice l access element => remembering l fun ctx => do
    let (elementType, ctx) ← cogIrLowerType frontend element ctx
    lowerSlice frontend (.slice l access element) access elementType ctx
  | .function l abi callConv isVariadic parameters returnType => remembering l fun ctx => do
    let (result, ctx) ← cogIrLowerType frontend returnType ctx
    let (parameters, ctx) ← cogIrLowerTypes frontend parameters ctx
    ctx.build (·.typeFunction result parameters (lowerFunctionAbi abi) (lowerCallingConvention callConv) isVariadic)
  -- Nominal types are found in the type map.
  | .struct l | .enum l | .named l _ _ _ => remembering l fun _ => none

def cogIrLowerTypes (frontend : Frontend) :
    List TypeObject → CogIrLowerContext → Option (List CogIrTypeId × CogIrLowerContext)
  | [], ctx => some ([], ctx)
  | type :: types, ctx => do
    let (id, ctx) ← cogIrLowerType frontend type ctx
    let (ids, ctx) ← cogIrLowerTypes frontend types ctx
    some (id :: ids, ctx)

end

def nominalKind (declaration : NominalDeclaration) : CogIrNominalKind :=
  match declaration.type with
  | .enum _ => .enum
  | _ => if declaration.isUnion then .union else .struct

def predeclareNominalTypes : List NominalDeclaration → CogIrLowerContext → Option CogIrLowerContext
  | [], ctx => some ctx
  | declaration :: declarations, ctx => do
    let (id, ctx) ← ctx.build (·.declareNominalType (nominalKind declaration) declaration.name)
    let ctx ← ctx.rememberType declaration.type.address id
    predeclareNominalTypes declarations ctx

def lowerContextInit : CogIrLowerContext where
  module  := { types := [], isFrozen := false }
  typeMap := []

end Coglet.Ir
