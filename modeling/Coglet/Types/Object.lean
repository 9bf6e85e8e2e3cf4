import Coglet.Types

namespace Coglet

-- The types without any fields.
inductive BuiltinKind
  | void | bool
  | s8 | s16 | s32 | s64
  | u8 | u16 | u32 | u64
  | f32 | f64
  | untypedInt | untypedFloat
  | null
deriving DecidableEq, Repr

namespace BuiltinKind

def toTy : BuiltinKind → Ty
  | void => .void | bool => .bool
  | s8 => .s8 | s16 => .s16 | s32 => .s32 | s64 => .s64
  | u8 => .u8 | u16 => .u16 | u32 => .u32 | u64 => .u64
  | f32 => .f32 | f64 => .f64
  | untypedInt => .untypedInt | untypedFloat => .untypedFloat
  | null => .null

@[simp]
theorem toTy_inj {k k' : BuiltinKind} : k.toTy = k'.toTy ↔ k = k' := by
  cases k <;> cases k' <;> simp [toTy]

end BuiltinKind

abbrev Address := Nat

-- A `Type` object together with all objects that it points to. Two objects can have the same
-- contents at different addresses. The declaration of a struct or an enum is its object.
inductive TypeObject
  | builtin (address : Address) (kind : BuiltinKind)
  | opaquePointer (address : Address) (access : PointerAccess) (isVolatile : Bool)
  | pointer (address : Address) (access : PointerAccess) (isVolatile : Bool) (element : TypeObject)
  | array (address : Address) (size : Int) (element : TypeObject)
  | slice (address : Address) (access : PointerAccess) (element : TypeObject)
  | struct (address : Address)
  | enum (address : Address)
  | function (address : Address) (abi : FunctionAbi) (callConv : CCallingConvention) (isVariadic : Bool)
      (parameters : List TypeObject) (returnType : TypeObject)
  -- A type name in the source that is not resolved yet.
  | named (address : Address) (module name : String) (typeArguments : List TypeObject)

namespace TypeObject

def address : TypeObject → Address
  | builtin a _ | opaquePointer a _ _ | pointer a _ _ _ | array a _ _ | slice a _ _ | struct a | enum a
  | function a _ _ _ _ _ | named a _ _ _ => a

-- The objects that an object points to.
def children : TypeObject → List TypeObject
  | builtin .. | opaquePointer .. | struct _ | enum _ => []
  | pointer _ _ _ e | array _ _ e | slice _ _ e => [e]
  | function _ _ _ _ ps r => r :: ps
  | named _ _ _ as => as

def isNamed : TypeObject → Bool
  | named .. => true
  | _ => false

def isSlice : TypeObject → Bool
  | slice .. => true
  | _ => false

def isNominal : TypeObject → Bool
  | struct _ | enum _ => true
  | _ => false

-- A value can have the type at run time, as far as the object itself decides that.
def isRuntime : TypeObject → Bool
  | builtin _ .untypedInt | builtin _ .untypedFloat | builtin _ .null | named .. => false
  | array _ size _ => 0 ≤ size
  | _ => true

inductive Runtime : TypeObject → Prop
  | intro {t : TypeObject} (head : t.isRuntime) (children : ∀ c ∈ t.children, Runtime c) : Runtime t

@[elab_as_elim]
theorem induct {P : TypeObject → Prop} (step : ∀ t, (∀ c ∈ t.children, P c) → P t) (t : TypeObject) : P t := by
  apply TypeObject.rec (motive_1 := P) (motive_2 := fun ts => ∀ t ∈ ts, P t)
  case nil => exact fun _ h => by cases h
  case cons =>
    intro t ts ht hts u hu
    cases hu
    case head => exact ht
    case tail hu => exact hts u hu
  case function =>
    intro _ _ _ _ _ _ hp hr
    exact step _ (List.forall_mem_cons.mpr ⟨hr, hp⟩)
  case named => exact fun _ _ _ _ h => step _ h
  all_goals
    intros
    exact step _ (by simp_all [children])

mutual

-- Every case starts with the comparison of the addresses. Structs and enums are nominal, so for them
-- nothing else is compared.
def typeEqual : TypeObject → TypeObject → Bool
  | builtin l k, builtin l' k' => l = l' || k = k'
  | opaquePointer l a v, opaquePointer l' a' v' => l = l' || a = a' && v = v'
  | pointer l a v e, pointer l' a' v' e' => l = l' || a = a' && v = v' && typeEqual e e'
  | array l n e, array l' n' e' => l = l' || n = n' && typeEqual e e'
  | slice l a e, slice l' a' e' => l = l' || a = a' && typeEqual e e'
  | function l abi c v ps r, function l' abi' c' v' ps' r' =>
    l = l' || abi = abi' && c = c' && v = v' && typesEqual ps ps' && typeEqual r r'
  | named l m n as, named l' m' n' as' => l = l' || m = m' && n = n' && typesEqual as as'
  | t, t' => t.address = t'.address

-- The comparison of two lists of types checks that their lengths are equal.
def typesEqual : List TypeObject → List TypeObject → Bool
  | [], [] => true
  | t :: ts, t' :: ts' => typeEqual t t' && typesEqual ts ts'
  | _, _ => false

end

mutual

-- The type that an object stands for. Type names do not stand for a type before they are resolved.
def toTy : TypeObject → Option Ty
  | builtin _ k => some k.toTy
  | opaquePointer _ a v => some (.opaquePointer a v)
  | pointer _ a v e => (toTy e).map (.pointer a v)
  | array _ n e => (toTy e).map (.array n)
  | slice _ a e => (toTy e).map (.slice a)
  | struct a => some (.struct a)
  | enum a => some (.enum a)
  | function _ abi c v ps r =>
    match toTys ps, toTy r with
    | some ps, some r => some (.function abi c v ps r)
    | _, _ => none
  | named .. => none

def toTys : List TypeObject → Option (List Ty)
  | [] => some []
  | t :: ts =>
    match toTy t, toTys ts with
    | some t, some ts => some (t :: ts)
    | _, _ => none

end

theorem typeEqual_of_address_eq {t u : TypeObject} (h : t.address = u.address) : t.typeEqual u := by
  cases t <;> cases u <;> simp_all [typeEqual, address]

theorem typeEqual_refl (t : TypeObject) : t.typeEqual t :=
  typeEqual_of_address_eq rfl

theorem typesEqual_refl (ts : List TypeObject) : typesEqual ts ts := by
  induction ts
  case nil => rw [typesEqual]
  case cons t ts hi => simp [typesEqual, typeEqual_refl, hi]

theorem typesEqual_comm {ts us : List TypeObject} (h : ∀ t ∈ ts, ∀ u, t.typeEqual u = u.typeEqual t) :
    typesEqual ts us = typesEqual us ts := by
  induction ts generalizing us <;> cases us <;> simp [typesEqual]
  case cons.cons t ts hi u us =>
    have ⟨ht, hts⟩ := List.forall_mem_cons.mp h
    rw [ht, hi hts]

theorem decide_eq_comm {α : Type} [DecidableEq α] (a b : α) : decide (a = b) = decide (b = a) :=
  decide_eq_decide.mpr eq_comm

theorem typeEqual_comm (t u : TypeObject) : t.typeEqual u = u.typeEqual t := by
  induction t using induct generalizing u
  case step t hi =>
    cases t <;> cases u <;> simp only [typeEqual, address]
    case builtin.builtin l k l' k' => rw [decide_eq_comm l, decide_eq_comm k]
    case opaquePointer.opaquePointer l a v l' a' v' => rw [decide_eq_comm l, decide_eq_comm a, decide_eq_comm v]
    case pointer.pointer l a v e l' a' v' e' =>
      rw [decide_eq_comm l, decide_eq_comm a, decide_eq_comm v, hi e (by simp [children]) e']
    case array.array l n e l' n' e' => rw [decide_eq_comm l, decide_eq_comm n, hi e (by simp [children]) e']
    case slice.slice l a e l' a' e' => rw [decide_eq_comm l, decide_eq_comm a, hi e (by simp [children]) e']
    case function.function l abi c v ps r l' abi' c' v' ps' r' =>
      have hp : typesEqual ps ps' = typesEqual ps' ps :=
        typesEqual_comm fun p hp => hi p (by simp [children, hp])
      rw [decide_eq_comm l, decide_eq_comm abi, decide_eq_comm c, decide_eq_comm v, hp, hi r (by simp [children]) r']
    case named.named l m n as l' m' n' as' =>
      have ha : typesEqual as as' = typesEqual as' as := typesEqual_comm hi
      rw [decide_eq_comm l, decide_eq_comm m, decide_eq_comm n, ha]
    all_goals exact decide_eq_comm _ _

section Meaning

variable {t u : TypeObject} {T : Ty}

theorem toTys_cons {ts : List TypeObject} {Ts : List Ty} :
    toTys (t :: ts) = some Ts ↔ ∃ T Ts', t.toTy = some T ∧ toTys ts = some Ts' ∧ Ts = T :: Ts' := by
  rw [toTys]
  cases t.toTy <;> cases toTys ts <;> simp [eq_comm]

theorem toTy_function {l abi c v ps r} :
    (function l abi c v ps r).toTy = some T ↔
      ∃ Ts R, toTys ps = some Ts ∧ r.toTy = some R ∧ T = .function abi c v Ts R := by
  rw [toTy]
  cases toTys ps <;> cases r.toTy <;> simp [eq_comm]

-- The shape of an object is determined by the type that it stands for.
theorem shape_of_toTy (h : u.toTy = some T) :
    match T with
    | .opaquePointer a v => ∃ l, u = opaquePointer l a v
    | .pointer a v E => ∃ l e, u = pointer l a v e ∧ e.toTy = some E
    | .array n E => ∃ l e, u = array l n e ∧ e.toTy = some E
    | .slice a E => ∃ l e, u = slice l a e ∧ e.toTy = some E
    | .struct l => u = struct l
    | .enum l => u = enum l
    | .function abi c v Ts R =>
      ∃ l ps r, u = function l abi c v ps r ∧ toTys ps = some Ts ∧ r.toTy = some R
    | _ => ∃ l k, u = builtin l k ∧ k.toTy = T := by
  cases u
  case builtin l k =>
    cases h
    cases k <;> exact ⟨l, _, rfl, rfl⟩
  case function =>
    obtain ⟨Ts, R, hp, hr, rfl⟩ := toTy_function.mp h
    exact ⟨_, _, _, rfl, hp, hr⟩
  case pointer | array | slice =>
    obtain ⟨E, he, rfl⟩ := Option.map_eq_some_iff.mp h
    exact ⟨_, _, rfl, he⟩
  case opaquePointer =>
    cases h
    exact ⟨_, rfl⟩
  case struct | enum =>
    cases h
    rfl
  case named => cases h

theorem builtin_of_toTy {k : BuiltinKind} (h : u.toTy = some k.toTy) : ∃ l, u = builtin l k := by
  have hs := shape_of_toTy h
  cases k
  all_goals
    obtain ⟨l, k, rfl, hk⟩ := hs
    exact ⟨l, congrArg _ (BuiltinKind.toTy_inj.mp hk)⟩

theorem typesEqual_of_toTys {ts us : List TypeObject} {Ts : List Ty}
    (h : ∀ t ∈ ts, ∀ u T, t.toTy = some T → u.toTy = some T → t.typeEqual u)
    (ht : toTys ts = some Ts) (hu : toTys us = some Ts) : typesEqual ts us := by
  induction ts generalizing us Ts
  case nil =>
    cases us
    case nil => rfl
    case cons =>
      obtain ⟨_, _, _, _, rfl⟩ := toTys_cons.mp hu
      cases ht
  case cons t ts hi =>
    obtain ⟨T, Ts, hT, hTs, rfl⟩ := toTys_cons.mp ht
    have ⟨h, hs⟩ := List.forall_mem_cons.mp h
    cases us
    case nil => cases hu
    case cons u us =>
      obtain ⟨_, _, hU, hUs, he⟩ := toTys_cons.mp hu
      cases he
      simp [typesEqual, h u T hT hU, hi hs hTs hUs]

theorem typeEqual_of_toTy (ht : t.toTy = some T) (hu : u.toTy = some T) : t.typeEqual u := by
  induction t using induct generalizing u T
  case step t hi =>
    cases t
    case builtin k =>
      cases ht
      obtain ⟨_, rfl⟩ := builtin_of_toTy hu
      simp [typeEqual]
    case opaquePointer =>
      cases ht
      obtain ⟨_, rfl⟩ := shape_of_toTy hu
      simp [typeEqual]
    case pointer e =>
      obtain ⟨E, he, rfl⟩ := Option.map_eq_some_iff.mp ht
      obtain ⟨_, e', rfl, he'⟩ := shape_of_toTy hu
      simp [typeEqual, hi e (by simp [children]) he he']
    case array e =>
      obtain ⟨E, he, rfl⟩ := Option.map_eq_some_iff.mp ht
      obtain ⟨_, e', rfl, he'⟩ := shape_of_toTy hu
      simp [typeEqual, hi e (by simp [children]) he he']
    case slice e =>
      obtain ⟨E, he, rfl⟩ := Option.map_eq_some_iff.mp ht
      obtain ⟨_, e', rfl, he'⟩ := shape_of_toTy hu
      simp [typeEqual, hi e (by simp [children]) he he']
    case struct | enum =>
      cases ht
      cases shape_of_toTy hu
      simp [typeEqual_refl]
    case function ps r =>
      obtain ⟨Ts, R, hp, hr, rfl⟩ := toTy_function.mp ht
      obtain ⟨_, ps', r', rfl, hp', hr'⟩ := shape_of_toTy hu
      have he := typesEqual_of_toTys (fun c hc u T => hi c (by simp [children, hc])) hp hp'
      simp [typeEqual, he, hi r (by simp [children]) hr hr']
    case named => cases ht

end Meaning

end TypeObject
end Coglet
