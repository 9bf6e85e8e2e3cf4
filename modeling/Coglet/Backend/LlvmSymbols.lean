import Coglet.Lib.SymbolTable
import Mathlib.Data.List.Perm.Subperm
import Mathlib.Data.List.Range

open SymbolTable

-- The names of functions and globals in the module that the LLVM backend builds.

namespace Coglet.Backend.Llvm

abbrev Name := List Char

inductive FunctionAbi
  | coglet | c
deriving DecidableEq

inductive Linkage
  | internal
  | external
deriving DecidableEq

-- A declaration that the checker has accepted. The external name is empty when none is given.
structure FuncDecl where
  name         : Name
  isExternC    : Bool
  isReprC      : Bool
  externalName : Name
  named        : name ≠ []

structure IrFunction where
  abi            : FunctionAbi
  linkage        : Linkage
  externalSymbol : Name

-- The external symbol that `declare_function_signature` records.
def FuncDecl.externalSymbol (decl : FuncDecl) : Name :=
  if decl.isExternC then
    if decl.externalName = [] then decl.name else decl.externalName
  else
    []

def lowerFunctionDeclaration (decl : FuncDecl) : IrFunction :=
  if decl.isExternC || decl.isReprC then
    ⟨.c, if decl.isExternC then .external else .internal, decl.externalSymbol⟩
  else
    ⟨.coglet, .internal, []⟩

-- The names of the intrinsics are those that the lowering of the bodies asks for.
structure Program where
  decls       : List FuncDecl
  globalCount : Nat
  hasInit     : Bool
  hasEntry    : Bool
  intrinsics  : List Name
  reserved    : ∀ name ∈ intrinsics, ['l', 'l', 'v', 'm', '.'] <+: name

def globalName (i : Nat) : Name :=
  ['c', 'o', 'g', '.', 'g', 'l', 'o', 'b', 'a', 'l', '.'] ++ Nat.toDigits 10 i

def functionName (i : Nat) : Name :=
  ['c', 'o', 'g', '.', 'f', 'n', '.'] ++ Nat.toDigits 10 i

def mainName : Name :=
  ['m', 'a', 'i', 'n']

namespace IrFunction

def isExternal (f : IrFunction) : Bool :=
  f.abi = .c && f.linkage = .external && f.externalSymbol.length ≠ 0

-- The name under which `declare_functions` adds a function.
def requestedName (f : IrFunction) (i : Nat) : Name :=
  if f.isExternal then f.externalSymbol else functionName i

end IrFunction

-- The symbols of the module and the positions of what was added or looked up.
structure Emitted where
  symbols    : List Name
  globals    : List Nat
  functions  : List Nat
  intrinsics : List Nat
  main       : List Nat

namespace Program

variable (r : Renaming Name) (p : Program)

-- The module initializer is a function that the compiler generates.
def functions : List IrFunction :=
  p.decls.map lowerFunctionDeclaration ++ if p.hasInit then [⟨.coglet, .internal, []⟩] else []

def globalNames : List Name :=
  (List.range p.globalCount).map globalName

def functionNames : List Name :=
  p.functions.zipIdx.map fun (f, i) => f.requestedName i

def entryNames : List Name :=
  if p.hasEntry then [mainName] else []

-- The steps of `lower_verified_module` that name something, in their order.
def emit : Emitted :=
  let globals := addEach r [] p.globalNames
  let functions := addEach r globals.1 p.functionNames
  let intrinsics := getEach functions.1 p.intrinsics
  let main := addEach r intrinsics.1 p.entryNames
  ⟨main.1, globals.2, functions.2, intrinsics.2, main.2⟩

-- The symbols after the functions are declared, and after their bodies are lowered
def declaredSymbols : List Name :=
  (addEach r (addEach r [] p.globalNames).1 p.functionNames).1

def extendedSymbols : List Name :=
  (getEach (p.declaredSymbols r) p.intrinsics).1

-- Every external function keeps its symbol, functions with one symbol are one function, and what the backend generates
-- keeps its name as well.
structure BindsFaithfully (e : Emitted) : Prop where
  exact          : ∀ (i : Nat) (f : IrFunction), p.functions[i]? = some f → f.isExternal →
    ∃ v : Nat, e.functions[i]? = some v ∧ e.symbols[v]? = some f.externalSymbol
  shared         : ∀ (i j : Nat) (f g : IrFunction), p.functions[i]? = some f → p.functions[j]? = some g →
    f.isExternal → g.isExternal → f.externalSymbol = g.externalSymbol → e.functions[i]? = e.functions[j]?
  keepsGlobals   : ∀ i v : Nat, e.globals[i]? = some v → e.symbols[v]? = some (globalName i)
  keepsFunctions : ∀ (i v : Nat) (f : IrFunction), p.functions[i]? = some f → f.isExternal = false →
    e.functions[i]? = some v → e.symbols[v]? = some (functionName i)
  keepsMain      : ∀ v ∈ e.main, e.symbols[v]? = some mainName
  ownIntrinsics  : ∀ (i v : Nat) (f : IrFunction), p.functions[i]? = some f → f.isExternal →
    e.functions[i]? = some v → v ∉ e.intrinsics

def externalSymbols : List Name :=
  (p.decls.filter (·.isExternC)).map (·.externalSymbol)

def internalNames : List Name :=
  (p.functions.zipIdx.filter (!·.1.isExternal)).map (functionName ·.2)

def generatedNames : List Name :=
  p.globalNames ++ p.internalNames ++ p.entryNames

structure DistinctSymbols : Prop where
  nodup     : p.externalSymbols.Nodup
  generated : ∀ name ∈ p.externalSymbols, name ∉ p.generatedNames
  intrinsic : ∀ name ∈ p.externalSymbols, name ∉ p.intrinsics

section Names

variable {p}

theorem toDigits_injective : Function.Injective (Nat.toDigits 10) := by
  intro i j h
  rw [← Nat.ofDigitChars_ten_toDigits (n := i), h, Nat.ofDigitChars_ten_toDigits]

theorem globalName_injective : Function.Injective globalName :=
  fun _ _ h => toDigits_injective (List.append_cancel_left h)

theorem functionName_injective : Function.Injective functionName :=
  fun _ _ h => toDigits_injective (List.append_cancel_left h)

theorem globalName_ne_functionName (i j : Nat) : globalName i ≠ functionName j := by
  intro h
  have := congrArg (·[4]?) h
  simp [globalName, functionName] at this

theorem globalName_ne_mainName (i : Nat) : globalName i ≠ mainName := by
  intro h
  have := congrArg (·[0]?) h
  simp [globalName, mainName] at this

theorem functionName_ne_mainName (i : Nat) : functionName i ≠ mainName := by
  intro h
  have := congrArg (·[0]?) h
  simp [functionName, mainName] at this

theorem mem_entryNames {name : Name} : name ∈ p.entryNames ↔ p.hasEntry ∧ name = mainName := by
  cases h : p.hasEntry <;> simp [entryNames, h]

theorem mainName_notMem_intrinsics : mainName ∉ p.intrinsics := by
  intro h
  have := p.reserved _ h
  simp [mainName] at this

theorem externalSymbol_ne_nil {decl : FuncDecl} (h : decl.isExternC) : decl.externalSymbol ≠ [] := by
  rw [FuncDecl.externalSymbol, if_pos h]
  split
  case isTrue => exact decl.named
  case isFalse hn => exact hn

theorem isExternal_lowerFunctionDeclaration (decl : FuncDecl) :
    (lowerFunctionDeclaration decl).isExternal = decl.isExternC := by
  cases h : decl.isExternC
  case false =>
    cases hr : decl.isReprC <;> simp [lowerFunctionDeclaration, IrFunction.isExternal, h, hr]
  case true =>
    simp [lowerFunctionDeclaration, IrFunction.isExternal, h, externalSymbol_ne_nil h]

theorem externalSymbol_lowerFunctionDeclaration {decl : FuncDecl} (h : decl.isExternC) :
    (lowerFunctionDeclaration decl).externalSymbol = decl.externalSymbol := by
  simp [lowerFunctionDeclaration, h]

variable (p)

theorem externalSymbols_eq :
    (p.functions.filter (·.isExternal)).map (·.externalSymbol) = p.externalSymbols := by
  have hi : (if p.hasInit then [(⟨.coglet, .internal, []⟩ : IrFunction)] else []).filter (·.isExternal) = [] := by
    cases p.hasInit <;> rfl
  rw [functions, List.filter_append, hi, List.append_nil, List.filter_map, List.map_map, externalSymbols]
  simp only [Function.comp_def, isExternal_lowerFunctionDeclaration]
  apply List.map_congr_left
  intro decl h
  exact externalSymbol_lowerFunctionDeclaration (List.mem_filter.mp h).right

theorem functionNames_perm : (p.externalSymbols ++ p.internalNames).Perm p.functionNames := by
  have hx : (p.functions.zipIdx.filter (·.1.isExternal)).map (fun (f, i) => f.requestedName i) = p.externalSymbols := by
    rw [← externalSymbols_eq, ← List.zipIdx_map_fst 0 p.functions, List.filter_map, List.map_map,
      List.zipIdx_map_fst]
    apply List.map_congr_left
    intro x h
    exact if_pos (List.mem_filter.mp h).right
  have hn : (p.functions.zipIdx.filter (!·.1.isExternal)).map (fun (f, i) => f.requestedName i) = p.internalNames := by
    apply List.map_congr_left
    intro x h
    have := (List.mem_filter.mp h).right
    simp only [Bool.not_eq_true'] at this
    simp [IrFunction.requestedName, this]
  rw [← hx, ← hn, ← List.map_append]
  exact (List.filter_append_perm _ _).map _

theorem entryNames_nodup : p.entryNames.Nodup := by
  rw [entryNames]
  split <;> simp

theorem internalNames_nodup : p.internalNames.Nodup := by
  have h : (p.functions.zipIdx.map Prod.snd).Nodup := by
    rw [List.zipIdx_map_snd]
    exact List.nodup_range'
  have hs := (List.filter_sublist (p := (!·.1.isExternal)) (l := p.functions.zipIdx)).map Prod.snd
  have := (h.sublist hs).map functionName_injective
  rwa [List.map_map] at this

theorem generatedNames_nodup : p.generatedNames.Nodup := by
  have hg : p.globalNames.Nodup := List.nodup_range.map globalName_injective
  rw [generatedNames, List.nodup_append, List.nodup_append]
  refine ⟨⟨hg, p.internalNames_nodup, ?_⟩, p.entryNames_nodup, ?_⟩
  · intro a ha b hb
    obtain ⟨i, -, rfl⟩ := List.mem_map.mp ha
    obtain ⟨x, -, rfl⟩ := List.mem_map.mp hb
    exact globalName_ne_functionName i x.2
  · intro a ha b hb
    rw [mem_entryNames] at hb
    rcases List.mem_append.mp ha with ha | ha
    · obtain ⟨i, -, rfl⟩ := List.mem_map.mp ha
      exact hb.right ▸ globalName_ne_mainName i
    · obtain ⟨x, -, rfl⟩ := List.mem_map.mp ha
      exact hb.right ▸ functionName_ne_mainName x.2

-- The names that are asked for are the external symbols and the names that the backend generates.
theorem requested_perm :
    (p.externalSymbols ++ p.generatedNames).Perm (p.globalNames ++ p.functionNames ++ p.entryNames) := by
  have h : (p.externalSymbols ++ (p.globalNames ++ (p.internalNames ++ p.entryNames))).Perm
      (p.globalNames ++ (p.externalSymbols ++ (p.internalNames ++ p.entryNames))) :=
    List.perm_append_comm_assoc _ _ _
  rw [generatedNames, List.append_assoc]
  refine h.trans ?_
  rw [← List.append_assoc p.externalSymbols, ← List.append_assoc p.globalNames]
  exact (p.functionNames_perm.append_left _).append_right _

theorem distinctSymbols_iff :
    p.DistinctSymbols ↔
    (p.globalNames ++ p.functionNames ++ p.entryNames).Nodup ∧ ∀ name ∈ p.externalSymbols, name ∉ p.intrinsics := by
  rw [← p.requested_perm.nodup_iff, List.nodup_append]
  constructor
  case mp =>
    intro h
    refine ⟨⟨h.nodup, p.generatedNames_nodup, ?_⟩, h.intrinsic⟩
    rintro a ha _ hb rfl
    exact h.generated _ ha hb
  case mpr =>
    rintro ⟨⟨hx, -, hd⟩, hi⟩
    exact ⟨hx, fun name hn hg => hd name hn name hg rfl, hi⟩

end Names

section Emit

variable {r : Renaming Name} {p : Program}

theorem emit_globals : (p.emit r).globals = List.range' 0 p.globalCount := by
  change (addEach r [] p.globalNames).2 = _
  rw [addEach_positions, globalNames, List.length_map, List.length_range]
  rfl

theorem emit_functions : (p.emit r).functions = List.range' p.globalCount p.functions.length := by
  change (addEach r (addEach r [] p.globalNames).1 p.functionNames).2 = _
  rw [addEach_positions, addEach_length]
  simp [globalNames, functionNames]

theorem emit_main : (p.emit r).main = List.range' (p.extendedSymbols r).length p.entryNames.length :=
  addEach_positions

theorem emit_starts : p.declaredSymbols r <+: (p.emit r).symbols :=
  getEach_starts.trans addEach_starts

theorem declaredSymbols_length : (p.declaredSymbols r).length = (p.globalNames ++ p.functionNames).length := by
  rw [declaredSymbols, addEach_length, addEach_length]
  simp

theorem declaredSymbols_nodup : (p.declaredSymbols r).Nodup :=
  addEach_nodup (addEach_nodup List.nodup_nil)

theorem emit_nodup : (p.emit r).symbols.Nodup :=
  addEach_nodup (getEach_nodup declaredSymbols_nodup)

theorem emit_functions_get {f : IrFunction} (h : p.functions[i]? = some f) :
    (p.emit r).functions[i]? = some (p.globalCount + i) := by
  have hl := (List.getElem?_eq_some_iff.mp h).fst
  rw [emit_functions, List.getElem?_range' hl, Nat.one_mul]

theorem emit_symbols_get (h : i < (p.globalNames ++ p.functionNames).length) :
    (p.emit r).symbols[i]? = (p.declaredSymbols r)[i]? := by
  have ⟨_, hs⟩ := p.emit_starts (r := r)
  rw [← hs, List.getElem?_append_left (declaredSymbols_length ▸ h)]

theorem functionNames_get {f : IrFunction} (h : p.functions[i]? = some f) :
    (p.globalNames ++ p.functionNames)[p.globalCount + i]? = some (f.requestedName i) := by
  rw [List.getElem?_append_right (by simp [globalNames])]
  simp [globalNames, functionNames, List.getElem?_zipIdx, h]

theorem globalNames_get (h : i < p.globalCount) :
    (p.globalNames ++ p.functionNames)[i]? = some (globalName i) := by
  rw [List.getElem?_append_left (by simpa [globalNames] using h)]
  simp [globalNames, h]

theorem functions_inBounds {f : IrFunction} (h : p.functions[i]? = some f) :
    p.globalCount + i < (p.globalNames ++ p.functionNames).length := by
  have := (List.getElem?_eq_some_iff.mp h).fst
  simp only [globalNames, functionNames, List.length_append, List.length_map, List.length_range, List.length_zipIdx]
  omega

theorem entryNames_get (h : i < p.entryNames.length) : p.entryNames[i]? = some mainName := by
  rw [List.getElem?_eq_getElem h, (p.mem_entryNames.mp (List.getElem_mem h)).right]

theorem emit_main_get (h : p.BindsFaithfully (p.emit r)) (he : p.hasEntry) :
    (p.emit r).symbols[(p.extendedSymbols r).length]? = some mainName := by
  apply h.keepsMain
  rw [emit_main, List.mem_range'_1]
  simp [entryNames, he]

-- What is bound faithfully kept its name, position by position.
theorem BindsFaithfully.declaredSymbols_eq (h : p.BindsFaithfully (p.emit r)) :
    p.declaredSymbols r = p.globalNames ++ p.functionNames := by
  apply List.ext_getElem?
  intro k
  by_cases hk : k < (p.globalNames ++ p.functionNames).length
  case neg =>
    rw [List.getElem?_eq_none (Nat.le_of_not_lt hk), List.getElem?_eq_none (declaredSymbols_length ▸ Nat.le_of_not_lt hk)]
  case pos =>
    rw [← emit_symbols_get hk]
    by_cases hg : k < p.globalCount
    case pos =>
      rw [globalNames_get hg]
      apply h.keepsGlobals
      rw [emit_globals, List.getElem?_range' hg]
      simp
    case neg =>
      obtain ⟨i, rfl⟩ := Nat.exists_eq_add_of_le (Nat.le_of_not_lt hg)
      have hi : i < p.functions.length := by simpa [globalNames, functionNames] using hk
      have hf := List.getElem?_eq_getElem hi
      rw [functionNames_get hf]
      cases he : p.functions[i].isExternal
      case true =>
        obtain ⟨v, hv, hs⟩ := h.exact i _ hf he
        cases hv.symm.trans (emit_functions_get hf)
        rw [hs, IrFunction.requestedName, if_pos he]
      case false =>
        rw [h.keepsFunctions i _ _ hf he (emit_functions_get hf), IrFunction.requestedName, he]
        rfl

theorem declaredSymbols_length_le : (p.declaredSymbols r).length ≤ (p.extendedSymbols r).length :=
  getEach_starts.length_le

theorem mem_externalSymbols {name : Name} :
    name ∈ p.externalSymbols ↔ ∃ (i : Nat) (f : IrFunction),
      p.functions[i]? = some f ∧ f.isExternal ∧ f.externalSymbol = name := by
  rw [← externalSymbols_eq, List.mem_map]
  constructor
  case mp =>
    rintro ⟨f, hf, rfl⟩
    have ⟨hm, he⟩ := List.mem_filter.mp hf
    obtain ⟨i, hi⟩ := List.getElem?_of_mem hm
    exact ⟨i, f, hi, he, rfl⟩
  case mpr =>
    rintro ⟨i, f, hf, he, rfl⟩
    exact ⟨f, List.mem_filter.mpr ⟨List.mem_of_getElem? hf, he⟩, rfl⟩

-- An external function is the function of an intrinsic exactly when its symbol is looked up.
theorem mem_emit_intrinsics_iff {f : IrFunction} (hd : p.declaredSymbols r = p.globalNames ++ p.functionNames)
    (hf : p.functions[i]? = some f) (he : f.isExternal) :
    p.globalCount + i ∈ (p.emit r).intrinsics ↔ f.externalSymbol ∈ p.intrinsics := by
  apply mem_positions_iff declaredSymbols_nodup
  rw [hd, functionNames_get hf, IrFunction.requestedName, if_pos he]

theorem BindsFaithfully.distinctSymbols (h : p.BindsFaithfully (p.emit r)) : p.DistinctSymbols := by
  have hd := h.declaredSymbols_eq
  have hn := hd ▸ p.declaredSymbols_nodup (r := r)
  refine p.distinctSymbols_iff.mpr ⟨List.nodup_append.mpr ⟨hn, p.entryNames_nodup, ?_⟩, ?_⟩
  · rintro name ha _ hb rfl
    have ⟨he, hm⟩ := p.mem_entryNames.mp hb
    obtain ⟨k, hk, hg⟩ := List.getElem_of_mem ha
    have hs : (p.emit r).symbols[k]? = some name := by
      rw [emit_symbols_get hk, hd, List.getElem?_eq_getElem hk, hg]
    have hl := (List.getElem?_eq_some_iff.mp hs).fst
    have := (List.getElem?_inj hl p.emit_nodup).mp (hs.trans (hm ▸ emit_main_get h he).symm)
    have := p.declaredSymbols_length (r := r)
    have := p.declaredSymbols_length_le (r := r)
    omega
  · intro name hx
    obtain ⟨i, f, hf, he, rfl⟩ := mem_externalSymbols.mp hx
    rw [← mem_emit_intrinsics_iff hd hf he]
    exact h.ownIntrinsics i _ f hf he (emit_functions_get hf)

theorem DistinctSymbols.declaredSymbols_eq (h : p.DistinctSymbols) :
    p.declaredSymbols r = p.globalNames ++ p.functionNames := by
  have hn := (List.nodup_append.mp (p.distinctSymbols_iff.mp h).left).left
  have hg : (addEach r [] p.globalNames).1 = p.globalNames := addEach_eq (List.nodup_append.mp hn).left
  rw [declaredSymbols, hg, addEach_eq hn]

theorem DistinctSymbols.symbols_get {f : IrFunction} (h : p.DistinctSymbols) (hf : p.functions[i]? = some f) :
    (p.emit r).symbols[p.globalCount + i]? = some (f.requestedName i) := by
  rw [emit_symbols_get (functions_inBounds hf), h.declaredSymbols_eq, functionNames_get hf]

theorem DistinctSymbols.symbols_eq (h : p.DistinctSymbols) :
    (p.emit r).symbols = p.extendedSymbols r ++ p.entryNames := by
  apply addEach_eq
  have hn := (List.nodup_append.mp (p.distinctSymbols_iff.mp h).left).right
  refine List.nodup_append.mpr ⟨getEach_nodup declaredSymbols_nodup, p.entryNames_nodup, ?_⟩
  rintro name ha _ hb rfl
  rcases mem_getEach.mp ha with ha | ha
  · exact hn.right name (h.declaredSymbols_eq (r := r) ▸ ha) name hb rfl
  · cases (p.mem_entryNames.mp hb).right
    exact p.mainName_notMem_intrinsics ha

theorem DistinctSymbols.bindsFaithfully (h : p.DistinctSymbols) : p.BindsFaithfully (p.emit r) where
  exact i f hf he := by
    refine ⟨_, emit_functions_get hf, ?_⟩
    rw [h.symbols_get hf, IrFunction.requestedName, if_pos he]
  shared i j f g hf hg he he' hs := by
    have hi : (p.emit r).symbols[p.globalCount + i]? = (p.emit r).symbols[p.globalCount + j]? := by
      rw [h.symbols_get hf, h.symbols_get hg, IrFunction.requestedName, IrFunction.requestedName, if_pos he,
        if_pos he', hs]
    have hl := (List.getElem?_eq_some_iff.mp (h.symbols_get (r := r) hf)).fst
    have := (List.getElem?_inj hl p.emit_nodup).mp hi
    rw [emit_functions_get hf, emit_functions_get hg, this]
  keepsGlobals i v hv := by
    rw [emit_globals] at hv
    have hl := (List.getElem?_eq_some_iff.mp hv).fst
    rw [List.length_range'] at hl
    rw [List.getElem?_range' hl] at hv
    cases hv
    rw [Nat.zero_add, Nat.one_mul, emit_symbols_get, h.declaredSymbols_eq, globalNames_get hl]
    simp [globalNames]
    omega
  keepsFunctions i v f hf he hv := by
    cases hv.symm.trans (emit_functions_get hf)
    rw [h.symbols_get hf, IrFunction.requestedName, he]
    rfl
  keepsMain v hv := by
    rw [emit_main, List.mem_range'_1] at hv
    rw [h.symbols_eq, List.getElem?_append_right hv.left]
    exact entryNames_get (by omega)
  ownIntrinsics i v f hf he hv := by
    cases hv.symm.trans (emit_functions_get hf)
    rw [mem_emit_intrinsics_iff h.declaredSymbols_eq hf he]
    exact h.intrinsic _ (mem_externalSymbols.mpr ⟨i, f, hf, he, rfl⟩)

end Emit

-- The external symbols are bound faithfully exactly when they are distinct.
theorem bindsFaithfully_iff (r : Renaming Name) (p : Program) :
    p.BindsFaithfully (p.emit r) ↔ p.DistinctSymbols :=
  ⟨BindsFaithfully.distinctSymbols, DistinctSymbols.bindsFaithfully⟩

def numberedName (name : Name) (k : Nat) : Name :=
  name ++ '.' :: Nat.toDigits 10 k

theorem exists_numberedName (table : List Name) (name : Name) :
    ∃ k ∈ List.range (table.length + 1), numberedName name k ∉ table := by
  by_contra h
  push Not at h
  have hi : Function.Injective (numberedName name) := by
    intro i j h
    exact toDigits_injective (List.cons_inj_right _ |>.mp (List.append_cancel_left h))
  have hs : (List.range (table.length + 1)).map (numberedName name) ⊆ table := by
    intro x hx
    obtain ⟨k, hk, rfl⟩ := List.mem_map.mp hx
    exact h k hk
  have := (List.subperm_of_subset (List.nodup_range.map hi) hs).length_le
  rw [List.length_map, List.length_range] at this
  omega

-- A number is appended to a name that is taken.
def numbered : Renaming Name where
  rename table name :=
    match (List.range (table.length + 1)).find? (numberedName name · ∉ table) with
    | some k => numberedName name k
    | none => name
  fresh table name := by
    split
    case h_1 h => simpa using List.find?_some h
    case h_2 h =>
      obtain ⟨k, hk, hn⟩ := exists_numberedName table name
      simpa [hn] using List.find?_eq_none.mp h k hk

-- Two modules declare `puts`.
def putsTwice : Program where
  decls       := List.replicate 2 ⟨['p', 'u', 't', 's'], true, false, [], List.cons_ne_nil _ _⟩
  globalCount := 0
  hasInit     := false
  hasEntry    := true
  intrinsics  := []
  reserved    := nofun

theorem not_bindsFaithfully_putsTwice : ¬ putsTwice.BindsFaithfully (putsTwice.emit numbered) :=
  fun h => absurd h.distinctSymbols.nodup (by decide)

end Program

end Coglet.Backend.Llvm
