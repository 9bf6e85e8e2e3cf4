import Coglet.Driver.ModuleSources
import Coglet.Lib.Worklist
import Mathlib.Data.List.Perm.Subperm

namespace Coglet.Driver

structure FileIdentity where
  deviceId : Nat
  inodeId  : Nat
deriving DecidableEq

inductive Statement
  | moduleDecl (name : Path)
  | importDecl (name : Path)
  | other

structure ParsedFile where
  statements : List Statement
  hadError   : Bool

-- What `stat` and `read_file` return for a path. There are finitely many files, but they can have any number of paths.
structure FileSystem extends FileTree where
  identity   : Path → Option FileIdentity
  read       : Path → Option ParsedFile
  identities : List FileIdentity
  finite     : ∀ {path id}, identity path = some id → id ∈ identities
  regular    : ∀ {path}, isRegular path → ∃ id, identity path = some id

structure CompileInputFile where
  filename   : Path
  statements : List Statement
  identity   : Option FileIdentity

namespace CompileInputFile

-- A file without a module declaration has the empty name.
def moduleName (file : CompileInputFile) : Path :=
  (file.statements.findSome? fun
    | .moduleDecl name => some name
    | _ => none).getD []

end CompileInputFile

def declaresModule (inputs : List CompileInputFile) (moduleName : Path) : Bool :=
  inputs.any (·.moduleName == moduleName)

structure Inputs where
  files    : List CompileInputFile
  hadError : Bool

-- Why the discovery returns before it has seen all files. The value of the function is 0 for the first one only.
inductive Stop
  | readError
  | parseError
deriving DecidableEq

section Discovery

variable (fs : FileSystem)

def containsFile (inputs : List CompileInputFile) (path : Path) : Bool :=
  inputs.any fun file => file.filename == path || ((fs.identity path).isSome && file.identity == fs.identity path)

def loadAndParseInput (inputs : Inputs) (filename : Path) : Option Inputs :=
  (fs.read filename).map fun parsed =>
    { files    := inputs.files ++ [⟨filename, parsed.statements, fs.identity filename⟩]
      hadError := inputs.hadError || parsed.hadError }

def loadCandidates : List Path → Inputs → Inputs × Option Stop
  | [], inputs => (inputs, none)
  | candidate :: candidates, inputs =>
    if containsFile fs inputs.files candidate then loadCandidates candidates inputs
    else
      match loadAndParseInput fs inputs candidate with
      | none => (inputs, some .readError)
      | some inputs => if inputs.hadError then (inputs, some .parseError) else loadCandidates candidates inputs

variable (options : CompileOptions)

def loadImports (importer : Path) : List Statement → Inputs → Inputs × Option Stop
  | [], inputs => (inputs, none)
  | .importDecl moduleName :: statements, inputs =>
    if declaresModule inputs.files moduleName then loadImports importer statements inputs
    else
      match loadCandidates fs (findModuleSources fs.toFileTree moduleName options importer) inputs with
      | (inputs, none) => loadImports importer statements inputs
      | (inputs, some stop) => (inputs, some stop)
  | .moduleDecl _ :: statements, inputs => loadImports importer statements inputs
  | .other :: statements, inputs => loadImports importer statements inputs

def discoverImportSources (fuel : Nat) (inputs : Inputs) : Option (Inputs × Option Stop) :=
  if !options.discoverImports then some (inputs, none)
  else
    Worklist.run Inputs.files (fun inputs file => loadImports fs options file.filename file.statements inputs) fuel 0 inputs

end Discovery

variable {fs : FileSystem} {options : CompileOptions} {files files' files'' : List CompileInputFile} {path : Path}
  {inputs inputs' : Inputs}

-- Each appended file has a path and an identity that none of the files before it has.
inductive Extends (fs : FileSystem) (files : List CompileInputFile) : List CompileInputFile → Prop
  | refl : Extends fs files files
  | append {files' : List CompileInputFile} {path : Path} {parsed : ParsedFile} {id : FileIdentity}
    (extends' : Extends fs files files') (fresh : containsFile fs files' path = false)
    (read : fs.read path = some parsed) (identified : fs.identity path = some id) :
    Extends fs files (files' ++ [⟨path, parsed.statements, some id⟩])

namespace Extends

theorem trans (h : Extends fs files files') (h' : Extends fs files' files'') : Extends fs files files'' := by
  induction h'
  case refl => exact h
  case append fresh read identified hi => exact .append hi fresh read identified

theorem appends (h : Extends fs files files') : files <+: files' := by
  induction h
  case refl => exact List.prefix_rfl
  case append hi => exact hi.trans (List.prefix_append _ _)

-- The appended files have different identities.
theorem length_le (h : Extends fs files files') : files'.length ≤ files.length + fs.identities.length := by
  have ⟨added, ha, hn, hm⟩ : ∃ added, files' = files ++ added ∧ (added.map (·.identity)).Nodup ∧
      ∀ file ∈ added, ∃ id ∈ fs.identities, file.identity = some id := by
    induction h
    case refl => exact ⟨[], by simp⟩
    case append path parsed id _ fresh _ identified hi =>
      obtain ⟨added, rfl, hn, hm⟩ := hi
      refine ⟨added ++ [⟨path, parsed.statements, some id⟩], by simp, ?_, ?_⟩
      case refine_1 =>
        simp only [containsFile, identified, List.any_eq_false, List.mem_append] at fresh
        rw [List.map_append, List.map_singleton, List.nodup_append]
        refine ⟨hn, List.nodup_singleton _, ?_⟩
        intro a ha b hb
        obtain ⟨file, hf, rfl⟩ := List.mem_map.mp ha
        have := fresh file (.inr hf)
        cases List.mem_singleton.mp hb
        rintro he
        simp [he] at this
      case refine_2 =>
        intro file hf
        cases List.mem_append.mp hf
        case inl hf => exact hm file hf
        case inr hf =>
          cases List.mem_singleton.mp hf
          exact ⟨id, fs.finite identified, rfl⟩
  have hs : added.map (·.identity) ⊆ fs.identities.map some := by
    intro a ha
    obtain ⟨file, hf, rfl⟩ := List.mem_map.mp ha
    obtain ⟨id, hid, he⟩ := hm file hf
    exact he ▸ List.mem_map_of_mem hid
  have hl := (List.subperm_of_subset hn hs).length_le
  rw [List.length_map, List.length_map] at hl
  rw [ha, List.length_append]
  omega

theorem containsFile (h : Extends fs files files') (hc : containsFile fs files path) : containsFile fs files' path := by
  obtain ⟨file, hf, he⟩ := List.any_eq_true.mp hc
  exact List.any_eq_true.mpr ⟨file, h.appends.subset hf, he⟩

theorem declaresModule {moduleName : Path} (h : Extends fs files files') (hd : declaresModule files moduleName) :
    declaresModule files' moduleName := by
  obtain ⟨file, hf, he⟩ := List.any_eq_true.mp hd
  exact List.any_eq_true.mpr ⟨file, h.appends.subset hf, he⟩

end Extends

theorem isRegular_of_mem_findModuleSources {tree : FileTree} {moduleName importer : Path}
    (h : path ∈ findModuleSources tree moduleName options importer) : tree.isRegular path := by
  rw [findModuleSources_eq] at h
  split at h
  case h_1 single hs =>
    cases List.mem_singleton.mp h
    obtain ⟨root, _, hr⟩ := List.exists_of_findSome?_eq_some hs
    exact (singleSource_eq_some.mp hr).2
  case h_2 =>
    cases hp : (sourceDirectory importer :: stdlibRoots moduleName options ++ options.moduleSearchDirs).findSome?
      (packageSources tree moduleName)
    case none =>
      rw [hp] at h
      cases h
    case some items =>
      rw [hp] at h
      obtain ⟨root, _, hr⟩ := List.exists_of_findSome?_eq_some hp
      exact (((packageSources_eq_some.mp hr).members path).mp h).regular

theorem loadAndParseInput_extends {id : FileIdentity} (h : loadAndParseInput fs inputs path = some inputs')
    (fresh : containsFile fs inputs.files path = false) (hi : fs.identity path = some id) :
    Extends fs inputs.files inputs'.files ∧ containsFile fs inputs'.files path := by
  obtain ⟨parsed, hr, rfl⟩ := Option.map_eq_some_iff.mp h
  rw [hi]
  exact ⟨.append .refl fresh hr hi, by simp [containsFile]⟩

theorem loadCandidates_extends {candidates : List Path} (h : ∀ path ∈ candidates, ∃ id, fs.identity path = some id) :
    Extends fs inputs.files (loadCandidates fs candidates inputs).1.files := by
  fun_induction loadCandidates fs candidates inputs with
  | case1 => exact .refl
  | case2 _ _ _ _ hi => exact hi fun path hp => h path (.tail _ hp)
  | case3 => exact .refl
  | case4 candidate _ inputs hc inputs' hl _ =>
    obtain ⟨id, hid⟩ := h candidate (.head _)
    exact (loadAndParseInput_extends hl (by simpa using hc) hid).1
  | case5 candidate _ inputs hc inputs' hl _ hi =>
    obtain ⟨id, hid⟩ := h candidate (.head _)
    exact (loadAndParseInput_extends hl (by simpa using hc) hid).1.trans (hi fun path hp => h path (.tail _ hp))

theorem loadCandidates_contains {candidates : List Path} (h : ∀ path ∈ candidates, ∃ id, fs.identity path = some id)
    (hn : (loadCandidates fs candidates inputs).2 = none) :
    ∀ path ∈ candidates, containsFile fs (loadCandidates fs candidates inputs).1.files path := by
  fun_induction loadCandidates fs candidates inputs with
  | case1 => exact fun _ hp => nomatch hp
  | case2 candidate candidates inputs hc hi =>
    have ht : ∀ path ∈ candidates, ∃ id, fs.identity path = some id := fun path hp => h path (.tail _ hp)
    intro path hp
    cases hp with
    | head => exact (loadCandidates_extends ht).containsFile hc
    | tail _ hp => exact hi ht hn path hp
  | case3 => cases hn
  | case4 => cases hn
  | case5 candidate candidates inputs hc inputs' hl _ hi =>
    have ht : ∀ path ∈ candidates, ∃ id, fs.identity path = some id := fun path hp => h path (.tail _ hp)
    obtain ⟨id, hid⟩ := h candidate (.head _)
    have hl := (loadAndParseInput_extends hl (by simpa using hc) hid).2
    intro path hp
    cases hp with
    | head => exact (loadCandidates_extends ht).containsFile hl
    | tail _ hp => exact hi ht hn path hp

-- An import whose candidates are loaded. This includes one without candidates.
def Settled (fs : FileSystem) (options : CompileOptions) (files : List CompileInputFile) (importer moduleName : Path) :
    Prop :=
  declaresModule files moduleName ∨
    ∀ path ∈ findModuleSources fs.toFileTree moduleName options importer, containsFile fs files path

theorem Extends.settled {importer moduleName : Path} (h : Extends fs files files')
    (hs : Settled fs options files importer moduleName) : Settled fs options files' importer moduleName := by
  cases hs
  case inl hd => exact .inl (h.declaresModule hd)
  case inr hc => exact .inr fun path hp => h.containsFile (hc path hp)

theorem candidates_identified {importer moduleName : Path} :
    ∀ path ∈ findModuleSources fs.toFileTree moduleName options importer, ∃ id, fs.identity path = some id :=
  fun _ hp => fs.regular (isRegular_of_mem_findModuleSources hp)

theorem loadImports_extends {importer : Path} {statements : List Statement} :
    Extends fs inputs.files (loadImports fs options importer statements inputs).1.files := by
  fun_induction loadImports fs options importer statements inputs with
  | case1 => exact .refl
  | case2 _ _ _ _ hi => exact hi
  | case3 moduleName _ inputs _ inputs' hl hi =>
    have he := @loadCandidates_extends fs inputs _ (@candidates_identified fs options importer moduleName)
    rw [hl] at he
    exact he.trans hi
  | case4 moduleName _ inputs _ inputs' stop hl =>
    have he := @loadCandidates_extends fs inputs _ (@candidates_identified fs options importer moduleName)
    rwa [hl] at he
  | case5 _ _ _ hi => exact hi
  | case6 _ _ hi => exact hi

theorem loadImports_settled {importer moduleName : Path} {statements : List Statement}
    (hn : (loadImports fs options importer statements inputs).2 = none) (hm : .importDecl moduleName ∈ statements) :
    Settled fs options (loadImports fs options importer statements inputs).1.files importer moduleName := by
  fun_induction loadImports fs options importer statements inputs with
  | case1 => cases hm
  | case2 moduleName _ inputs hd hi =>
    cases hm with
    | head => exact loadImports_extends.settled (.inl hd)
    | tail _ hm => exact hi hn hm
  | case3 moduleName _ inputs _ inputs' hl hi =>
    cases hm with
    | head =>
      have hc := @loadCandidates_contains fs inputs _ (@candidates_identified fs options importer moduleName) (by rw [hl])
      rw [hl] at hc
      exact loadImports_extends.settled (.inr hc)
    | tail _ hm => exact hi hn hm
  | case4 => cases hn
  | case5 _ _ _ hi =>
    cases hm with
    | tail _ hm => exact hi hn hm
  | case6 _ _ hi =>
    cases hm with
    | tail _ hm => exact hi hn hm

-- Every import of the file is settled.
def Closed (fs : FileSystem) (options : CompileOptions) (files : List CompileInputFile) (file : CompileInputFile) :
    Prop :=
  ∀ moduleName, .importDecl moduleName ∈ file.statements → Settled fs options files file.filename moduleName

def growth (fs : FileSystem) (options : CompileOptions) :
    Worklist.Growth Inputs.files fun inputs file => loadImports fs options file.filename file.statements inputs where
  Grows inputs inputs' := Extends fs inputs.files inputs'.files
  refl _               := .refl
  trans                := Extends.trans
  append               := Extends.appends
  step _ _             := loadImports_extends

-- The discovery ends, appends only files that are not there, and has followed every import unless it stops early.
def ComputesClosure (fs : FileSystem) (options : CompileOptions) (inputs : Inputs) : Prop :=
  ∃ inputs' stop,
    (∀ fuel, inputs.files.length + fs.identities.length < fuel →
      discoverImportSources fs options fuel inputs = some (inputs', stop)) ∧
    Extends fs inputs.files inputs'.files ∧
    (stop = none → ∀ file ∈ inputs'.files, Closed fs options inputs'.files file)

-- The files `a.cog` and `b.cog`, which import each other, in the working directory.
def cyclicSystem : FileSystem where
  isRegular path := path = "./a.cog".toList ∨ path = "./b.cog".toList
  entries _      := none
  nodup h        := nomatch h
  noSlash h      := nomatch h
  identity path  :=
    if path = "a.cog".toList ∨ path = "./a.cog".toList then some ⟨0, 1⟩
    else if path = "./b.cog".toList then some ⟨0, 2⟩
    else none
  read path      :=
    if path = "./b.cog".toList then some ⟨[.moduleDecl "b".toList, .importDecl "a".toList], false⟩ else none
  identities     := [⟨0, 1⟩, ⟨0, 2⟩]
  finite h       := by
    split at h
    case isTrue => exact Option.some.inj h ▸ by decide
    case isFalse =>
      split at h
      case isTrue => exact Option.some.inj h ▸ by decide
      case isFalse => cases h
  regular h      := by
    rcases of_decide_eq_true h with rfl | rfl
    · exact ⟨⟨0, 1⟩, rfl⟩
    · exact ⟨⟨0, 2⟩, rfl⟩

def cyclicInputs : Inputs where
  files    := [⟨"a.cog".toList, [.moduleDecl "a".toList, .importDecl "b".toList], some ⟨0, 1⟩⟩]
  hadError := false

end Coglet.Driver
