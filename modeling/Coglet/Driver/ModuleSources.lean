import Mathlib.Data.Char
import Mathlib.Data.List.Lex
import Mathlib.Data.List.Sort

namespace Coglet.Driver

abbrev Path := List Char

-- The files that `stat` reports as regular, and the names that `readdir` returns for a directory in some order.
structure FileTree where
  isRegular : Path → Bool
  entries   : Path → Option (List Path)
  nodup     : entries directory = some names → names.Nodup
  noSlash   : entries directory = some names → ∀ name ∈ names, '/' ∉ name

structure CompileOptions where
  discoverImports  : Bool
  moduleSearchDirs : List Path
  stdlibRoot       : Option Path

def isSeparator (c : Char) : Bool :=
  c == '/' || c == '\\'

def sourceDirectory (filename : Path) : Path :=
  match filename.reverse.dropWhile (!isSeparator ·) with
  | [] => ['.']
  | _ :: [] => filename.take 1
  | _ :: directory => directory.reverse

def withSeparator (directory : Path) : Path :=
  if directory.getLast?.any (!isSeparator ·) then directory ++ ['/'] else directory

def modulePath (moduleName : Path) : Path :=
  moduleName.map fun c => if c = '.' then '/' else c

def extension : Path := ['.', 'c', 'o', 'g']

def moduleCandidatePath (directory moduleName : Path) : Path :=
  withSeparator directory ++ modulePath moduleName ++ extension

def moduleNameIsStdNamespace (moduleName : Path) : Bool :=
  moduleName.take 3 == ['s', 't', 'd'] && (moduleName.length == 3 || moduleName[3]? == some '.')

-- The `dir_path` of a package.
def packageDirectory (root moduleName : Path) : Path :=
  withSeparator root ++ modulePath moduleName

def isMemberName (name : Path) : Bool :=
  5 ≤ name.length && name.drop (name.length - 4) == extension

def memberPath (directory name : Path) : Path :=
  directory ++ '/' :: name

-- `strcmp` orders texts in UTF-8 as their characters are ordered.
def compareCStrings (a b : Path) : Bool :=
  a ≤ b

section

variable (tree : FileTree) (moduleName : Path)

def singleSource (root : Path) : Option Path :=
  let single := moduleCandidatePath root moduleName
  if tree.isRegular single then some single else none

def packageMembers (directory : Path) : List Path :=
  match tree.entries directory with
  | none => []
  | some names => ((names.filter isMemberName).map (memberPath directory)).filter tree.isRegular

def packageSources (root : Path) : Option (List Path) :=
  let items := packageMembers tree (packageDirectory root moduleName)
  if items = [] then none else some (items.mergeSort compareCStrings)

def stdlibRoots (options : CompileOptions) : List Path :=
  if moduleNameIsStdNamespace moduleName then options.stdlibRoot.toList else []

def findModuleSources (options : CompileOptions) (importer : Path) : List Path :=
  let roots := sourceDirectory importer :: stdlibRoots moduleName options
  let single :=
    (roots.take 1).findSome? (singleSource tree moduleName) <|>
    options.moduleSearchDirs.findSome? (singleSource tree moduleName) <|>
    (roots.drop 1).findSome? (singleSource tree moduleName)
  match single with
  | some single => [single]
  | none => ((roots ++ options.moduleSearchDirs).findSome? (packageSources tree moduleName)).getD []

-- The documented order of the roots.
def searchOrder (options : CompileOptions) (importer : Path) : List Path :=
  sourceDirectory importer :: options.moduleSearchDirs ++ stdlibRoots moduleName options

end

-- The documented result for the first root that has a candidate of some kind.
def First (Candidate : Path → α → Prop) (roots : List Path) (found : α) : Prop :=
  ∃ before root after, roots = before ++ root :: after ∧ Candidate root found ∧
    ∀ earlier ∈ before, ∀ found, ¬Candidate earlier found

def IsSingle (tree : FileTree) (moduleName root path : Path) : Prop :=
  path = moduleCandidatePath root moduleName ∧ tree.isRegular path

-- The name of a source file is not empty before its extension.
structure IsMember (tree : FileTree) (directory path : Path) : Prop where
  named   : ∃ names stem, tree.entries directory = some names ∧ stem ++ extension ∈ names ∧ stem ≠ [] ∧
    path = directory ++ '/' :: (stem ++ extension)
  regular : tree.isRegular path

structure IsPackage (tree : FileTree) (moduleName root : Path) (items : List Path) : Prop where
  nonempty : items ≠ []
  lexical  : items.Pairwise (· < ·)
  members  : ∀ path, path ∈ items ↔ IsMember tree (packageDirectory root moduleName) path

inductive Documented (tree : FileTree) (moduleName : Path) (roots : List Path) : List Path → Prop
  | single {path : Path} (first : First (IsSingle tree moduleName) roots path) :
    Documented tree moduleName roots [path]
  | package {items : List Path} (noSingle : ∀ root ∈ roots, ∀ path, ¬IsSingle tree moduleName root path)
      (first : First (IsPackage tree moduleName) roots items) :
    Documented tree moduleName roots items
  | missing (noSingle : ∀ root ∈ roots, ∀ path, ¬IsSingle tree moduleName root path)
      (noPackage : ∀ root ∈ roots, ∀ items, ¬IsPackage tree moduleName root items) :
    Documented tree moduleName roots []

variable {tree : FileTree} {moduleName root directory path name : Path}

theorem singleSource_eq_some : singleSource tree moduleName root = some path ↔ IsSingle tree moduleName root path := by
  simp only [singleSource, IsSingle, Option.ite_none_right_eq_some, Option.some.injEq]
  constructor
  case mp =>
    rintro ⟨hr, rfl⟩
    exact ⟨rfl, hr⟩
  case mpr =>
    rintro ⟨rfl, hr⟩
    exact ⟨hr, rfl⟩

theorem isMemberName_iff : isMemberName name ↔ ∃ stem ≠ [], name = stem ++ extension := by
  simp only [isMemberName, Bool.and_eq_true, decide_eq_true_eq, beq_iff_eq]
  constructor
  case mp =>
    rintro ⟨hl, he⟩
    refine ⟨name.take (name.length - 4), fun hn => ?_, ?_⟩
    · have := congrArg List.length hn
      simp only [List.length_take, List.length_nil] at this
      omega
    · rw [← he, List.take_append_drop]
  case mpr =>
    rintro ⟨stem, hs, rfl⟩
    have hpos := List.length_pos_of_ne_nil hs
    have hlength : (stem ++ extension).length = stem.length + 4 := List.length_append
    constructor
    · omega
    · rw [hlength, Nat.add_sub_cancel, List.drop_left]

theorem mem_packageMembers : path ∈ packageMembers tree directory ↔ IsMember tree directory path := by
  constructor
  case mp =>
    intro h
    unfold packageMembers at h
    split at h
    case h_1 => cases h
    case h_2 names he =>
      simp only [List.mem_filter, List.mem_map] at h
      obtain ⟨⟨name, ⟨hm, hn⟩, rfl⟩, hr⟩ := h
      obtain ⟨stem, hs, rfl⟩ := isMemberName_iff.mp hn
      exact ⟨⟨names, stem, he, hm, hs, rfl⟩, hr⟩
  case mpr =>
    rintro ⟨⟨names, stem, he, hm, hs, rfl⟩, hr⟩
    simp only [packageMembers, he, List.mem_filter, List.mem_map]
    exact ⟨⟨_, ⟨hm, isMemberName_iff.mpr ⟨stem, hs, rfl⟩⟩, rfl⟩, hr⟩

theorem memberPath_injective : Function.Injective (memberPath directory) := by
  intro a b h
  exact List.cons_injective (List.append_cancel_left h)

theorem nodup_packageMembers : (packageMembers tree directory).Nodup := by
  unfold packageMembers
  split
  case h_1 => exact List.nodup_nil
  case h_2 names he => exact (((tree.nodup he).filter _).map memberPath_injective).filter _

theorem compareCStrings_trans (a b c : Path) (hab : compareCStrings a b) (hbc : compareCStrings b c) :
    compareCStrings a c := by
  simp only [compareCStrings, decide_eq_true_eq] at *
  exact hab.trans hbc

theorem compareCStrings_total (a b : Path) : compareCStrings a b || compareCStrings b a := by
  simp only [compareCStrings, Bool.or_eq_true, decide_eq_true_eq]
  exact le_total a b

theorem pairwise_sorted {items : List Path} (h : items.Nodup) :
    (items.mergeSort compareCStrings).Pairwise (· < ·) := by
  have hle : (items.mergeSort compareCStrings).Pairwise (compareCStrings · ·) :=
    List.pairwise_mergeSort compareCStrings_trans compareCStrings_total items
  have hne : (items.mergeSort compareCStrings).Nodup := (List.mergeSort_perm items _).nodup_iff.mpr h
  exact (hle.and hne).imp fun ⟨hl, hn⟩ => lt_of_le_of_ne (of_decide_eq_true hl) hn

theorem packageSources_eq_some {items : List Path} :
    packageSources tree moduleName root = some items ↔ IsPackage tree moduleName root items := by
  have hm (path : Path) :
      path ∈ (packageMembers tree (packageDirectory root moduleName)).mergeSort compareCStrings ↔
        IsMember tree (packageDirectory root moduleName) path := by
    rw [List.mem_mergeSort, mem_packageMembers]
  have hs := pairwise_sorted (@nodup_packageMembers tree (packageDirectory root moduleName))
  simp only [packageSources, Option.ite_none_left_eq_some, Option.some.injEq]
  constructor
  case mp =>
    rintro ⟨hne, rfl⟩
    refine ⟨fun he => hne ?_, hs, hm⟩
    rwa [← List.length_eq_zero_iff, List.length_mergeSort, List.length_eq_zero_iff] at he
  case mpr =>
    rintro ⟨hne, hl, hi⟩
    have heq : (packageMembers tree (packageDirectory root moduleName)).mergeSort compareCStrings = items :=
      hs.eq_of_mem_iff hl fun path => (hm path).trans (hi path).symm
    refine ⟨fun he => hne ?_, heq⟩
    rw [← heq, he, List.mergeSort_nil]

theorem findSome?_eq_some_iff_first {f : Path → Option α} {Candidate : Path → α → Prop}
    (hf : ∀ {root found}, f root = some found ↔ Candidate root found) {roots : List Path} {found : α} :
    roots.findSome? f = some found ↔ First Candidate roots found := by
  have hnone (root : Path) : f root = none ↔ ∀ found, ¬Candidate root found := by
    simp only [← hf, Option.eq_none_iff_forall_ne_some, ne_eq]
  simp only [List.findSome?_eq_some_iff, First, hf, hnone]

theorem findSome?_eq_none_iff_candidate {f : Path → Option α} {Candidate : Path → α → Prop}
    (hf : ∀ {root found}, f root = some found ↔ Candidate root found) {roots : List Path} :
    roots.findSome? f = none ↔ ∀ root ∈ roots, ∀ found, ¬Candidate root found := by
  rw [List.findSome?_eq_none_iff]
  simp only [← hf, Option.eq_none_iff_forall_ne_some, ne_eq]

-- One search over all roots for each of the two kinds of candidates.
def orderedSources (tree : FileTree) (moduleName : Path) (roots : List Path) : List Path :=
  match roots.findSome? (singleSource tree moduleName) with
  | some single => [single]
  | none => (roots.findSome? (packageSources tree moduleName)).getD []

theorem documented_iff {roots items : List Path} :
    Documented tree moduleName roots items ↔ orderedSources tree moduleName roots = items := by
  have hsingle := @findSome?_eq_some_iff_first _ _ _ (@singleSource_eq_some tree moduleName) roots
  have hnoSingle := @findSome?_eq_none_iff_candidate _ _ _ (@singleSource_eq_some tree moduleName) roots
  have hpackage := @findSome?_eq_some_iff_first _ _ _ (@packageSources_eq_some tree moduleName) roots
  have hnoPackage := @findSome?_eq_none_iff_candidate _ _ _ (@packageSources_eq_some tree moduleName) roots
  unfold orderedSources
  constructor
  case mp =>
    intro h
    cases h with
    | single first => simp only [hsingle.mpr first]
    | package noSingle first => simp only [hnoSingle.mpr noSingle, hpackage.mpr first, Option.getD_some]
    | missing noSingle noPackage => simp only [hnoSingle.mpr noSingle, hnoPackage.mpr noPackage, Option.getD_none]
  case mpr =>
    rintro rfl
    split
    case h_1 single h => exact .single (hsingle.mp h)
    case h_2 h =>
      cases hp : roots.findSome? (packageSources tree moduleName)
      case none => exact .missing (hnoSingle.mp h) (hnoPackage.mp hp)
      case some items => exact .package (hnoSingle.mp h) (hpackage.mp hp)

-- What decides whether a root has a package.
def HasPackage (tree : FileTree) (moduleName root : Path) : Prop :=
  ∃ path, IsMember tree (packageDirectory root moduleName) path

theorem hasPackage_iff : HasPackage tree moduleName root ↔ (packageSources tree moduleName root).isSome := by
  simp only [HasPackage, ← mem_packageMembers, packageSources]
  split
  case isTrue h => simp [h]
  case isFalse h => simpa using List.exists_mem_of_ne_nil _ h

theorem not_hasPackage_iff : ¬HasPackage tree moduleName root ↔ packageSources tree moduleName root = none := by
  rw [hasPackage_iff, Option.not_isSome_iff_eq_none]

-- No name contains the separator, so a path determines the directory of the package.
theorem IsMember.directory_eq {directory' : Path} (h : IsMember tree directory path)
    (h' : IsMember tree directory' path) : directory = directory' := by
  obtain ⟨⟨names, stem, he, hm, _, rfl⟩, _⟩ := h
  obtain ⟨⟨names', stem', he', hm', _, heq⟩, _⟩ := h'
  have hs := tree.noSlash he _ hm
  have hs' := tree.noSlash he' _ hm'
  cases List.append_eq_append_iff.mp heq
  case inl hc =>
    obtain ⟨middle, hd, ht⟩ := hc
    cases middle with
    | nil => simpa using hd.symm
    | cons c middle =>
      simp only [List.cons_append, List.cons.injEq] at ht
      exact absurd (ht.2 ▸ by simp) hs
  case inr hc =>
    obtain ⟨middle, hd, ht⟩ := hc
    cases middle with
    | nil => simpa using hd
    | cons c middle =>
      simp only [List.cons_append, List.cons.injEq] at ht
      exact absurd (ht.2 ▸ by simp) hs'

theorem packageSources_eq_iff {root' : Path} {items items' : List Path}
    (h : packageSources tree moduleName root = some items) (h' : packageSources tree moduleName root' = some items') :
    items = items' ↔ packageDirectory root moduleName = packageDirectory root' moduleName := by
  constructor
  case mp =>
    rintro rfl
    have hp := packageSources_eq_some.mp h
    have hp' := packageSources_eq_some.mp h'
    obtain ⟨path, hm⟩ := List.exists_mem_of_ne_nil _ hp.nonempty
    exact ((hp.members path).mp hm).directory_eq ((hp'.members path).mp hm)
  case mpr =>
    intro hd
    unfold packageSources at h h'
    rw [hd] at h
    exact Option.some.inj (h.symm.trans h')

-- The standard library is searched for a package before the `-I` roots.
structure StdlibShadows (tree : FileTree) (moduleName : Path) (options : CompileOptions) (importer : Path) : Prop where
  noSingle   : ∀ root ∈ searchOrder moduleName options importer, ¬tree.isRegular (moduleCandidatePath root moduleName)
  noImporter : ¬HasPackage tree moduleName (sourceDirectory importer)
  shadowed   : ∃ stdlib before root after, stdlib ∈ stdlibRoots moduleName options ∧
    options.moduleSearchDirs = before ++ root :: after ∧ (∀ earlier ∈ before, ¬HasPackage tree moduleName earlier) ∧
    HasPackage tree moduleName root ∧ HasPackage tree moduleName stdlib ∧
    packageDirectory root moduleName ≠ packageDirectory stdlib moduleName

theorem stdlibRoots_cases (moduleName : Path) (options : CompileOptions) :
    stdlibRoots moduleName options = [] ∨ ∃ stdlib, stdlibRoots moduleName options = [stdlib] := by
  unfold stdlibRoots
  split
  case isTrue =>
    cases options.stdlibRoot
    case none => exact .inl rfl
    case some stdlib => exact .inr ⟨stdlib, rfl⟩
  case isFalse => exact .inl rfl

theorem findModuleSources_eq (options : CompileOptions) (importer : Path) :
    findModuleSources tree moduleName options importer =
      match (searchOrder moduleName options importer).findSome? (singleSource tree moduleName) with
      | some single => [single]
      | none =>
        ((sourceDirectory importer :: stdlibRoots moduleName options ++ options.moduleSearchDirs).findSome?
          (packageSources tree moduleName)).getD [] := by
  have happend (a b c : List Path) :
      (a ++ (b ++ c)).findSome? (singleSource tree moduleName) =
        (a.findSome? (singleSource tree moduleName) <|> b.findSome? (singleSource tree moduleName) <|>
          c.findSome? (singleSource tree moduleName)) := by
    simp only [List.findSome?_append, Option.orElse_eq_orElse, Option.orElse_eq_or]
  have hsingle := happend [sourceDirectory importer] options.moduleSearchDirs (stdlibRoots moduleName options)
  simp only [List.cons_append, List.nil_append] at hsingle
  simp only [findModuleSources, searchOrder, List.take_succ_cons, List.take_zero, List.drop_succ_cons, List.drop_zero,
    List.cons_append, hsingle]

-- The two searches for packages agree unless a package of the standard library comes before one of an `-I` root.
theorem packages_agree_iff {searchDirs stdlib : List Path} (hs : stdlib = [] ∨ ∃ root, stdlib = [root]) :
    ((stdlib ++ searchDirs).findSome? (packageSources tree moduleName)).getD [] =
        ((searchDirs ++ stdlib).findSome? (packageSources tree moduleName)).getD [] ↔
      ¬∃ root before root' after, root ∈ stdlib ∧ searchDirs = before ++ root' :: after ∧
        (∀ earlier ∈ before, ¬HasPackage tree moduleName earlier) ∧ HasPackage tree moduleName root' ∧
        HasPackage tree moduleName root ∧ packageDirectory root' moduleName ≠ packageDirectory root moduleName := by
  rw [List.findSome?_append, List.findSome?_append]
  constructor
  case mp =>
    rintro heq ⟨root, before, root', after, hm, hd, hb, hr', hr, hne⟩
    obtain ⟨items', hi'⟩ := Option.isSome_iff_exists.mp (hasPackage_iff.mp hr')
    obtain ⟨items, hi⟩ := Option.isSome_iff_exists.mp (hasPackage_iff.mp hr)
    have hdirs : searchDirs.findSome? (packageSources tree moduleName) = some items' :=
      List.findSome?_eq_some_iff.mpr ⟨before, root', after, hd, hi', fun r h => not_hasPackage_iff.mp (hb r h)⟩
    have hstdlib : stdlib.findSome? (packageSources tree moduleName) = some items := by
      rcases hs with rfl | ⟨only, rfl⟩
      case inl => cases hm
      case inr =>
        rw [List.mem_singleton.mp hm] at hi
        simpa using hi
    rw [hdirs, hstdlib] at heq
    exact hne ((packageSources_eq_iff hi' hi).mp heq.symm)
  case mpr =>
    intro hn
    cases hstdlib : stdlib.findSome? (packageSources tree moduleName)
    case none => simp
    case some items =>
      cases hdirs : searchDirs.findSome? (packageSources tree moduleName)
      case none => simp
      case some items' =>
        obtain ⟨before, root', after, hd, hi', hb⟩ := List.findSome?_eq_some_iff.mp hdirs
        obtain ⟨root, hm, hi⟩ := List.exists_of_findSome?_eq_some hstdlib
        by_contra hne
        apply hn
        refine ⟨root, before, root', after, hm, hd, fun r h => not_hasPackage_iff.mpr (hb r h),
          hasPackage_iff.mpr (by simp [hi']), hasPackage_iff.mpr (by simp [hi]), fun he => hne ?_⟩
        exact (packageSources_eq_iff hi hi').mpr he.symm

-- A package `std.geo` under the `-I` root `inc` and another one under the root `lib` of the standard library.
def shadowingTree : FileTree where
  isRegular path := path = "inc/std/geo/a.cog".toList ∨ path = "lib/std/geo/b.cog".toList
  entries directory :=
    if directory = "inc/std/geo".toList then some ["a.cog".toList]
    else if directory = "lib/std/geo".toList then some ["b.cog".toList]
    else none
  nodup h := by
    split at h
    case isTrue => exact Option.some.inj h ▸ List.nodup_singleton _
    case isFalse =>
      split at h
      case isTrue => exact Option.some.inj h ▸ List.nodup_singleton _
      case isFalse => cases h
  noSlash h := by
    split at h
    case isTrue => exact Option.some.inj h ▸ by decide
    case isFalse =>
      split at h
      case isTrue => exact Option.some.inj h ▸ by decide
      case isFalse => cases h

def shadowingOptions : CompileOptions where
  discoverImports  := true
  moduleSearchDirs := ["inc".toList]
  stdlibRoot       := some "lib".toList

theorem stdlib_shadows_package :
    findModuleSources shadowingTree "std.geo".toList shadowingOptions "main.cog".toList = ["lib/std/geo/b.cog".toList] ∧
      ¬Documented shadowingTree "std.geo".toList
        (searchOrder "std.geo".toList shadowingOptions "main.cog".toList)
        (findModuleSources shadowingTree "std.geo".toList shadowingOptions "main.cog".toList) := by
  rw [documented_iff]
  decide +kernel

-- The documented order is kept exactly when no package of the standard library hides one of an `-I` root.
theorem findModuleSources_documented_iff (tree : FileTree) (moduleName : Path) (options : CompileOptions)
    (importer : Path) :
    Documented tree moduleName (searchOrder moduleName options importer)
        (findModuleSources tree moduleName options importer) ↔
      ¬StdlibShadows tree moduleName options importer := by
  rw [documented_iff, findModuleSources_eq, orderedSources]
  cases hsingle : (searchOrder moduleName options importer).findSome? (singleSource tree moduleName)
  case some single =>
    obtain ⟨root, hm, hr⟩ := List.exists_of_findSome?_eq_some hsingle
    obtain ⟨rfl, hreg⟩ := singleSource_eq_some.mp hr
    exact iff_of_true rfl fun h => h.noSingle root hm hreg
  case none =>
    have hnone : ∀ root ∈ searchOrder moduleName options importer,
        ¬tree.isRegular (moduleCandidatePath root moduleName) := fun root hm hr =>
      (findSome?_eq_none_iff_candidate singleSource_eq_some).mp hsingle root hm _ ⟨rfl, hr⟩
    have hagree := @packages_agree_iff tree moduleName options.moduleSearchDirs _
      (stdlibRoots_cases moduleName options)
    simp only [searchOrder, List.cons_append, List.findSome?_cons]
    cases himporter : packageSources tree moduleName (sourceDirectory importer)
    case some items =>
      refine iff_of_true rfl fun h => ?_
      rw [not_hasPackage_iff.mp h.noImporter] at himporter
      cases himporter
    case none =>
      have hno := not_hasPackage_iff.mpr himporter
      rw [eq_comm, hagree, not_iff_not]
      exact ⟨fun h => ⟨hnone, hno, h⟩, fun h => h.shadowed⟩

end Coglet.Driver
