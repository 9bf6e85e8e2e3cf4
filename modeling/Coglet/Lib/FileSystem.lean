import Mathlib.Logic.Function.Basic

-- Files that can have several names, and the buffered streams of the C library on them.
namespace Files

abbrev Bytes := List UInt8

structure FileSystem where
  names    : Bytes → Option Nat
  contents : Nat → Bytes
  unused   : Nat
  named    : ∀ {path file}, names path = some file → file < unused

namespace FileSystem

variable {fs : FileSystem} {path path' : Bytes} {file other : Nat} {bytes bytes' : Bytes}

def content (fs : FileSystem) (path : Bytes) : Option Bytes :=
  (fs.names path).map fs.contents

def write (fs : FileSystem) (file : Nat) (bytes : Bytes) : FileSystem :=
  { fs with contents := Function.update fs.contents file bytes }

def append (fs : FileSystem) (file : Nat) (bytes : Bytes) : FileSystem :=
  fs.write file (fs.contents file ++ bytes)

def create (fs : FileSystem) (path : Bytes) : FileSystem where
  names    := Function.update fs.names path (some fs.unused)
  contents := Function.update fs.contents fs.unused []
  unused   := fs.unused + 1
  named    := by
    intro path' file h
    rw [Function.update_apply] at h
    split at h
    · cases h
      exact Nat.lt_succ_self _
    · exact Nat.lt_succ_of_lt (fs.named h)

-- The file that is opened for writing is empty afterwards.
def truncate (fs : FileSystem) (path : Bytes) : FileSystem × Nat :=
  match fs.names path with
  | some file => (fs.write file [], file)
  | none      => (fs.create path, fs.unused)

@[simp]
theorem append_names : (fs.append file bytes).names = fs.names :=
  rfl

@[simp]
theorem append_contents_self : (fs.append file bytes).contents file = fs.contents file ++ bytes :=
  Function.update_self ..

@[simp]
theorem append_nil : fs.append file [] = fs := by
  simp [append, write]

@[simp]
theorem append_append : (fs.append file bytes).append file bytes' = fs.append file (bytes ++ bytes') := by
  simp [append, write]

theorem append_contents_of_ne (h : other ≠ file) : (fs.append file bytes).contents other = fs.contents other :=
  Function.update_of_ne h ..

theorem truncate_names : (fs.truncate path).1.names path = some (fs.truncate path).2 := by
  unfold truncate
  split
  case h_1 h => exact h
  case h_2 => exact Function.update_self ..

theorem truncate_contents : (fs.truncate path).1.contents (fs.truncate path).2 = [] := by
  unfold truncate
  split
  case h_1 => exact Function.update_self ..
  case h_2 => exact Function.update_self ..

theorem truncate_names_of_some (path : Bytes) (h : fs.names path' = some file) : (fs.truncate path).1.names path' = some file := by
  unfold truncate
  split
  case h_1 => exact h
  case h_2 hn =>
    have hp : path' ≠ path := by
      rintro rfl
      cases hn.symm.trans h
    exact (Function.update_of_ne hp ..).trans h

theorem truncate_contents_of_ne (h : file ≠ (fs.truncate path).2) :
    (fs.truncate path).1.contents file = fs.contents file := by
  unfold truncate at h ⊢
  split at h
  case h_1 => exact Function.update_of_ne h ..
  case h_2 => exact Function.update_of_ne h ..

-- A created file is a new one.
theorem truncate_eq_iff (h : fs.names path' = some file) : (fs.truncate path).2 = file ↔ fs.names path = some file := by
  unfold truncate
  split
  case h_1 hn => rw [hn, Option.some.injEq]
  case h_2 hn =>
    rw [hn]
    constructor
    case mp =>
      rintro rfl
      exact absurd (fs.named h) (Nat.lt_irrefl _)
    case mpr => exact fun hn => nomatch hn

end FileSystem

structure Input where
  file     : Nat
  position : Nat
  error    : Bool

-- The bytes of `pending` were accepted but are not in the file yet.
structure Output where
  file    : Nat
  pending : Bytes

-- A transfer that fails stops after some of its bytes.
def transferred (failure : Option Nat) (bytes : Bytes) : Bytes :=
  failure.elim bytes bytes.take

theorem transferred_within (failure : Option Nat) (bytes : Bytes) : transferred failure bytes <+: bytes := by
  cases failure
  case none => exact List.prefix_rfl
  case some n => exact List.take_prefix n bytes

variable {fs : FileSystem} {input : Input} {output : Output} {failure : Option Nat} {size drained : Nat} {bytes : Bytes}

def fopenRead (opens : Bool) (fs : FileSystem) (path : Bytes) : Option Input :=
  if opens then (fs.names path).map (⟨·, 0, false⟩) else none

def fopenWrite (opens : Bool) (fs : FileSystem) (path : Bytes) : Option (FileSystem × Output) :=
  if opens then some ((fs.truncate path).1, ⟨(fs.truncate path).2, []⟩) else none

-- Fewer bytes than requested are read only at the end of the file or with an error.
def fread (failure : Option Nat) (fs : FileSystem) (input : Input) (size : Nat) : Bytes × Input :=
  let bytes := transferred failure (((fs.contents input.file).drop input.position).take size)
  (bytes, { input with position := input.position + bytes.length, error := input.error || failure.isSome })

-- The stream passes on any number of the bytes that it holds.
def Output.drain (fs : FileSystem) (output : Output) (drained : Nat) : FileSystem × Output :=
  (fs.append output.file (output.pending.take drained), { output with pending := output.pending.drop drained })

def fwrite (failure : Option Nat) (drained : Nat) (fs : FileSystem) (output : Output) (bytes : Bytes) :
    Nat × FileSystem × Output :=
  let accepted := transferred failure bytes
  (accepted.length, { output with pending := output.pending ++ accepted }.drain fs drained)

def fflush (failure : Option Nat) (fs : FileSystem) (output : Output) : Bool × FileSystem × Output :=
  (failure.isNone, output.drain fs (transferred failure output.pending).length)

def fclose (failure : Option Nat) (fs : FileSystem) (output : Output) : FileSystem :=
  (fflush failure fs output).2.1

-- Every file but one is as before.
structure OnlyWrites (file : Nat) (fs fs' : FileSystem) : Prop where
  names    : fs'.names = fs.names
  contents : ∀ other, other ≠ file → fs'.contents other = fs.contents other

namespace OnlyWrites

variable {file : Nat} {fs₁ fs₂ fs₃ : FileSystem}

theorem refl : OnlyWrites file fs fs :=
  ⟨rfl, fun _ _ => rfl⟩

theorem trans (h₁ : OnlyWrites file fs₁ fs₂) (h₂ : OnlyWrites file fs₂ fs₃) : OnlyWrites file fs₁ fs₃ where
  names          := h₂.names.trans h₁.names
  contents i hi := (h₂.contents i hi).trans (h₁.contents i hi)

theorem content {path : Bytes} (h : OnlyWrites file fs₁ fs₂) (hp : fs₁.names path ≠ some file) :
    fs₂.content path = fs₁.content path := by
  unfold FileSystem.content
  rw [h.names]
  cases hn : fs₁.names path
  case none => rfl
  case some other => exact congrArg some (h.contents other fun he => hp (hn.trans (congrArg some he)))

end OnlyWrites

-- All that the program has written to the stream.
def Output.written (fs : FileSystem) (output : Output) : Bytes :=
  fs.contents output.file ++ output.pending

namespace Output

@[simp]
theorem drain_file : (output.drain fs drained).2.file = output.file :=
  rfl

theorem drain_onlyWrites : OnlyWrites output.file fs (output.drain fs drained).1 :=
  ⟨rfl, fun _ h => FileSystem.append_contents_of_ne h⟩

@[simp]
theorem drain_written : (output.drain fs drained).2.written (output.drain fs drained).1 = output.written fs := by
  simp [written, drain]

end Output

theorem fread_take : (fs.contents input.file).take (fread failure fs input size).2.position =
    (fs.contents input.file).take input.position ++ (fread failure fs input size).1 := by
  have hp := (transferred_within failure _).trans (List.take_prefix size ((fs.contents input.file).drop input.position))
  simp only [fread]
  rw [List.take_add, ← List.prefix_iff_eq_take.mp hp]

theorem fread_file : (fread failure fs input size).2.file = input.file :=
  rfl

theorem fread_position_lt (h : (fread failure fs input size).1 ≠ []) :
    (fs.contents input.file).length - (fread failure fs input size).2.position <
      (fs.contents input.file).length - input.position := by
  have hp := (transferred_within failure _).trans (List.take_prefix size ((fs.contents input.file).drop input.position))
  have hl := hp.length_le
  have hn := List.length_pos_iff.mpr h
  rw [List.length_drop] at hl
  simp only [fread] at hn ⊢
  omega

-- Without an error, the read that yields nothing is at the end of the file.
theorem fread_end (hs : size ≠ 0) (hb : (fread failure fs input size).1 = [])
    (he : (fread failure fs input size).2.error = false) :
    (fs.contents input.file).length ≤ (fread failure fs input size).2.position := by
  simp only [fread, Bool.or_eq_false_iff, Option.isSome_eq_false_iff, Option.isNone_iff_eq_none] at hb he ⊢
  rw [he.2, transferred, Option.elim_none, List.take_eq_nil_iff, List.drop_eq_nil_iff] at hb
  exact Nat.le_trans (hb.resolve_left hs) (Nat.le_add_right _ _)

theorem fread_of_empty (h : fs.contents input.file = []) : (fread failure fs input size).1 = [] := by
  have hp := transferred_within failure (((fs.contents input.file).drop input.position).take size)
  rw [h, List.drop_nil, List.take_nil] at hp
  simp only [fread, h, List.drop_nil, List.take_nil]
  exact List.prefix_nil.mp hp

theorem fwrite_file : (fwrite failure drained fs output bytes).2.2.file = output.file :=
  rfl

theorem fwrite_onlyWrites : OnlyWrites output.file fs (fwrite failure drained fs output bytes).2.1 :=
  ⟨rfl, fun _ h => FileSystem.append_contents_of_ne h⟩

theorem fwrite_written (h : (fwrite failure drained fs output bytes).1 = bytes.length) :
    (fwrite failure drained fs output bytes).2.2.written (fwrite failure drained fs output bytes).2.1 =
      output.written fs ++ bytes := by
  have hb : transferred failure bytes = bytes := (transferred_within failure bytes).eq_of_length h
  simp only [fwrite, Output.drain_written, hb]
  simp only [Output.written, List.append_assoc]

theorem fflush_file : (fflush failure fs output).2.2.file = output.file :=
  rfl

theorem fflush_onlyWrites : OnlyWrites output.file fs (fflush failure fs output).2.1 :=
  ⟨rfl, fun _ h => FileSystem.append_contents_of_ne h⟩

theorem fflush_contents (h : (fflush failure fs output).1) :
    (fflush failure fs output).2.1.contents output.file = output.written fs ∧
      (fflush failure fs output).2.2.pending = [] := by
  cases Option.isNone_iff_eq_none.mp h
  simp [fflush, transferred, Output.drain, Output.written]

theorem fclose_onlyWrites : OnlyWrites output.file fs (fclose failure fs output) :=
  fflush_onlyWrites

theorem fflush_of_pending (h : output.pending = []) : (fflush failure fs output).2 = (fs, output) := by
  cases output
  cases h
  simp [fflush, Output.drain]

theorem fclose_of_pending (h : output.pending = []) : fclose failure fs output = fs := by
  rw [fclose, fflush_of_pending h]

end Files
