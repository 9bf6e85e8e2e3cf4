import Coglet.Lib.FileSystem

open Files

-- The copy of a file in the run-time library.
namespace Coglet.Runtime.FileCopy

-- What the C library does in one round of the copy loop.
structure Round where
  readFailure  : Option Nat
  writeFailure : Option Nat
  drained      : Nat

structure Environment where
  allocatesSource      : Bool
  allocatesDestination : Bool
  opensInput           : Bool
  opensOutput          : Bool
  round                : Nat → Round
  flushFailure         : Option Nat
  closeFailure         : Option Nat

def bufferSize : Nat :=
  8192

def pathBuffer (allocates : Bool) (path : Bytes) : Option Bytes :=
  if allocates then some (path ++ [0]) else none

-- A path ends at the first NUL.
def cString (bytes : Bytes) : Bytes :=
  bytes.takeWhile (· ≠ 0)

structure Stopped where
  ended  : Bool
  fs     : FileSystem
  input  : Input
  output : Output

def copyLoop (env : Environment) : Nat → Nat → FileSystem → Input → Output → Option Stopped
  | 0, _, _, _, _ => none
  | fuel + 1, i, fs, input, output =>
    let (buffer, input) := fread (env.round i).readFailure fs input bufferSize
    if buffer.length ≠ 0 then
      let (count, fs, output) := fwrite (env.round i).writeFailure (env.round i).drained fs output buffer
      if count ≠ buffer.length then
        some ⟨false, fs, input, output⟩
      else
        copyLoop env fuel (i + 1) fs input output
    else
      some ⟨true, fs, input, output⟩

-- Without an error of the input, the success of the copy is that of the last flush.
def finish (env : Environment) (s : Stopped) : Bool × FileSystem :=
  if s.ended && !s.input.error then
    let (success, fs, output) := fflush env.flushFailure s.fs s.output
    (success, fclose env.closeFailure fs output)
  else
    (false, fclose env.closeFailure s.fs s.output)

def fileCopy (env : Environment) (fs : FileSystem) (source destination : Bytes) (fuel : Nat) :
    Option (Bool × FileSystem) :=
  match pathBuffer env.allocatesSource source, pathBuffer env.allocatesDestination destination with
  | some sourcePath, some destinationPath =>
    match fopenRead env.opensInput fs (cString sourcePath) with
    | none => some (false, fs)
    | some input =>
      match fopenWrite env.opensOutput fs (cString destinationPath) with
      | none => some (false, fs)
      | some (fs, output) => (copyLoop env fuel 0 fs input output).map (finish env)
  | _, _ => some (false, fs)

variable {env : Environment} {fs : FileSystem} {input : Input} {output : Output} {source destination : Bytes}
  {fuel i : Nat}

@[simp]
theorem cString_append_nul (path : Bytes) : cString (path ++ [0]) = cString path := by
  unfold cString
  induction path
  case nil => rfl
  case cons c path hi => rw [List.cons_append, List.takeWhile_cons, List.takeWhile_cons, hi]

-- The loop has copied the file, if it ends without an error.
structure Stopped.Copies (s : Stopped) (fs : FileSystem) (input : Input) (output : Output) : Prop where
  file       : s.output.file = output.file
  onlyWrites : OnlyWrites output.file fs s.fs
  complete   : s.ended → s.input.error = false → s.output.written s.fs = fs.contents input.file

theorem copyLoop_copies (hn : input.file ≠ output.file)
    (hw : output.written fs = (fs.contents input.file).take input.position)
    (hf : (fs.contents input.file).length - input.position < fuel) :
    ∃ s, copyLoop env fuel i fs input output = some s ∧ s.Copies fs input output := by
  induction fuel generalizing i fs input output
  case zero => exact absurd hf (Nat.not_lt_zero _)
  case succ fuel hi =>
    have ht := @fread_take fs input (env.round i).readFailure bufferSize
    have hp := @fread_position_lt fs input (env.round i).readFailure bufferSize
    have he := @fread_end fs input (env.round i).readFailure bufferSize
    have hr := @fread_file fs input (env.round i).readFailure bufferSize
    simp only [copyLoop]
    generalize fread (env.round i).readFailure fs input bufferSize = read at ht hp he hr
    obtain ⟨buffer, next⟩ := read
    split
    case isFalse hb =>
      have hb : buffer = [] := List.length_eq_zero_iff.mp (Decidable.not_not.mp hb)
      refine ⟨_, rfl, rfl, .refl, fun _ herror => ?_⟩
      rw [hw, ← List.append_nil (List.take _ _), ← hb, ← ht]
      exact List.take_of_length_le (he (by decide) hb herror)
    case isTrue hb =>
      have hb : buffer ≠ [] := fun hz => hb (congrArg List.length hz)
      have ho := @fwrite_onlyWrites fs output (env.round i).writeFailure (env.round i).drained buffer
      have hw' := @fwrite_written fs output (env.round i).writeFailure (env.round i).drained buffer
      have hfile := @fwrite_file fs output (env.round i).writeFailure (env.round i).drained buffer
      generalize fwrite (env.round i).writeFailure (env.round i).drained fs output buffer = written at ho hw' hfile
      obtain ⟨count, fs', output'⟩ := written
      simp only at ht hp hr ho hw' hfile ⊢
      split
      case isTrue => exact ⟨_, rfl, hfile, ho, fun hended => nomatch hended⟩
      case isFalse hcount =>
        have hsame : fs'.contents next.file = fs.contents input.file := by
          rw [hr]
          exact ho.contents _ hn
        have ⟨s, hs, hc⟩ : ∃ s, copyLoop env fuel (i + 1) fs' next output' = some s ∧ s.Copies fs' next output' := by
          apply hi
          · rwa [hr, hfile]
          · rw [hw' (Decidable.not_not.mp hcount), hw, hsame, ht]
          · have := hp hb
            rw [hsame]
            omega
        refine ⟨s, hs, hc.file.trans hfile, ho.trans (hfile ▸ hc.onlyWrites), fun hended herror => ?_⟩
        rw [hc.complete hended herror, hsame]

theorem copyLoop_empty (h : fs.contents input.file = []) : copyLoop env (fuel + 1) i fs input output =
    some ⟨true, fs, (fread (env.round i).readFailure fs input bufferSize).2, output⟩ := by
  have hb := @fread_of_empty fs input (env.round i).readFailure bufferSize h
  simp only [copyLoop, hb, List.length_nil, ne_eq, not_true_eq_false, if_false]

theorem finish_onlyWrites (s : Stopped) : OnlyWrites s.output.file s.fs (finish env s).2 := by
  unfold finish
  split
  case isTrue =>
    have hf := @fflush_onlyWrites s.fs s.output env.flushFailure
    exact hf.trans (fflush_file ▸ fclose_onlyWrites)
  case isFalse => exact fclose_onlyWrites

theorem finish_contents {s : Stopped} (h : (finish env s).1) : s.ended ∧ s.input.error = false ∧
    (finish env s).2.contents s.output.file = s.output.written s.fs := by
  unfold finish at h ⊢
  split at h
  case isTrue hs =>
    have ⟨hended, herror⟩ : s.ended = true ∧ s.input.error = false := by simpa using hs
    have hc := @fflush_contents s.fs s.output env.flushFailure h
    refine ⟨hended, herror, ?_⟩
    rw [if_pos hs]
    simp only [fclose_of_pending hc.2]
    exact hc.1
  case isFalse => cases h

theorem finish_of_pending {s : Stopped} (h : s.output.pending = []) : (finish env s).2 = s.fs := by
  unfold finish
  split
  case isTrue => simp only [fflush_of_pending h, fclose_of_pending h]
  case isFalse => exact fclose_of_pending h

def Opens (env : Environment) : Prop :=
  env.allocatesSource ∧ env.allocatesDestination ∧ env.opensInput ∧ env.opensOutput

theorem fileCopy_of_not_opens (h : ¬Opens env) : fileCopy env fs source destination fuel = some (false, fs) := by
  unfold fileCopy pathBuffer
  split
  case h_1 hs hd =>
    split
    case h_1 => rfl
    case h_2 hi =>
      split
      case h_1 => rfl
      case h_2 ho =>
        simp only [Option.ite_none_right_eq_some, fopenRead, fopenWrite] at hs hd hi ho
        exact absurd ⟨hs.1, hd.1, hi.1, ho.1⟩ h
  case h_2 => rfl

theorem fileCopy_of_opens (h : Opens env) : fileCopy env fs source destination fuel =
    match fs.names (cString source) with
    | none => some (false, fs)
    | some file =>
      (copyLoop env fuel 0 (fs.truncate (cString destination)).1 ⟨file, 0, false⟩
        ⟨(fs.truncate (cString destination)).2, []⟩).map (finish env) := by
  obtain ⟨hs, hd, hi, ho⟩ := h
  simp only [fileCopy, pathBuffer, hs, hd, if_true, cString_append_nul, fopenRead, fopenWrite, hi, ho]
  cases fs.names (cString source)
  case none => rfl
  case some => rfl

-- The source is still there, and after a success it is also the content of the destination.
structure KeepsData (fs : FileSystem) (source destination : Bytes) (result : Bool × FileSystem) : Prop where
  unchanged : result.2.content (cString source) = fs.content (cString source)
  copied    : result.1 → ∃ bytes, fs.content (cString source) = some bytes ∧
    result.2.content (cString destination) = some bytes

theorem keepsData_of_unchanged : KeepsData fs source destination (false, fs) :=
  ⟨rfl, fun h => nomatch h⟩

-- The loop reads at least a byte in each round but the last.
def NeverLosesData (env : Environment) (fs : FileSystem) (source destination : Bytes) : Prop :=
  ∀ fuel, ((fs.content (cString source)).getD []).length < fuel →
    ∃ result, fileCopy env fs source destination fuel = some result ∧ KeepsData fs source destination result

-- The destination is a name of the source, which is emptied before the first byte is read.
structure TruncatesSource (env : Environment) (fs : FileSystem) (source destination : Bytes) : Prop where
  opens    : Opens env
  same     : fs.names (cString source) = fs.names (cString destination)
  nonempty : ∃ byte bytes, fs.content (cString source) = some (byte :: bytes)

theorem content_eq {path : Bytes} {file : Nat} (h : fs.names path = some file) :
    fs.content path = some (fs.contents file) := by
  rw [FileSystem.content, h]
  rfl

section Named

variable {file : Nat}

theorem copyLoop_keepsData (hf : fs.names (cString source) = some file)
    (hn : file ≠ (fs.truncate (cString destination)).2) (hl : (fs.contents file).length < fuel) :
    ∃ s, copyLoop env fuel 0 (fs.truncate (cString destination)).1 ⟨file, 0, false⟩
      ⟨(fs.truncate (cString destination)).2, []⟩ = some s ∧ KeepsData fs source destination (finish env s) := by
  have hcontents := FileSystem.truncate_contents_of_ne hn
  have hempty := @FileSystem.truncate_contents fs (cString destination)
  have hsource := FileSystem.truncate_names_of_some (cString destination) hf
  have hdestination := @FileSystem.truncate_names fs (cString destination)
  generalize fs.truncate (cString destination) = opened at hn hcontents hempty hsource hdestination
  obtain ⟨fs', target⟩ := opened
  simp only at hn hcontents hempty hsource hdestination ⊢
  obtain ⟨s, hs, hc⟩ := @copyLoop_copies env fs' ⟨file, 0, false⟩ ⟨target, []⟩ fuel 0 hn
    (by simp [Output.written, hempty]) (by simpa [hcontents])
  have hw : OnlyWrites target fs' (finish env s).2 := hc.onlyWrites.trans (hc.file ▸ finish_onlyWrites s)
  refine ⟨s, hs, ?_, ?_⟩
  case refine_1 =>
    have hother : fs'.names (cString source) ≠ some target := by
      rw [hsource]
      exact fun he => hn (Option.some.inj he)
    rw [hw.content hother, content_eq hsource, content_eq hf, hcontents]
  case refine_2 =>
    intro h
    obtain ⟨hended, herror, hcopied⟩ := finish_contents h
    rw [hc.file, hc.complete hended herror, hcontents] at hcopied
    exact ⟨_, content_eq hf, (content_eq (hw.names ▸ hdestination)).trans (congrArg some hcopied)⟩

-- The file that was the source is empty.
theorem copyLoop_of_same (hf : fs.names (cString source) = some file)
    (hd : fs.names (cString destination) = some file) :
    ∃ s, copyLoop env (fuel + 1) 0 (fs.truncate (cString destination)).1 ⟨file, 0, false⟩
      ⟨(fs.truncate (cString destination)).2, []⟩ = some s ∧
        (finish env s).2.content (cString source) = some [] ∧
        (finish env s).2.content (cString destination) = some [] := by
  have hsource := FileSystem.truncate_names_of_some (cString destination) hf
  have hdestination := FileSystem.truncate_names_of_some (cString destination) hd
  have htarget := (FileSystem.truncate_eq_iff hf).mpr hd
  have hempty := @FileSystem.truncate_contents fs (cString destination)
  rw [htarget] at hempty ⊢
  refine ⟨_, copyLoop_empty hempty, ?_⟩
  rw [finish_of_pending rfl, content_eq hsource, content_eq hdestination, hempty]
  exact ⟨rfl, rfl⟩

end Named

theorem TruncatesSource.not_neverLosesData (h : TruncatesSource env fs source destination) :
    ¬NeverLosesData env fs source destination := by
  intro hn
  have ⟨byte, bytes, hb⟩ := h.nonempty
  have ⟨result, hr, hk⟩ := hn _ (Nat.lt_succ_self _)
  rw [fileCopy_of_opens h.opens] at hr
  cases hf : fs.names (cString source)
  case none => simp [FileSystem.content, hf] at hb
  case some file =>
    have ⟨s, hs, hempty, _⟩ := @copyLoop_of_same env fs source destination
      ((fs.content (cString source)).getD []).length file hf (h.same ▸ hf)
    simp only [hf] at hr
    cases (congrArg (Option.map (finish env)) hs).symm.trans hr
    cases hempty.symm.trans (hk.unchanged.trans hb)

theorem neverLosesData_iff :
    NeverLosesData env fs source destination ↔ ¬TruncatesSource env fs source destination := by
  constructor
  case mp => exact fun h ht => ht.not_neverLosesData h
  case mpr =>
    intro ht fuel hl
    by_cases ho : Opens env
    case neg => exact ⟨_, fileCopy_of_not_opens ho, keepsData_of_unchanged⟩
    case pos =>
      rw [fileCopy_of_opens ho]
      cases hf : fs.names (cString source)
      case none => exact ⟨_, rfl, keepsData_of_unchanged⟩
      case some file =>
        have hcontent := content_eq hf
        by_cases hd : fs.names (cString destination) = some file
        case neg =>
          have hn := fun he : file = _ => hd ((FileSystem.truncate_eq_iff hf).mp he.symm)
          rw [hcontent] at hl
          have ⟨s, hs, hk⟩ := @copyLoop_keepsData env fs source destination fuel file hf hn hl
          exact ⟨_, congrArg (Option.map (finish env)) hs, hk⟩
        case pos =>
          obtain ⟨fuel, rfl⟩ := Nat.exists_eq_succ_of_ne_zero (Nat.ne_zero_of_lt hl)
          have ⟨s, hs, hsource, hdestination⟩ := @copyLoop_of_same env fs source destination fuel file hf hd
          have hnil : fs.content (cString source) = some [] := by
            cases hb : fs.contents file
            case nil => rw [hcontent, hb]
            case cons byte bytes => exact absurd ⟨ho, hf.trans hd.symm, byte, bytes, hb ▸ hcontent⟩ ht
          exact ⟨_, congrArg (Option.map (finish env)) hs, hsource.trans hnil.symm, fun _ => ⟨[], hnil, hdestination⟩⟩

-- No call fails.
def faultless : Environment where
  allocatesSource      := true
  allocatesDestination := true
  opensInput           := true
  opensOutput          := true
  round                := fun _ => ⟨none, none, 0⟩
  flushFailure         := none
  closeFailure         := none

-- The file `a` with a single byte.
def singleFile : FileSystem where
  names path    := if path = [97] then some 0 else none
  contents file := if file = 0 then [1] else []
  unused        := 1
  named h       := by
    split at h
    · cases h
      exact Nat.one_pos
    · cases h

theorem copy_onto_itself_empties : (singleFile.content [97] = some [1]) ∧
    ((fileCopy faultless singleFile [97] [97] 2).map fun (success, fs) => (success, fs.content [97])) =
      some (true, some []) ∧ ¬NeverLosesData faultless singleFile [97] [97] := by
  refine ⟨rfl, by decide, fun h => ?_⟩
  exact TruncatesSource.not_neverLosesData ⟨⟨rfl, rfl, rfl, rfl⟩, rfl, 1, [], rfl⟩ h

end Coglet.Runtime.FileCopy
