import Coglet.Lib.EscapedText
import Mathlib.Logic.Function.Basic

-- The escape sequences of string literals.
namespace Coglet.Parse.StringDecode

open EscapedText

abbrev Bytes := List UInt8

def byte (c : Char) : UInt8 :=
  c.toUInt8

def intMax : Nat :=
  2147483647

-- The value that `-1` has as an offset.
def noOffset : Nat :=
  18446744073709551615

structure StringDecodeInfo where
  ok            : Bool
  decodedLength : Nat
  invalidOffset : Nat
  invalidEscape : UInt8
deriving DecidableEq, Repr

namespace StringDecodeInfo

-- The length is an `int`. Its overflow is undefined, which is `none`.
def count (info : StringDecodeInfo) : Option StringDecodeInfo :=
  if info.decodedLength < intMax then some { info with decodedLength := info.decodedLength + 1 } else none

def fail (info : StringDecodeInfo) (offset : Nat) (escape : UInt8) : StringDecodeInfo :=
  { info with ok := false, invalidOffset := offset, invalidEscape := escape }

end StringDecodeInfo

def isEscape (c : UInt8) : Bool :=
  c = byte 'n' || c = byte 't' || c = byte 'r' || c = byte '\\' || c = byte '"' || c = byte '0'

def analyzeFrom (s : Bytes) (i : Nat) (info : StringDecodeInfo) : Option StringDecodeInfo :=
  if _h : i < s.length then
    if s[i] ≠ byte '\\' then
      info.count.bind (analyzeFrom s (i + 1))
    else if _h : i + 1 < s.length then
      if isEscape s[i + 1] then
        info.count.bind (analyzeFrom s (i + 2))
      else
        some (info.fail (i + 1) s[i + 1])
    else
      some (info.fail (i + 1 - 1) 0)
  else
    some info
termination_by s.length - i

def stringAnalyze (s : Bytes) : Option StringDecodeInfo :=
  analyzeFrom s 0 ⟨true, 0, noOffset, 0⟩

def unescape (c : UInt8) : Option UInt8 :=
  if c = byte 'n' then some (byte '\n')
  else if c = byte 't' then some (byte '\t')
  else if c = byte 'r' then some (byte '\r')
  else if c = byte '\\' then some (byte '\\')
  else if c = byte '"' then some (byte '"')
  else if c = byte '0' then some 0
  else none

-- The loop reads behind an escape without a check. A read behind the end is `none`.
def decodeFrom (s : Bytes) (i out : Nat) (dest : Nat → UInt8) : Option (Nat → UInt8) :=
  if _h : i < s.length then
    if s[i] ≠ byte '\\' then
      decodeFrom s (i + 1) (out + 1) (Function.update dest out s[i])
    else if _h : i + 1 < s.length then
      match unescape s[i + 1] with
      | some c => decodeFrom s (i + 2) (out + 1) (Function.update dest out c)
      | none   => some dest
    else
      none
  else
    some dest
termination_by s.length - i

def stringDecodeInto (s : Bytes) (dest : Nat → UInt8) : Option (StringDecodeInfo × (Nat → UInt8)) := do
  let info ← stringAnalyze s
  if !info.ok then return (info, dest)
  let dest ← decodeFrom s 0 0 dest
  return (info, dest)

-- The escapes of the language and what they stand for.
def escapes : List (Char × Char) :=
  [('n', '\n'), ('t', '\t'), ('r', '\r'), ('\\', '\\'), ('"', '"'), ('0', '\x00')]

def escapeOf (c : UInt8) : Option UInt8 :=
  (escapes.find? fun (name, _) => c = byte name).map fun (_, value) => byte value

abbrev Spells := Denotes (byte '\\') escapeOf

variable {s rest t : Bytes} {c : UInt8} {i out : Nat} {info : StringDecodeInfo} {dest : Nat → UInt8} {o : Option Nat}

theorem unescape_eq (c : UInt8) : unescape c = escapeOf c := by
  unfold unescape
  split_ifs with hn ht hr hb hq hz
  · rw [hn]
    decide
  · rw [ht]
    decide
  · rw [hr]
    decide
  · rw [hb]
    decide
  · rw [hq]
    decide
  · rw [hz]
    decide
  · simp only [escapeOf, escapes, List.find?_cons, hn, ht, hr, hb, hq, hz, decide_false, List.find?_nil, Option.map_none]

theorem isEscape_eq (c : UInt8) : isEscape c = (escapeOf c).isSome := by
  rw [← unescape_eq]
  unfold isEscape unescape
  split_ifs <;> simp [*]

theorem drop_cons (h : s.drop i = c :: rest) : ∃ hi : i < s.length, s[i] = c ∧ s.drop (i + 1) = rest := by
  have hi : i < s.length := by
    apply Nat.lt_of_not_le
    intro hl
    cases (List.drop_eq_nil_of_le hl).symm.trans h
  rw [List.drop_eq_getElem_cons hi] at h
  cases h
  exact ⟨hi, rfl, rfl⟩

section Analyze

theorem analyzeFrom_nil (h : s.drop i = []) : analyzeFrom s i info = some info := by
  rw [analyzeFrom, dif_neg (Nat.not_lt.mpr (List.drop_eq_nil_iff.mp h))]

theorem analyzeFrom_plain (h : s.drop i = c :: rest) (hc : c ≠ byte '\\') :
    analyzeFrom s i info = info.count.bind (analyzeFrom s (i + 1)) := by
  obtain ⟨hi, rfl, _⟩ := drop_cons h
  rw [analyzeFrom, dif_pos hi, if_pos hc]

theorem analyzeFrom_unfinished (h : s.drop i = [byte '\\']) : analyzeFrom s i info = some (info.fail i 0) := by
  have ⟨hi, hc, hr⟩ := drop_cons h
  rw [analyzeFrom, dif_pos hi, if_neg (not_not.mpr hc), dif_neg (Nat.not_lt.mpr (List.drop_eq_nil_iff.mp hr)),
    Nat.add_sub_cancel]

theorem analyzeFrom_escape (h : s.drop i = byte '\\' :: c :: rest) : analyzeFrom s i info =
    if isEscape c then info.count.bind (analyzeFrom s (i + 2)) else some (info.fail (i + 1) c) := by
  have ⟨hi, hc, hr⟩ := drop_cons h
  obtain ⟨hi', rfl, _⟩ := drop_cons hr
  rw [analyzeFrom, dif_pos hi, if_neg (not_not.mpr hc), dif_pos hi']

-- The counter and the position after the part that has been read.
structure Analyzed (i : Nat) (info : StringDecodeInfo) (t : Bytes) (o : Option Nat) (info' : StringDecodeInfo) : Prop where
  length : info'.decodedLength = info.decodedLength + t.length
  valid  : o = none → info'.ok = info.ok
  stops  : ∀ p, o = some p → info'.ok = false ∧ info'.invalidOffset = i + p

theorem count_eq_some (h : info.decodedLength < intMax) :
    info.count = some { info with decodedLength := info.decodedLength + 1 } :=
  if_pos h

theorem count_eq_none (h : intMax ≤ info.decodedLength) : info.count = none :=
  if_neg (Nat.not_lt.mpr h)

theorem Analyzed.count {k : Nat} {info' : StringDecodeInfo}
    (h : Analyzed (i + k) { info with decodedLength := info.decodedLength + 1 } t o info') :
    Analyzed i info (c :: t) (o.map (· + k)) info' where
  length := by
    rw [h.length, List.length_cons]
    exact Nat.add_right_comm ..
  valid ho := h.valid (Option.map_eq_none_iff.mp ho)
  stops p hp := by
    obtain ⟨q, rfl, rfl⟩ := Option.map_eq_some_iff.mp hp
    have ⟨hok, hq⟩ := h.stops q rfl
    exact ⟨hok, by omega⟩

-- The counter does not overflow, or there is no result.
def Results (run : Option StringDecodeInfo) (i : Nat) (info : StringDecodeInfo) (t : Bytes) (o : Option Nat) : Prop :=
  if info.decodedLength + t.length ≤ intMax then ∃ info', run = some info' ∧ Analyzed i info t o info' else run = none

theorem Results.count {k : Nat} (h : ∀ info : StringDecodeInfo, info.decodedLength ≤ intMax →
    Results (analyzeFrom s (i + k) info) (i + k) info t o) :
    Results (info.count.bind (analyzeFrom s (i + k))) i info (c :: t) (o.map (· + k)) := by
  unfold Results at h ⊢
  rw [List.length_cons]
  by_cases hl : info.decodedLength < intMax
  case neg =>
    rw [if_neg (by omega), count_eq_none (Nat.le_of_not_lt hl)]
    rfl
  case pos =>
    have hn := h { info with decodedLength := info.decodedLength + 1 } hl
    rw [count_eq_some hl, Option.bind_some]
    rw [Nat.add_right_comm, Nat.add_assoc] at hn
    split
    case isTrue ht =>
      rw [if_pos ht] at hn
      have ⟨info', hr, ha⟩ := hn
      exact ⟨info', hr, ha.count⟩
    case isFalse ht =>
      rw [if_neg ht] at hn
      exact hn

theorem Results.pure {info' : StringDecodeInfo} (hl : info.decodedLength ≤ intMax) (h : Analyzed i info [] o info') :
    Results (some info') i info [] o := by
  rw [Results, if_pos (by simpa)]
  exact ⟨_, rfl, h⟩

theorem analyzeFrom_results (h : Reads (byte '\\') escapeOf (s.drop i) t o) (hl : info.decodedLength ≤ intMax) :
    Results (analyzeFrom s i info) i info t o := by
  generalize hs : s.drop i = rest at h
  induction h generalizing i info
  case nil =>
    rw [analyzeFrom_nil hs]
    exact .pure hl ⟨rfl, fun _ => rfl, fun _ hp => nomatch hp⟩
  case plain hc _ hi =>
    have ⟨_, _, hr⟩ := drop_cons hs
    rw [analyzeFrom_plain hs hc]
    exact .count fun _ hl => hi hl hr
  case escape c _ _ _ _ he _ hi =>
    have ⟨_, _, hr⟩ := drop_cons hs
    have ⟨_, _, hr⟩ := drop_cons hr
    have hc : isEscape c = true := by rw [isEscape_eq, he, Option.isSome_some]
    rw [analyzeFrom_escape hs, if_pos hc]
    exact .count fun _ hl => hi hl hr
  case unfinished =>
    rw [analyzeFrom_unfinished hs]
    exact .pure hl ⟨rfl, (nomatch ·), fun _ hp => Option.some.inj hp ▸ ⟨rfl, rfl⟩⟩
  case unknown c _ hn =>
    have hc : isEscape c ≠ true := by simp [isEscape_eq, hn]
    rw [analyzeFrom_escape hs, if_neg hc]
    exact .pure hl ⟨rfl, (nomatch ·), fun _ hp => Option.some.inj hp ▸ ⟨rfl, rfl⟩⟩

end Analyze

section Decode

-- The bytes stored from a position on.
def store (dest : Nat → UInt8) (out : Nat) : Bytes → Nat → UInt8
  | []     => dest
  | c :: t => store (Function.update dest out c) (out + 1) t

theorem store_apply (t : Bytes) (dest : Nat → UInt8) (out j : Nat) :
    store dest out t j = if out ≤ j then t[j - out]?.getD (dest j) else dest j := by
  induction t generalizing dest out
  case nil => simp [store]
  case cons c t hi =>
    rw [store, hi, Function.update_apply]
    rcases Nat.lt_trichotomy j out with h | rfl | h
    · simp [Nat.not_le.mpr h, Nat.not_le.mpr (Nat.lt_succ_of_lt h), Nat.ne_of_lt h]
    · simp [Nat.not_succ_le_self]
    · have hj : j - out = j - (out + 1) + 1 := by omega
      simp [Nat.le_of_lt h, Nat.succ_le_of_lt h, Nat.ne_of_gt h, hj]

theorem decodeFrom_nil (h : s.drop i = []) : decodeFrom s i out dest = some dest := by
  rw [decodeFrom, dif_neg (Nat.not_lt.mpr (List.drop_eq_nil_iff.mp h))]

theorem decodeFrom_plain (h : s.drop i = c :: rest) (hc : c ≠ byte '\\') :
    decodeFrom s i out dest = decodeFrom s (i + 1) (out + 1) (Function.update dest out c) := by
  obtain ⟨hi, rfl, _⟩ := drop_cons h
  rw [decodeFrom, dif_pos hi, if_pos hc]

theorem decodeFrom_escape {d : UInt8} (h : s.drop i = byte '\\' :: c :: rest) (hd : escapeOf c = some d) :
    decodeFrom s i out dest = decodeFrom s (i + 2) (out + 1) (Function.update dest out d) := by
  have ⟨hi, hc, hr⟩ := drop_cons h
  obtain ⟨hi', rfl, _⟩ := drop_cons hr
  rw [decodeFrom, dif_pos hi, if_neg (not_not.mpr hc), dif_pos hi', unescape_eq, hd]

theorem decodeFrom_eq_store (h : Spells (s.drop i) t) : decodeFrom s i out dest = some (store dest out t) := by
  generalize hs : s.drop i = rest at h
  induction h generalizing i out dest
  case nil => exact decodeFrom_nil hs
  case plain hc _ hi =>
    have ⟨_, _, hr⟩ := drop_cons hs
    rw [decodeFrom_plain hs hc, hi hr, store]
  case escape he _ hi =>
    have ⟨_, _, hr⟩ := drop_cons hs
    have ⟨_, _, hr⟩ := drop_cons hr
    rw [decodeFrom_escape hs he, hi hr, store]

end Decode

-- What the two functions make of a byte sequence.
structure Correct (s : Bytes) (info : StringDecodeInfo) : Prop where
  ok        : info.ok ↔ ∃ t, Spells s t
  length    : ∀ t, Spells s t → info.decodedLength = t.length
  offset    : info.ok = false → FirstOffending (byte '\\') escapeOf s info.invalidOffset
  decoded   : ∀ t, Spells s t → ∀ dest, ∃ dest', stringDecodeInto s dest = some (info, dest') ∧
    ∀ j, dest' j = t[j]?.getD (dest j)
  untouched : info.ok = false → ∀ dest, stringDecodeInto s dest = some (info, dest)

def Agrees (s : Bytes) : Prop :=
  ∃ info, stringAnalyze s = some info ∧ Correct s info

-- No part from the start denotes more bytes than the counter counts.
def Fits (s : Bytes) : Prop :=
  ∀ part t, part <+: s → Spells part t → t.length ≤ intMax

theorem stringAnalyze_results (h : Reads (byte '\\') escapeOf s t o) :
    Results (stringAnalyze s) 0 ⟨true, 0, noOffset, 0⟩ t o :=
  analyzeFrom_results h (Nat.zero_le _)

theorem Agrees.fits (h : Agrees s) : Fits s := by
  intro part u hp hd
  have ⟨info, hs, _⟩ := h
  have ⟨t, o, hr⟩ := @exists_reads _ (byte '\\') escapeOf s
  have ha := stringAnalyze_results hr
  rw [Results, Nat.zero_add] at ha
  split at ha
  case isTrue hl => exact Nat.le_trans (hr.length_le hp hd) hl
  case isFalse => cases ha.symm.trans hs

theorem correct_of_denotes {info : StringDecodeInfo} (hs : stringAnalyze s = some info) (hok : info.ok = true)
    (hl : info.decodedLength = t.length) (hd : Spells s t) : Correct s info where
  ok         := iff_of_true hok ⟨t, hd⟩
  length _ h := hd.unique h ▸ hl
  offset h   := nomatch hok.symm.trans h
  decoded u hu dest := by
    refine ⟨store dest 0 u, ?_, fun j => store_apply u dest 0 j⟩
    rw [stringDecodeInto, hs]
    simp [hok, decodeFrom_eq_store (i := 0) hu]
  untouched h := nomatch hok.symm.trans h

theorem correct_of_offends {info : StringDecodeInfo} (hs : stringAnalyze s = some info) (hok : info.ok = false)
    (ho : FirstOffending (byte '\\') escapeOf s info.invalidOffset) (hn : ∀ t, ¬Spells s t) : Correct s info where
  ok         := by simp [hok, hn]
  length t h := absurd h (hn t)
  offset _   := ho
  decoded t h := absurd h (hn t)
  untouched _ dest := by
    rw [stringDecodeInto, hs]
    simp [hok]

theorem correct_of_analyze {info : StringDecodeInfo} (hs : stringAnalyze s = some info) : Correct s info := by
  have ⟨t, o, h⟩ := @exists_reads _ (byte '\\') escapeOf s
  have hr := stringAnalyze_results h
  rw [Results, hs] at hr
  split at hr
  case isFalse => cases hr
  case isTrue =>
    obtain ⟨_, ⟨⟩, ha⟩ := hr
    cases o
    case none => exact correct_of_denotes hs (ha.valid rfl) (ha.length.trans (Nat.zero_add _)) h.denotes
    case some p =>
      have ⟨hok, hp⟩ := ha.stops p rfl
      rw [Nat.zero_add] at hp
      exact correct_of_offends hs hok (hp ▸ h.firstOffending ⟨byte 'n', byte '\n', by decide⟩) fun _ => h.not_denotes

theorem exists_analyze (h : Fits s) : ∃ info, stringAnalyze s = some info := by
  have ⟨t, o, hr⟩ := @exists_reads _ (byte '\\') escapeOf s
  have ⟨part, hp, hd⟩ := hr.part
  have ha := stringAnalyze_results hr
  rw [Results, Nat.zero_add, if_pos (h part t hp hd)] at ha
  have ⟨info, hs, _⟩ := ha
  exact ⟨info, hs⟩

theorem agrees_iff : Agrees s ↔ Fits s := by
  constructor
  case mp => exact Agrees.fits
  case mpr =>
    intro h
    have ⟨info, hs⟩ := exists_analyze h
    exact ⟨info, hs, correct_of_analyze hs⟩

-- One byte more than the counter counts.
theorem overlong_disagrees : ¬Agrees (List.replicate 2147483648 (byte 'a')) := by
  intro h
  have hl := h.fits _ _ List.prefix_rfl (denotes_replicate (by decide) 2147483648)
  rw [List.length_replicate] at hl
  exact absurd hl (by decide)

example : stringAnalyze [byte 'a', byte '\\', byte 'n'] = some ⟨true, 2, noOffset, 0⟩ := by decide +kernel

section Initializer

inductive InitializerError
  | invalidEscape (escape : UInt8)
  | unterminatedEscape
  | arraySize (required : Nat) (actual : Int)
deriving DecidableEq, Repr

-- The part of `check_string_initializer` for an array of bytes. The array also holds a NUL.
def checkStringInitializer (arraySize : Int) (s : Bytes) : Option (Except InitializerError Unit) := do
  let info ← stringAnalyze s
  if !info.ok then
    return .error (if info.invalidEscape ≠ 0 then .invalidEscape info.invalidEscape else .unterminatedEscape)
  let requiredSize : Nat ← info.count.map fun next => next.decodedLength
  if arraySize ≠ requiredSize then
    return .error (.arraySize requiredSize arraySize)
  return .ok ()

theorem checkStringInitializer_of_analyze {arraySize : Int} (hs : stringAnalyze s = some info) (hok : info.ok = true)
    (hl : info.decodedLength < intMax) : checkStringInitializer arraySize s = some (.ok ()) ↔
      arraySize = info.decodedLength + 1 := by
  rw [checkStringInitializer, hs]
  simp [hok, count_eq_some hl]

theorem checkStringInitializer_ok_iff {arraySize : Int} : checkStringInitializer arraySize s = some (.ok ()) ↔
    ∃ t, Spells s t ∧ t.length < intMax ∧ arraySize = t.length + 1 := by
  constructor
  case mp =>
    intro h
    obtain ⟨info, hs, hi⟩ := Option.bind_eq_some_iff.mp h
    have hc := correct_of_analyze hs
    cases hok : info.ok
    case false => simp [hok] at hi
    case true =>
      obtain ⟨t, ht⟩ := hc.ok.mp hok
      by_cases hl : info.decodedLength < intMax
      case neg => simp [hok, count_eq_none (Nat.le_of_not_lt hl)] at hi
      case pos =>
        have he := (checkStringInitializer_of_analyze hs hok hl).mp h
        rw [hc.length t ht] at hl he
        exact ⟨t, ht, hl, he⟩
  case mpr =>
    rintro ⟨t, ht, hl, he⟩
    have hf : Fits s := fun _ _ hp hd => Nat.le_trans (ht.reads.length_le hp hd) (Nat.le_of_lt hl)
    obtain ⟨info, hs⟩ := exists_analyze hf
    have hc := correct_of_analyze hs
    rw [← hc.length t ht] at hl he
    exact (checkStringInitializer_of_analyze hs (hc.ok.mpr ⟨t, ht⟩) hl).mpr he

end Initializer

end Coglet.Parse.StringDecode
