import Coglet.Parse.LexerRun

-- The tokens of a source do not depend on what separates them, as long as something does.

namespace Coglet.Parse

-- A text in front of which every token ends.
def Delimits (s : Text) : Prop :=
  ∀ c ∈ s.head?, isBlank c

-- A kind of character that no blank is.
def Solid (p : Char → Bool) : Prop :=
  ∀ c, isBlank c → p c = false

-- Two texts that are read in step: where the first continues with `rest`, the second continues with `stop`.
def InStep (rest stop s s' : Text) : Prop :=
  ∃ u, s = u ++ rest ∧ s' = u ++ stop

-- The second scan returns the token of the first one, unless that is erroneous or reaches into `rest`.
def Agree (rest stop : Text) (scan scan' : Token × Lexer) : Prop :=
  scan.1.type ≠ .error → rest.length ≤ scan.2.current.length →
    scan'.1.type = scan.1.type ∧ InStep rest stop scan.2.current scan'.2.current

section Reading

variable {rest stop s s' : Text} {lx lx' : Lexer} {p : Char → Bool} {start start' : Text}

theorem solid_of_blanks (h : [' ', '\t', '\r', '\n'].all (!p ·)) : Solid p := by
  intro c hc
  simp only [List.all_cons, List.all_nil, Bool.and_true, Bool.and_eq_true, Bool.not_eq_true'] at h
  simp only [isBlank, Bool.or_eq_true, beq_iff_eq] at hc
  obtain ⟨h₁, h₂, h₃, h₄⟩ := h
  rcases hc with ((rfl | rfl) | rfl) | rfl
  · exact h₁
  · exact h₂
  · exact h₃
  · exact h₄

theorem Delimits.not_any (hs : Delimits stop) (hp : Solid p) : stop.head?.any p = false := by
  cases stop
  case nil => rfl
  case cons c stop => exact hp c (hs c rfl)

theorem delimits_cons {c : Char} (h : isBlank c) : Delimits (c :: s) := by
  rintro _ ⟨⟩
  exact h

theorem InStep.dropWhile (hs : Delimits stop) (hp : Solid p) (h : InStep rest stop s s') :
    (s.dropWhile p).length < rest.length ∨
      InStep rest stop (s.dropWhile p) (s'.dropWhile p) ∧ s.takeWhile p = s'.takeWhile p := by
  obtain ⟨u, rfl, rfl⟩ := h
  induction u
  case nil =>
    have hd : stop.dropWhile p = stop ∧ stop.takeWhile p = [] := by
      cases stop
      case nil => exact ⟨rfl, rfl⟩
      case cons c stop => simp [hp c (hs c rfl)]
    simp only [List.nil_append, hd]
    cases rest
    case nil => exact .inr ⟨⟨[], rfl, rfl⟩, rfl⟩
    case cons c rest =>
      by_cases hc : p c
      case pos =>
        refine .inl ?_
        rw [List.dropWhile_cons_of_pos hc]
        exact Nat.lt_succ_of_le (List.dropWhile_suffix p).length_le
      case neg => exact .inr ⟨⟨[], by simp [hc], rfl⟩, by simp [hc]⟩
  case cons c u ih =>
    by_cases hc : p c
    case pos =>
      simp only [List.cons_append, List.dropWhile_cons_of_pos hc, List.takeWhile_cons_of_pos hc]
      exact ih.imp_right fun h => ⟨h.1, congrArg (c :: ·) h.2⟩
    case neg => exact .inr ⟨⟨c :: u, by simp [hc], by simp [hc]⟩, by simp [hc]⟩

theorem InStep.skipWhile (hs : Delimits stop) (hp : Solid p) (h : InStep rest stop lx.current lx'.current) :
    (lx.skipWhile p).current.length < rest.length ∨
      InStep rest stop (lx.skipWhile p).current (lx'.skipWhile p).current :=
  (h.dropWhile hs hp).imp_right And.left

theorem InStep.advanceIf (hs : Delimits stop) (hp : Solid p) (h : InStep rest stop lx.current lx'.current) :
    (if lx.peekIs p then lx.advance else lx).current.length < rest.length ∨
      InStep rest stop (if lx.peekIs p then lx.advance else lx).current
        (if lx'.peekIs p then lx'.advance else lx').current := by
  obtain ⟨u, hu, hu'⟩ := h
  cases u
  case nil =>
    have hn : lx'.peekIs p = false := by
      rw [Lexer.peekIs, Lexer.peek, hu']
      exact hs.not_any hp
    by_cases hc : lx.peekIs p
    case pos =>
      refine .inl ?_
      cases rest
      case nil => simp [Lexer.peekIs, Lexer.peek, hu] at hc
      case cons c rest => simp [hc, Lexer.advance, hu]
    case neg =>
      rw [hn, if_neg hc, if_neg Bool.false_ne_true]
      exact .inr ⟨[], hu, hu'⟩
  case cons c u =>
    have he : lx.peekIs p = lx'.peekIs p := by simp [Lexer.peekIs, Lexer.peek, hu, hu']
    rw [he]
    cases lx'.peekIs p
    case false => exact .inr ⟨c :: u, hu, hu'⟩
    case true => exact .inr ⟨u, by simp [Lexer.advance, hu], by simp [Lexer.advance, hu']⟩

end Reading

namespace Agree

variable {rest stop s : Text} {lx lx' : Lexer} {p : Char → Bool} {start start' : Text} {x x' y y' : Token × Lexer}

theorem scanError {message : String} : Agree rest stop (lx.scanError start message) x' :=
  fun he => absurd rfl he

theorem errorToken {length : Nat} {message : String} : Agree rest stop (lx.errorToken start length message) x' :=
  fun he => absurd rfl he

theorem makeToken {type : TokenType} (h : InStep rest stop lx.current lx'.current) :
    Agree rest stop (lx.makeToken type start) (lx'.makeToken type start') :=
  fun _ _ => ⟨rfl, h⟩

-- Whatever follows, the scan has gone too far.
theorem past (hs : s.length < rest.length) (h : x.2.current <:+ s) : Agree rest stop x x' :=
  fun _ hl => absurd (hl.trans h.length_le) (Nat.not_le_of_lt hs)

theorem after {s' : Text} (h : s.length < rest.length ∨ InStep rest stop s s') (hx : x.2.current <:+ s)
    (ha : InStep rest stop s s' → Agree rest stop x x') : Agree rest stop x x' :=
  h.elim (fun hs => past hs hx) ha

theorem ite {c : Prop} [Decidable c] (hx : Agree rest stop x x') (hy : Agree rest stop y y') :
    Agree rest stop (if c then x else y) (if c then x' else y') := by
  split
  · exact hx
  · exact hy

-- If only the first scan finds a character, then it is one of `rest`.
theorem peek (hs : Delimits stop) (hp : Solid p) (h : InStep rest stop lx.current lx'.current)
    (hd : lx.peekIs p → x.1.type = .error ∨ x.2.current <:+ lx.advance.current)
    (hx : InStep rest stop lx.advance.current lx'.advance.current → Agree rest stop x x')
    (hy : Agree rest stop y y') :
    Agree rest stop (if lx.peekIs p then x else y) (if lx'.peekIs p then x' else y') := by
  obtain ⟨u, hu, hu'⟩ := h
  cases u
  case nil =>
    have hn : lx'.peekIs p = false := by
      rw [Lexer.peekIs, Lexer.peek, hu']
      exact hs.not_any hp
    rw [hn, if_neg Bool.false_ne_true]
    by_cases hc : lx.peekIs p
    case neg => rwa [if_neg hc]
    case pos =>
      rw [if_pos hc]
      refine (hd hc).elim (fun he hn => absurd he hn) (past ?_)
      cases rest
      case nil => simp [Lexer.peekIs, Lexer.peek, hu] at hc
      case cons c rest => simp [Lexer.advance, hu]
  case cons c u =>
    have he : lx.peekIs p = lx'.peekIs p := by simp [Lexer.peekIs, Lexer.peek, hu, hu']
    rw [he]
    exact ite (hx ⟨u, by simp [Lexer.advance, hu], by simp [Lexer.advance, hu']⟩) hy

-- The scan fails unless there is such a character.
theorem require (hs : Delimits stop) (hp : Solid p) (h : InStep rest stop lx.current lx'.current)
    (hd : lx.peekIs p → x.2.current <:+ lx.advance.current) (hx : Agree rest stop x x') (hy : y.1.type = .error) :
    Agree rest stop (if !lx.peekIs p then y else x) (if !lx'.peekIs p then y' else x') := by
  have hy : Agree rest stop y y' := fun he => absurd hy he
  have ha : Agree rest stop (if lx.peekIs p then x else y) (if lx'.peekIs p then x' else y') :=
    peek hs hp h (fun hc => .inr (hd hc)) (fun _ => hx) hy
  simpa [Bool.not_eq_true', ← Bool.not_eq_true] using ha

end Agree

-- The parts of the scans of numbers behind a choice that is made on the way.

def endNumber (lx : Lexer) (start : Text) (type : TokenType) (message : String) : Token × Lexer :=
  if lx.peekIs isWordChar then (lx.skipWhile isWordChar).scanError start message else lx.makeToken type start

def hexExponentDigits (lx : Lexer) (start : Text) : Token × Lexer :=
  if !lx.peekIs isDigit then
    (lx.skipWhile isWordChar).scanError start "expected digits after hexadecimal floating-point exponent"
  else
    endNumber (lx.skipWhile isDigit) start .numberFloat "invalid digit in hexadecimal floating-point literal"

def hexEnd (lx : Lexer) (start : Text) (sawPoint : Bool) (digits : Nat) : Token × Lexer :=
  if digits = 0 then
    (lx.skipWhile fun c => isWordChar c || c == '.').scanError start "expected hexadecimal digits after prefix"
  else if lx.peekIs fun c => c == 'p' || c == 'P' then
    scanHexExponent lx start
  else if sawPoint then
    (lx.skipWhile isWordChar).scanError start "expected p/P exponent in hexadecimal floating-point literal"
  else
    endNumber lx start .numberInt "invalid digit in hexadecimal integer literal"

def hexPoint (lx : Lexer) (start : Text) (wholeDigits : Nat) : Token × Lexer :=
  let isHexDigit := isIntegerDigitForRadix 16
  if lx.peekIs (· == '.') then
    hexEnd (lx.advance.skipWhile isHexDigit) start Bool.true
      (wholeDigits + (lx.advance.current.takeWhile isHexDigit).length)
  else
    hexEnd lx start Bool.false wholeDigits

def prefixedDigits (lx : Lexer) (start : Text) (radix : Nat) (missingDigits invalidDigit : String) : Token × Lexer :=
  if (lx.current.takeWhile (isIntegerDigitForRadix radix)).length = 0 then
    ((lx.skipWhile (isIntegerDigitForRadix radix)).skipWhile isWordChar).scanError start missingDigits
  else
    endNumber (lx.skipWhile (isIntegerDigitForRadix radix)) start .numberInt invalidDigit

def decimalExponentDigits (lx : Lexer) (start : Text) : Token × Lexer :=
  if !lx.peekIs isDigit then
    lx.scanError start "expected digits after exponent"
  else
    (lx.skipWhile isDigit).makeToken .numberFloat start

def decimalPoint (lx : Lexer) (start : Text) : Token × Lexer :=
  if lx.peekIs (· == '.') && lx.advance.peekIs isDigit then
    scanDecimalExponent (lx.advance.skipWhile isDigit) start Bool.true
  else
    scanDecimalExponent lx start Bool.false

section Scans

variable {rest stop start start' s : Text} {lx lx' : Lexer} {p : Char → Bool} {type : TokenType} {message : String}
  {y : Token × Lexer} {sawPoint isFloat : Bool} {digits radix : Nat} {missingDigits invalidDigit : String}

theorem scanHexNumber_eq : scanHexNumber lx start = hexPoint (lx.advance.skipWhile (isIntegerDigitForRadix 16)) start
    (lx.advance.current.takeWhile (isIntegerDigitForRadix 16)).length := by
  cases h : (lx.advance.skipWhile (isIntegerDigitForRadix 16)).peekIs (· == '.') <;>
    simp [scanHexNumber, hexPoint, hexEnd, endNumber, h]

theorem solid_wordChar : Solid isWordChar :=
  solid_of_blanks (by decide)

theorem solid_digit : Solid isDigit :=
  solid_of_blanks (by decide)

theorem solid_sign : Solid fun c => c == '+' || c == '-' :=
  solid_of_blanks (by decide)

theorem solid_radix : Solid (isIntegerDigitForRadix radix) :=
  solid_of_blanks (by simp [isIntegerDigitForRadix, integerDigitValue])

theorem skipWhile_advance (h : lx.peekIs p) : (lx.skipWhile p).current <:+ lx.advance.current := by
  unfold Lexer.peekIs Lexer.peek at h
  unfold Lexer.skipWhile Lexer.advance
  cases hc : lx.current
  case nil => simp [hc] at h
  case cons c s =>
    rw [hc] at h
    have h : p c := h
    simp only [List.dropWhile_cons_of_pos h]
    exact List.dropWhile_suffix p

theorem endNumber_suffix : (endNumber lx start type message).2.current <:+ lx.current := by
  unfold endNumber
  split
  · exact Lexer.skipWhile_suffix
  · exact List.suffix_rfl

theorem endNumber_agree (hs : Delimits stop) (h : InStep rest stop lx.current lx'.current) :
    Agree rest stop (endNumber lx start type message) (endNumber lx' start' type message) :=
  .peek hs solid_wordChar h (fun _ => .inl rfl) (fun _ => .scanError) (.makeToken h)

theorem hexExponentDigits_suffix : (hexExponentDigits lx start).2.current <:+ lx.current := by
  unfold hexExponentDigits
  split
  · exact Lexer.skipWhile_suffix
  · exact endNumber_suffix.trans Lexer.skipWhile_suffix

theorem hexExponentDigits_agree (hs : Delimits stop) (h : InStep rest stop lx.current lx'.current) :
    Agree rest stop (hexExponentDigits lx start) (hexExponentDigits lx' start') :=
  .require hs solid_digit h (fun hc => endNumber_suffix.trans (skipWhile_advance hc))
    (.after (h.skipWhile hs solid_digit) endNumber_suffix (endNumber_agree hs)) rfl

theorem scanHexExponent_suffix : (scanHexExponent lx start).2.current <:+ lx.advance.current :=
  hexExponentDigits_suffix.trans sign_suffix

theorem scanHexExponent_agree (hs : Delimits stop) (h : InStep rest stop lx.advance.current lx'.advance.current) :
    Agree rest stop (scanHexExponent lx start) (scanHexExponent lx' start') :=
  .after (h.advanceIf hs solid_sign) hexExponentDigits_suffix (hexExponentDigits_agree hs)

theorem hexEnd_suffix : (hexEnd lx start sawPoint digits).2.current <:+ lx.current := by
  unfold hexEnd
  split
  · exact Lexer.skipWhile_suffix
  · split
    · exact scanHexExponent_suffix.trans Lexer.advance_suffix
    · split
      · exact Lexer.skipWhile_suffix
      · exact endNumber_suffix

theorem hexEnd_agree (hs : Delimits stop) (h : InStep rest stop lx.current lx'.current) :
    Agree rest stop (hexEnd lx start sawPoint digits) (hexEnd lx' start' sawPoint digits) :=
  .ite .scanError (.peek hs (solid_of_blanks (by decide)) h (fun _ => .inr scanHexExponent_suffix)
    (scanHexExponent_agree hs) (.ite .scanError (endNumber_agree hs h)))

theorem hexPoint_suffix : (hexPoint lx start digits).2.current <:+ lx.current := by
  unfold hexPoint
  split
  · exact hexEnd_suffix.trans (Lexer.skipWhile_suffix.trans Lexer.advance_suffix)
  · exact hexEnd_suffix

theorem hexPoint_agree (hs : Delimits stop) (h : InStep rest stop lx.current lx'.current) :
    Agree rest stop (hexPoint lx start digits) (hexPoint lx' start' digits) := by
  refine .peek hs (solid_of_blanks (by decide)) h (fun _ => .inr (hexEnd_suffix.trans Lexer.skipWhile_suffix))
    (fun ha => ?_) (hexEnd_agree hs h)
  refine (ha.dropWhile hs solid_radix).elim (fun hl => .past hl hexEnd_suffix) fun hd => ?_
  rw [hd.2]
  exact hexEnd_agree hs hd.1

theorem scanHexNumber_suffix : (scanHexNumber lx start).2.current <:+ lx.advance.current :=
  scanHexNumber_eq ▸ hexPoint_suffix.trans Lexer.skipWhile_suffix

theorem scanHexNumber_agree (hs : Delimits stop) (h : InStep rest stop lx.advance.current lx'.advance.current) :
    Agree rest stop (scanHexNumber lx start) (scanHexNumber lx' start') := by
  rw [scanHexNumber_eq, scanHexNumber_eq]
  refine (h.dropWhile hs solid_radix).elim (fun hl => .past hl hexPoint_suffix) fun hd => ?_
  rw [hd.2]
  exact hexPoint_agree hs hd.1

theorem prefixedDigits_suffix :
    (prefixedDigits lx start radix missingDigits invalidDigit).2.current <:+
      (lx.skipWhile (isIntegerDigitForRadix radix)).current := by
  unfold prefixedDigits
  split
  · exact Lexer.skipWhile_suffix
  · exact endNumber_suffix

theorem scanPrefixedInteger_suffix :
    (scanPrefixedInteger lx start radix missingDigits invalidDigit).2.current <:+ lx.advance.current :=
  prefixedDigits_suffix.trans Lexer.skipWhile_suffix

theorem scanPrefixedInteger_agree (hs : Delimits stop) (h : InStep rest stop lx.advance.current lx'.advance.current) :
    Agree rest stop (scanPrefixedInteger lx start radix missingDigits invalidDigit)
      (scanPrefixedInteger lx' start' radix missingDigits invalidDigit) := by
  change Agree rest stop (prefixedDigits lx.advance start radix missingDigits invalidDigit)
    (prefixedDigits lx'.advance start' radix missingDigits invalidDigit)
  refine (h.dropWhile hs solid_radix).elim (fun hl => .past hl prefixedDigits_suffix) fun hd => ?_
  unfold prefixedDigits
  rw [hd.2]
  exact .ite .scanError (endNumber_agree hs hd.1)

theorem decimalExponentDigits_suffix : (decimalExponentDigits lx start).2.current <:+ lx.current := by
  unfold decimalExponentDigits
  split
  · exact List.suffix_rfl
  · exact Lexer.skipWhile_suffix

theorem decimalExponentDigits_agree (hs : Delimits stop) (h : InStep rest stop lx.current lx'.current) :
    Agree rest stop (decimalExponentDigits lx start) (decimalExponentDigits lx' start') :=
  .require hs solid_digit h skipWhile_advance
    (.after (h.skipWhile hs solid_digit) List.suffix_rfl .makeToken) rfl

theorem scanDecimalExponent_suffix : (scanDecimalExponent lx start isFloat).2.current <:+ lx.current :=
  scanDecimalExponent_plain.suffix

theorem scanDecimalExponent_agree (hs : Delimits stop) (h : InStep rest stop lx.current lx'.current) :
    Agree rest stop (scanDecimalExponent lx start isFloat) (scanDecimalExponent lx' start' isFloat) :=
  .peek hs (solid_of_blanks (by decide)) h (fun _ => .inr (decimalExponentDigits_suffix.trans sign_suffix))
    (fun ha => .after (ha.advanceIf hs solid_sign) decimalExponentDigits_suffix (decimalExponentDigits_agree hs))
    (.makeToken h)

theorem decimalPoint_suffix : (decimalPoint lx start).2.current <:+ lx.current := by
  unfold decimalPoint
  split
  · exact scanDecimalExponent_suffix.trans (Lexer.skipWhile_suffix.trans Lexer.advance_suffix)
  · exact scanDecimalExponent_suffix

-- The point and the digit behind it are found together or not at all, as long as `rest` is not reached.
theorem decimalPoint_agree (hs : Delimits stop) (h : InStep rest stop lx.current lx'.current) :
    Agree rest stop (decimalPoint lx start) (decimalPoint lx' start') := by
  obtain ⟨u, hu, hu'⟩ := id h
  unfold decimalPoint
  cases u
  case nil =>
    have hn : lx'.peekIs (· == '.') = false := by
      rw [Lexer.peekIs, Lexer.peek, hu']
      exact hs.not_any (solid_of_blanks (by decide))
    simp only [hn, Bool.false_and, Bool.false_eq_true, if_false]
    split
    case isTrue hc =>
      refine .past ?_ (scanDecimalExponent_suffix.trans Lexer.skipWhile_suffix)
      cases rest
      case nil => simp [Lexer.peekIs, Lexer.peek, hu] at hc
      case cons c rest => simp [Lexer.advance, hu]
    case isFalse => exact scanDecimalExponent_agree hs h
  case cons c u =>
    have he : lx.peekIs (· == '.') = lx'.peekIs (· == '.') := by
      simp [Lexer.peekIs, Lexer.peek, hu, hu']
    rw [he]
    cases lx'.peekIs (· == '.')
    case false => exact scanDecimalExponent_agree hs h
    case true =>
      have ha : InStep rest stop lx.advance.current lx'.advance.current :=
        ⟨u, by simp [Lexer.advance, hu], by simp [Lexer.advance, hu']⟩
      simp only [Bool.true_and]
      exact .peek hs solid_digit ha (fun hc => .inr (scanDecimalExponent_suffix.trans (skipWhile_advance hc)))
        (fun _ => .after (ha.skipWhile hs solid_digit) scanDecimalExponent_suffix (scanDecimalExponent_agree hs))
        (scanDecimalExponent_agree hs h)

theorem scanDecimalNumber_agree (hs : Delimits stop) (h : InStep rest stop lx.current lx'.current) :
    Agree rest stop (scanDecimalNumber lx start) (scanDecimalNumber lx' start') :=
  .after (h.skipWhile hs solid_digit) decimalPoint_suffix (decimalPoint_agree hs)

theorem scanNumber_agree (hs : Delimits stop) (hh : start.head? = start'.head?)
    (h : InStep rest stop lx.current lx'.current) :
    Agree rest stop (scanNumber lx start) (scanNumber lx' start') := by
  unfold scanNumber
  rw [← hh]
  by_cases h0 : start.head? = some '0'
  case neg =>
    simp only [h0, decide_false, Bool.false_and, Bool.false_eq_true, if_false]
    exact scanDecimalNumber_agree hs h
  case pos =>
    simp only [h0, decide_true, Bool.true_and]
    exact .peek hs (solid_of_blanks (by decide)) h (fun _ => .inr scanHexNumber_suffix) (scanHexNumber_agree hs)
      (.peek hs (solid_of_blanks (by decide)) h (fun _ => .inr scanPrefixedInteger_suffix)
        (scanPrefixedInteger_agree hs)
        (.peek hs (solid_of_blanks (by decide)) h (fun _ => .inr scanPrefixedInteger_suffix)
          (scanPrefixedInteger_agree hs) (scanDecimalNumber_agree hs h)))

-- The word ends where the characters of words do.
theorem take_word {s : Text} {c : Char} :
    (c :: s).take ((c :: s).length - (s.dropWhile p).length) = c :: s.takeWhile p := by
  have hl : s.length = (s.takeWhile p).length + (s.dropWhile p).length := by
    rw [← List.length_append, List.takeWhile_append_dropWhile]
  have hn : (c :: s).length - (s.dropWhile p).length = (s.takeWhile p).length + 1 := by
    rw [List.length_cons, hl]
    omega
  rw [hn, List.take_succ_cons]
  nth_rewrite 2 [← List.takeWhile_append_dropWhile (p := p) (l := s)]
  rw [List.take_left]

theorem scanIdentifier_agree {c : Char} (hs : Delimits stop) (h : InStep rest stop lx.current lx'.current) :
    Agree rest stop (scanIdentifier lx (c :: lx.current)) (scanIdentifier lx' (c :: lx'.current)) := by
  refine (h.dropWhile hs solid_wordChar).elim (fun hl => .past hl List.suffix_rfl) fun hd => ?_
  intro _ _
  refine ⟨?_, hd.1⟩
  have hw (lx : Lexer) : (scanIdentifier lx (c :: lx.current)).1.type =
      identifierType (c :: lx.current.takeWhile isWordChar) :=
    congrArg identifierType take_word
  rw [hw, hw, hd.2]

-- How far a string goes does not depend on what is behind it.
theorem scanStringBody_local {s r : Text} (h : scanStringBody s = some r) :
    ∃ w, s = w ++ r ∧ ∀ t, scanStringBody (w ++ t) = some t := by
  fun_induction scanStringBody s with
  | case1 rest =>
    cases h
    exact ⟨['"'], rfl, fun t => rfl⟩
  | case2 c s ih =>
    obtain ⟨w, rfl, hw⟩ := ih h
    exact ⟨'\\' :: c :: w, rfl, fun t => by simp [scanStringBody, hw]⟩
  | case3 c s h₁ h₂ ih =>
    obtain ⟨w, rfl, hw⟩ := ih h
    have hb : c ≠ '\\' := by
      intro hb
      cases hc : w ++ r
      case nil => simp [hc, scanStringBody] at h
      case cons d s => exact h₂ d s hb hc
    exact ⟨c :: w, rfl, fun t => by simp [scanStringBody, hb, hw]⟩
  | case4 => cases h

theorem scanString_agree (h : InStep rest stop lx.current lx'.current) :
    Agree rest stop (scanString lx start) (scanString lx' start') := by
  obtain ⟨u, hu, hu'⟩ := h
  cases hb : scanStringBody lx.current
  case none =>
    simp only [scanString, hb]
    exact .errorToken
  case some r =>
    obtain ⟨w, hw, hl⟩ := scanStringBody_local hb
    intro _ hr
    simp only [scanString, hb, Lexer.makeToken] at hr
    obtain ⟨v, rfl⟩ : ∃ v, r = v ++ rest := by
      have hr : rest <:+ r := List.suffix_of_suffix_length_le (hu ▸ List.suffix_append u rest)
        (hw ▸ List.suffix_append w r) hr
      exact hr.imp fun _ => Eq.symm
    have hc : lx'.current = w ++ (v ++ stop) := by
      rw [hu, ← List.append_assoc, List.append_cancel_right_eq] at hw
      rw [hu', hw, List.append_assoc]
    simp only [scanString, hb, hc, hl, Lexer.makeToken]
    exact ⟨trivial, v, rfl, rfl⟩

theorem scanCharEnd_suffix : (scanCharEnd lx start).1.type = .error ∨
    (scanCharEnd lx start).2.current <:+ lx.advance.current := by
  unfold scanCharEnd
  split
  · exact .inr List.suffix_rfl
  · exact .inl rfl

theorem scanCharEnd_agree (hs : Delimits stop) (h : InStep rest stop lx.current lx'.current) :
    Agree rest stop (scanCharEnd lx start) (scanCharEnd lx' start') :=
  .peek hs (solid_of_blanks (by decide)) h (fun _ => .inr List.suffix_rfl) .makeToken .errorToken

theorem scanChar_nil (h : lx.current = []) : (scanChar lx start).1.type = .error := by
  simp only [scanChar, h]
  rfl

theorem scanChar_backslash (h : lx.current = ['\\']) : (scanChar lx start).1.type = .error := by
  simp only [scanChar, h]
  rfl

theorem scanChar_escape {c : Char} (h : lx.current = '\\' :: c :: s) :
    scanChar lx start = scanCharEnd lx.advance.advance start := by
  simp only [scanChar, h]

theorem scanChar_plainChar {c : Char} (h : lx.current = c :: s) (hc : c ≠ '\\') :
    scanChar lx start = scanCharEnd lx.advance start := by
  unfold scanChar
  split
  case h_1 hn => simp [h] at hn
  case h_2 hb => exact absurd (List.cons.inj (h.symm.trans hb)).1 hc
  case h_3 hb => exact absurd (List.cons.inj (h.symm.trans hb)).1 hc
  case h_4 => rfl

theorem advance_current {c : Char} (h : lx.current = c :: s) : lx.advance.current = s := by
  rw [Lexer.advance, h, List.tail_cons]

theorem scanCharEnd_past {c : Char} (hl : s.length < rest.length) (h : lx.current = c :: s) :
    Agree rest stop (scanCharEnd lx.advance start) y := by
  intro he
  have hc := (scanCharEnd_suffix.resolve_left he).trans Lexer.advance_suffix
  exact Agree.past hl (advance_current h ▸ hc) he

-- A literal takes a character and the closing quote, so one that begins at `rest` goes too far.
theorem scanChar_agree (hs : Delimits stop) (h : InStep rest stop lx.current lx'.current) :
    Agree rest stop (scanChar lx start) (scanChar lx' start') := by
  obtain ⟨u, hu, hu'⟩ := h
  cases u
  case nil =>
    rw [List.nil_append] at hu
    cases rest
    case nil => exact fun he => absurd (scanChar_nil hu) he
    case cons c rest =>
      by_cases hc : c = '\\'
      case neg =>
        rw [scanChar_plainChar hu hc]
        exact scanCharEnd_past (Nat.lt_succ_self _) hu
      case pos =>
        subst hc
        cases rest
        case nil => exact fun he => absurd (scanChar_backslash hu) he
        case cons d rest =>
          rw [scanChar_escape hu]
          exact scanCharEnd_past (Nat.lt_succ_of_lt (Nat.lt_succ_self _)) (advance_current hu)
  case cons c u =>
    by_cases hc : c = '\\'
    case neg =>
      rw [scanChar_plainChar hu hc, scanChar_plainChar hu' hc]
      exact scanCharEnd_agree hs ⟨u, advance_current hu, advance_current hu'⟩
    case pos =>
      subst hc
      cases u
      case nil =>
        cases rest
        case nil => exact fun he => absurd (scanChar_backslash hu) he
        case cons d rest =>
          rw [scanChar_escape hu]
          exact scanCharEnd_past (Nat.lt_succ_self _) (advance_current hu)
      case cons d u =>
        rw [scanChar_escape hu, scanChar_escape hu']
        exact scanCharEnd_agree hs ⟨u, advance_current (advance_current hu), advance_current (advance_current hu')⟩

-- The characters of an operator.
theorem operators_solid : ∀ operator ∈ operators, ∀ c ∈ operator.1.toList, isBlank c = false := by
  simp [operators, isBlank]

theorem prefix_of_delimited {op : Text} (hs : Delimits stop) (ho : ∀ c ∈ op, isBlank c = false)
    (h : op <+: s ++ stop) : op <+: s := by
  induction s generalizing op
  case nil =>
    cases op
    case nil => exact List.prefix_rfl
    case cons c op =>
      cases stop
      case nil => exact h
      case cons d stop =>
        obtain ⟨rfl, -⟩ := List.cons_prefix_cons.mp h
        exact absurd (hs c rfl) (by simp [ho c List.mem_cons_self])
  case cons d s ih =>
    cases op
    case nil => exact List.nil_prefix
    case cons c op =>
      obtain ⟨rfl, h'⟩ := List.cons_prefix_cons.mp h
      exact List.cons_prefix_cons.mpr ⟨rfl, ih (fun c hc => ho c (List.mem_cons_of_mem _ hc)) h'⟩

theorem scanOperator_agree {c : Char} (hs : Delimits stop) (h : InStep rest stop lx.current lx'.current) :
    Agree rest stop (scanOperator lx (c :: lx.current)) (scanOperator lx' (c :: lx'.current)) := by
  obtain ⟨u, hu, hu'⟩ := h
  cases hf : operators.find? (·.1.toList.isPrefixOf (c :: lx.current))
  case none =>
    simp only [scanOperator, hf]
    exact .errorToken
  case some op =>
    intro _ hr
    simp only [scanOperator, hf, Lexer.makeToken, List.length_drop] at hr
    obtain ⟨hp, before, behind, he, hn⟩ := List.find?_eq_some_iff_append.mp hf
    rw [List.isPrefixOf_iff_prefix, hu] at hp
    -- The operator ends in front of `rest`.
    have ho : op.1.toList <+: c :: u := by
      refine List.prefix_of_prefix_length_le hp (List.prefix_append (c :: u) rest) ?_
      have hl := hp.length_le
      simp only [hu, List.length_cons, List.length_append, String.length_toList] at hr hl ⊢
      omega
    have hf' : operators.find? (·.1.toList.isPrefixOf (c :: lx'.current)) = some op := by
      refine List.find?_eq_some_iff_append.mpr ⟨?_, before, behind, he, fun a ha => ?_⟩
      · rw [List.isPrefixOf_iff_prefix, hu']
        exact ho.trans (List.prefix_append (c :: u) stop)
      · have hm : a ∈ operators := he ▸ List.mem_append_left _ ha
        have hn := hn a ha
        rw [Bool.not_eq_true', ← Bool.not_eq_true, List.isPrefixOf_iff_prefix] at hn ⊢
        rw [hu] at hn
        rw [hu']
        exact fun h => hn ((prefix_of_delimited hs (operators_solid a hm) h).trans (List.prefix_append (c :: u) rest))
    obtain ⟨w, hw⟩ := ho
    have hd (t : Text) : (c :: (u ++ t)).drop op.1.length = w ++ t := by
      rw [← List.cons_append, ← hw, List.append_assoc, ← String.length_toList, List.drop_left]
    simp only [scanOperator, hf, hf', Lexer.makeToken]
    refine ⟨trivial, w, ?_, ?_⟩
    · rw [hu]
      exact hd rest
    · rw [hu']
      exact hd stop

theorem scanToken_agree {s s' : Text} {c : Char} (hs : Delimits stop) (h : InStep rest stop s s') :
    Agree rest stop (scanToken { lx with current := s } c (c :: s))
      (scanToken { lx' with current := s' } c (c :: s')) :=
  .ite (scanIdentifier_agree hs h) (.ite (scanNumber_agree hs rfl h)
    (.ite (scanString_agree h) (.ite (scanChar_agree hs h) (scanOperator_agree hs h))))

end Scans

-- What a token is apart from where it stands.
def Token.lexeme (t : Token) : TokenType × Text :=
  (t.type, t.text)

-- What a call of `lexer_next` can return besides errors and the end of the file.
def IsLexeme (lexeme : TokenType × Text) : Prop :=
  lexeme.1 ≠ .error ∧ lexeme.1 ≠ .eof ∧ ∃ lx, (lexerNext lx).1.lexeme = lexeme

-- The text of a source in which something separates the tokens, and which has gaps around them.
inductive Spaced : List (TokenType × Text) → Text → Prop
  | eof {g : Text} (gap : Gap Bool.true g) : Spaced [] g
  | token {l : TokenType × Text} {ls : List (TokenType × Text)} {g s : Text} (gap : Gap Bool.false g)
      (delimits : Delimits s) (h : Spaced ls s) : Spaced (l :: ls) (g ++ (l.2 ++ s))

section Run

variable {s t g : Text} {c d : Char} {atEnd : Bool} {lx lx' : Lexer} {ls : List (TokenType × Text)}
  {l : TokenType × Text}

-- Where the skipping has stopped there is nothing to skip.
theorem skip_idem (h : skipWhitespaceAndComments s = .ok t) : skipWhitespaceAndComments t = .ok t := by
  fun_induction skipWhitespaceAndComments s with
  | case1 _ ih => exact ih h
  | case2 => cases h
  | case3 _ _ _ ih => exact ih h
  | case4 _ _ _ _ _ ih => exact ih h
  | case5 c s h₁ h₂ hc =>
    cases h
    rw [skipWhitespaceAndComments, if_neg hc]
    · exact h₁
    · exact h₂
  | case6 =>
    cases h
    rw [skipWhitespaceAndComments]

theorem skip_gap (hg : Gap atEnd g) (he : atEnd → t = []) :
    skipWhitespaceAndComments (g ++ t) = skipWhitespaceAndComments t := by
  induction hg
  case nil => rfl
  case blank hc _ ih => rw [List.cons_append, skip_blank hc, ih]
  case lineComment body s hb _ ih =>
    have hb : ∀ c ∈ body, c != '\n' := fun c hc => bne_iff_ne.mpr fun hn => hb (hn ▸ hc)
    rw [List.append_assoc, List.cons_append, List.cons_append, List.cons_append, skip_lineComment,
      List.dropWhile_append_of_pos hb, List.dropWhile_cons_of_neg (by decide), skip_blank (by decide), ih]
  case lastComment body h hb =>
    have hb : ∀ c ∈ body, c != '\n' := fun c hc => bne_iff_ne.mpr fun hn => hb (hn ▸ hc)
    rw [he h, List.append_nil, skip_lineComment, List.dropWhile_eq_nil_iff.mpr hb]
  case blockComment body s hb _ ih =>
    rw [List.append_assoc, List.cons_append, List.cons_append, List.cons_append, List.cons_append,
      skip_blockComment (skipBlockComment_iff.mpr ⟨body, hb, rfl⟩), ih]

theorem not_isBlank_of_skip (h : skipWhitespaceAndComments (c :: s) = .ok (c :: s)) : isBlank c = false := by
  by_contra hc
  rw [skip_blank (by simpa using hc)] at h
  exact absurd (skipWhitespaceAndComments_suffix h).length_le (by simp)

theorem skip_single (h : isBlank c = false) : skipWhitespaceAndComments [c] = .ok [c] := by
  rw [skipWhitespaceAndComments, if_neg (by simp [h])]
  all_goals exact fun s _ ht => absurd ht.symm (List.cons_ne_nil _ s)

theorem not_comment_of_skip (h : skipWhitespaceAndComments ('/' :: d :: s) = .ok ('/' :: d :: s)) :
    ¬(d = '/' ∨ d = '*') := by
  rintro (rfl | rfl)
  · rw [skip_lineComment] at h
    have hl := ((skipWhitespaceAndComments_suffix h).trans (List.dropWhile_suffix _)).length_le
    simp only [List.length_cons] at hl
    omega
  · cases hb : skipBlockComment s
    case none =>
      rw [skipWhitespaceAndComments] at h
      split at h
      case h_1 => cases h
      case h_2 ht => cases hb.symm.trans ht
    case some t =>
      rw [skip_blockComment hb] at h
      have hl := ((skipWhitespaceAndComments_suffix h).trans (skipBlockComment_suffix hb)).length_le
      simp only [List.length_cons] at hl
      omega

-- Whether the skipping stops at a character depends on the next one only if a comment might begin.
theorem skip_delimited {rest stop : Text} (hs : Delimits stop)
    (h : skipWhitespaceAndComments (c :: (s ++ rest)) = .ok (c :: (s ++ rest))) :
    skipWhitespaceAndComments (c :: (s ++ stop)) = .ok (c :: (s ++ stop)) := by
  have hc : isBlank c = false := not_isBlank_of_skip h
  have hn {d : Char} {t : Text} (hd : d = '/' ∨ d = '*') (ht : s ++ stop = d :: t) (hc : c = '/') : False := by
    subst hc
    cases s
    case nil =>
      have hb : isBlank d := hs d (by rw [← List.nil_append stop, ht]; rfl)
      rcases hd with rfl | rfl <;> cases hb
    case cons e s =>
      rw [List.cons_append, List.cons.injEq] at ht
      exact not_comment_of_skip h (ht.1 ▸ hd)
  rw [skipWhitespaceAndComments, if_neg (by simp [hc])]
  · exact fun t hc ht => hn (.inl rfl) ht hc
  · exact fun t hc ht => hn (.inr rfl) ht hc

-- The scan of a token does not depend on what separates it from the rest.
theorem scanToken_delimited {r r' : Token × Lexer} (hr : r = scanToken { lx with current := s } c (c :: s))
    (he : r.1.type ≠ .error) (ht : Delimits t) (hs : s = g ++ r.2.current)
    (hr' : r' = scanToken { lx' with current := g ++ t } c (c :: (g ++ t))) :
    r'.1.lexeme = r.1.lexeme ∧ r'.2.current = t := by
  have hi : InStep r.2.current t s (g ++ t) := ⟨g, hs, rfl⟩
  have ha : Agree r.2.current t r r' := by
    rw [hr, hr']
    rw [hr] at hi
    exact scanToken_agree ht hi
  obtain ⟨hy, v, hv, hv'⟩ := ha he (Nat.le_refl _)
  have hc : r'.2.current = t := by
    rw [hv', List.append_left_eq_self.mp hv.symm, List.nil_append]
  have text {r : Token × Lexer} {lx : Lexer} {s : Text} (h : r = scanToken { lx with current := s } c (c :: s))
      (he : r.1.type ≠ .error) : c :: s = r.1.text ++ r.2.current := by
    have hl : Slices (c :: s) r := h ▸ scanToken_slices
    have hs : r.2.current <:+ s := h ▸ scanToken_suffix
    exact hl.text_append (hs.trans (List.suffix_cons c s)) he
  have hx : r.1.text = c :: g := by
    have := text hr he
    rw [hs, ← List.cons_append, List.append_cancel_right_eq] at this
    exact this.symm
  have hx' : r'.1.text = c :: g := by
    have := text hr' (hy ▸ he)
    rw [hc, ← List.cons_append, List.append_cancel_right_eq] at this
    exact this.symm
  exact ⟨Prod.ext hy (hx'.trans hx.symm), hc⟩

-- Behind a gap, the text of a token is read again as the same token.
theorem lexerNext_delimited (hl : IsLexeme l) (hg : Gap Bool.false g) (hs : Delimits s)
    (hc : lx.current = g ++ (l.2 ++ s)) : (lexerNext lx).1.lexeme = l ∧ (lexerNext lx).2.current = s := by
  obtain ⟨hn, he, lx₀, rfl⟩ := hl
  cases hk : skipWhitespaceAndComments lx₀.current
  case error comment => exact absurd (by rw [Token.lexeme, lexerNext, hk]; rfl) hn
  case ok t =>
    cases t
    case nil => exact absurd (by rw [Token.lexeme, lexerNext, hk]) he
    case cons c t =>
      have h₀ : lexerNext lx₀ = scanToken { lx₀ with current := t } c (c :: t) := by rw [lexerNext, hk]
      obtain ⟨u, hu⟩ : (lexerNext lx₀).2.current <:+ t := h₀ ▸ scanToken_suffix
      have hx : c :: t = (lexerNext lx₀).1.text ++ (lexerNext lx₀).2.current := by
        have hl : Slices (c :: t) (lexerNext lx₀) := h₀ ▸ scanToken_slices
        exact hl.text_append (List.IsSuffix.trans ⟨u, hu⟩ (List.suffix_cons c t)) hn
      have hx : (lexerNext lx₀).1.lexeme.2 = c :: u := by
        rw [← hu, ← List.cons_append, List.append_cancel_right_eq] at hx
        exact hx.symm
      have hk : skipWhitespaceAndComments (c :: (u ++ s)) = .ok (c :: (u ++ s)) := by
        have hk : skipWhitespaceAndComments (c :: (u ++ (lexerNext lx₀).2.current)) = .ok (c :: (u ++ _)) :=
          hu ▸ skip_idem hk
        exact skip_delimited hs hk
      have h₁ : lexerNext lx = scanToken { lx with current := u ++ s } c (c :: (u ++ s)) := by
        rw [lexerNext, hc, hx, List.cons_append, skip_gap hg (fun h => Bool.noConfusion h), hk]
      exact scanToken_delimited h₀ hn hs hu.symm h₁

theorem lexAll_next (h : (lexerNext lx).1.type ≠ .eof) :
    lexAll lx = (lexerNext lx).1 :: lexAll (lexerNext lx).2 := by
  rw [lexAll, dif_neg h]

theorem lexAll_eof (h : skipWhitespaceAndComments lx.current = .ok []) : lexAll lx = [⟨.eof, [], 0⟩] := by
  have hn : (lexerNext lx).1 = ⟨.eof, [], 0⟩ := by rw [lexerNext, h]
  rw [lexAll, dif_pos (by rw [hn]), hn]

end Run
end Coglet.Parse
