import Mathlib.Data.List.Basic

namespace Coglet.Parse

inductive TokenType
  | eof | error
  | numberInt | numberFloat | string | char | ident | true | false | null
  | if | else | while | for | return | defer | discard | staticAssert
  | void | struct | resource | union | break | continue | enum
  | switch | case | default | cast | truncate | in
  | reinterpret | move | readonly | volatile | opaqueKeyword | cfn
  | sizeOf | alignOf | asm
  | s8 | s16 | s32 | s64 | u8 | u16 | u32 | u64 | isize | usize | f32 | f64 | bool | intKw | uintKw
  | plus | minus | star | slash | percent
  | plusPlus | minusMinus
  | plusEqual | minusEqual | starEqual | slashEqual | percentEqual
  | equal | equalEqual | bang | bangEqual
  | less | lessEqual | greater | greaterEqual
  | shiftLeft | shiftRight | shiftLeftEqual | shiftRightEqual
  | andAnd | orOr | and | or | xor | tilde
  | andEqual | orEqual | xorEqual
  | lparen | rparen | lbrace | rbrace | lbracket | rbracket
  | semicolon | comma | dot | ellipsis | arrow | colon | colonColon | colonEqual | hash
deriving DecidableEq, Repr

-- A pointer into the source is the text from there up to the terminating NUL, so a later pointer is a shorter text.
abbrev Text := List Char

structure Token where
  type   : TokenType
  start  : Text
  length : Nat
deriving DecidableEq, Repr

namespace Token

def text (t : Token) : Text :=
  t.start.take t.length

-- The pointer `start + length`.
def stop (t : Token) : Text :=
  t.start.drop t.length

end Token

structure Lexer where
  current  : Text
  errorMsg : Option String
deriving DecidableEq, Repr

namespace Lexer

variable (lx : Lexer)

-- The terminating NUL is no character of the text.
def peek : Option Char :=
  lx.current.head?

def advance : Lexer :=
  { lx with current := lx.current.tail }

def skipWhile (p : Char → Bool) : Lexer :=
  { lx with current := lx.current.dropWhile p }

def peekIs (p : Char → Bool) : Bool :=
  lx.peek.any p

def makeToken (type : TokenType) (start : Text) : Token × Lexer :=
  (⟨type, start, start.length - lx.current.length⟩, lx)

def errorToken (start : Text) (length : Nat) (message : String) : Token × Lexer :=
  (⟨.error, start, length⟩, { lx with errorMsg := some message })

-- The error token of a scan that stops at the current character.
def scanError (start : Text) (message : String) : Token × Lexer :=
  lx.errorToken start (start.length - lx.current.length) message

end Lexer

def isBlank (c : Char) : Bool :=
  c == ' ' || c == '\t' || c == '\r' || c == '\n'

def skipBlockComment : Text → Option Text
  | '*' :: '/' :: rest => some rest
  | _ :: rest => skipBlockComment rest
  | [] => none

theorem skipBlockComment_suffix {s rest : Text} (h : skipBlockComment s = some rest) : rest <:+ s := by
  fun_induction skipBlockComment s with
  | case1 rest' =>
    cases h
    exact ⟨['*', '/'], rfl⟩
  | case2 c s _ ih => exact (ih h).trans (List.suffix_cons c s)
  | case3 => cases h

-- The result is the next character of a token, or the start of a block comment that does not end.
def skipWhitespaceAndComments : Text → Except Text Text
  | '/' :: '/' :: rest => skipWhitespaceAndComments (rest.dropWhile (· != '\n'))
  | '/' :: '*' :: rest =>
    match _h : skipBlockComment rest with
    | none => .error ('/' :: '*' :: rest)
    | some rest' => skipWhitespaceAndComments rest'
  | c :: rest => if isBlank c then skipWhitespaceAndComments rest else .ok (c :: rest)
  | [] => .ok []
termination_by s => s.length
decreasing_by
  · have := (List.dropWhile_suffix (· != '\n') : rest.dropWhile (· != '\n') <:+ rest).length_le
    simp only [List.length_cons]
    omega
  · have := (skipBlockComment_suffix _h).length_le
    simp only [List.length_cons]
    omega
  · exact Nat.lt_succ_self _

def isDigit (c : Char) : Bool :=
  '0' ≤ c && c ≤ '9'

def integerDigitValue (c : Char) : Int :=
  if '0' ≤ c ∧ c ≤ '9' then c.toNat - '0'.toNat
  else if 'a' ≤ c ∧ c ≤ 'f' then 10 + c.toNat - 'a'.toNat
  else if 'A' ≤ c ∧ c ≤ 'F' then 10 + c.toNat - 'A'.toNat
  else -1

def isIntegerDigitForRadix (radix : Nat) (c : Char) : Bool :=
  0 ≤ integerDigitValue c && integerDigitValue c < radix

def isAlpha (c : Char) : Bool :=
  ('a' ≤ c && c ≤ 'z') || ('A' ≤ c && c ≤ 'Z') || c == '_'

def isWordChar (c : Char) : Bool :=
  isAlpha c || isDigit c

def keywords : List (String × TokenType) :=
  [("if", .if), ("else", .else), ("while", .while), ("for", .for), ("in", .in), ("return", .return),
   ("defer", .defer), ("discard", .discard), ("static_assert", .staticAssert), ("struct", .struct),
   ("resource", .resource), ("union", .union), ("break", .break), ("continue", .continue), ("enum", .enum),
   ("switch", .switch), ("case", .case), ("default", .default), ("void", .void), ("true", .true),
   ("false", .false), ("cast", .cast), ("truncate", .truncate), ("reinterpret", .reinterpret), ("move", .move),
   ("readonly", .readonly), ("volatile", .volatile), ("opaque", .opaqueKeyword), ("cfn", .cfn), ("null", .null),
   ("size_of", .sizeOf), ("align_of", .alignOf), ("asm", .asm),
   ("s8", .s8), ("s16", .s16), ("s32", .s32), ("s64", .s64), ("u8", .u8), ("u16", .u16), ("u32", .u32),
   ("u64", .u64), ("isize", .isize), ("usize", .usize), ("f32", .f32), ("f64", .f64), ("bool", .bool),
   ("int", .intKw), ("uint", .uintKw)]

def identifierType (word : Text) : TokenType :=
  match keywords.find? (·.1.toList == word) with
  | some keyword => keyword.2
  | none => .ident

def scanIdentifier (lx : Lexer) (start : Text) : Token × Lexer :=
  let lx := lx.skipWhile isWordChar
  lx.makeToken (identifierType (start.take (start.length - lx.current.length))) start

def scanHexExponent (lx : Lexer) (start : Text) : Token × Lexer :=
  let lx := lx.advance
  let lx := if lx.peekIs fun c => c == '+' || c == '-' then lx.advance else lx
  if !lx.peekIs isDigit then
    (lx.skipWhile isWordChar).scanError start "expected digits after hexadecimal floating-point exponent"
  else
    let lx := lx.skipWhile isDigit
    if lx.peekIs isWordChar then
      (lx.skipWhile isWordChar).scanError start "invalid digit in hexadecimal floating-point literal"
    else
      lx.makeToken .numberFloat start

def scanHexNumber (lx : Lexer) (start : Text) : Token × Lexer :=
  let isHexDigit := isIntegerDigitForRadix 16
  let lx := lx.advance
  let wholeDigits := (lx.current.takeWhile isHexDigit).length
  let lx := lx.skipWhile isHexDigit
  let sawPoint := lx.peekIs (· == '.')
  let lx := if sawPoint then lx.advance else lx
  let significandDigits := wholeDigits + if sawPoint then (lx.current.takeWhile isHexDigit).length else 0
  let lx := if sawPoint then lx.skipWhile isHexDigit else lx
  if significandDigits = 0 then
    (lx.skipWhile fun c => isWordChar c || c == '.').scanError start "expected hexadecimal digits after prefix"
  else if lx.peekIs fun c => c == 'p' || c == 'P' then
    scanHexExponent lx start
  else if sawPoint then
    (lx.skipWhile isWordChar).scanError start "expected p/P exponent in hexadecimal floating-point literal"
  else if lx.peekIs isWordChar then
    (lx.skipWhile isWordChar).scanError start "invalid digit in hexadecimal integer literal"
  else
    lx.makeToken .numberInt start

def scanPrefixedInteger (lx : Lexer) (start : Text) (radix : Nat) (missingDigits invalidDigit : String) :
    Token × Lexer :=
  let lx := lx.advance
  let digitCount := (lx.current.takeWhile (isIntegerDigitForRadix radix)).length
  let lx := lx.skipWhile (isIntegerDigitForRadix radix)
  if digitCount = 0 then
    (lx.skipWhile isWordChar).scanError start missingDigits
  else if lx.peekIs isWordChar then
    (lx.skipWhile isWordChar).scanError start invalidDigit
  else
    lx.makeToken .numberInt start

def scanDecimalExponent (lx : Lexer) (start : Text) (isFloat : Bool) : Token × Lexer :=
  if lx.peekIs fun c => c == 'e' || c == 'E' then
    let lx := lx.advance
    let lx := if lx.peekIs fun c => c == '+' || c == '-' then lx.advance else lx
    if !lx.peekIs isDigit then
      lx.scanError start "expected digits after exponent"
    else
      (lx.skipWhile isDigit).makeToken .numberFloat start
  else
    lx.makeToken (if isFloat then .numberFloat else .numberInt) start

def scanDecimalNumber (lx : Lexer) (start : Text) : Token × Lexer :=
  let lx := lx.skipWhile isDigit
  -- A point belongs to the number only when a digit follows.
  if lx.peekIs (· == '.') && lx.advance.peekIs isDigit then
    scanDecimalExponent (lx.advance.skipWhile isDigit) start Bool.true
  else
    scanDecimalExponent lx start Bool.false

def scanNumber (lx : Lexer) (start : Text) : Token × Lexer :=
  if start.head? = some '0' && lx.peekIs fun c => c == 'x' || c == 'X' then
    scanHexNumber lx start
  else if start.head? = some '0' && lx.peekIs fun c => c == 'b' || c == 'B' then
    scanPrefixedInteger lx start 2 "expected binary digits after prefix" "invalid digit in binary integer literal"
  else if start.head? = some '0' && lx.peekIs fun c => c == 'o' || c == 'O' then
    scanPrefixedInteger lx start 8 "expected octal digits after prefix" "invalid digit in octal integer literal"
  else
    scanDecimalNumber lx start

-- The loop of `scan_string`: a backslash takes the character after it along. The result is what follows the closing quote.
def scanStringBody : Text → Option Text
  | '"' :: rest => some rest
  | '\\' :: _ :: rest => scanStringBody rest
  | _ :: rest => scanStringBody rest
  | [] => none

def scanString (lx : Lexer) (start : Text) : Token × Lexer :=
  match scanStringBody lx.current with
  | none => Lexer.errorToken { lx with current := [] } start 1 "unterminated string"
  | some rest => Lexer.makeToken { lx with current := rest } .string start

def scanCharEnd (lx : Lexer) (start : Text) : Token × Lexer :=
  if lx.peekIs (· == '\'') then
    lx.advance.makeToken .char start
  else
    lx.errorToken start 1 "expected closing quote for character literal"

def scanChar (lx : Lexer) (start : Text) : Token × Lexer :=
  match lx.current with
  | [] => lx.errorToken start 1 "unterminated character literal"
  | ['\\'] => lx.advance.errorToken start 1 "unterminated character literal"
  | '\\' :: _ :: _ => scanCharEnd lx.advance.advance start
  | _ :: _ => scanCharEnd lx.advance start

-- The operators in the order in which the `switch` of `lexer_next` tries them.
def operators : List (String × TokenType) :=
  [("(", .lparen), (")", .rparen), ("\x7b", .lbrace), ("\x7d", .rbrace), ("[", .lbracket), ("]", .rbracket),
   ("#", .hash), (";", .semicolon), (",", .comma),
   ("...", .ellipsis), (".", .dot),
   ("++", .plusPlus), ("+=", .plusEqual), ("+", .plus),
   ("--", .minusMinus), ("-=", .minusEqual), ("->", .arrow), ("-", .minus),
   ("*=", .starEqual), ("*", .star), ("/=", .slashEqual), ("/", .slash), ("%=", .percentEqual), ("%", .percent),
   ("::", .colonColon), (":=", .colonEqual), (":", .colon),
   ("==", .equalEqual), ("=", .equal), ("!=", .bangEqual), ("!", .bang),
   ("<<=", .shiftLeftEqual), ("<<", .shiftLeft), ("<=", .lessEqual), ("<", .less),
   (">>=", .shiftRightEqual), (">>", .shiftRight), (">=", .greaterEqual), (">", .greater),
   ("&&", .andAnd), ("&=", .andEqual), ("&", .and), ("||", .orOr), ("|=", .orEqual), ("|", .or),
   ("^=", .xorEqual), ("^", .xor), ("~", .tilde)]

def scanOperator (lx : Lexer) (start : Text) : Token × Lexer :=
  match operators.find? (·.1.toList.isPrefixOf start) with
  | some operator => Lexer.makeToken { lx with current := start.drop operator.1.length } operator.2 start
  | none => lx.errorToken start 1 "unexpected character"

def scanToken (lx : Lexer) (c : Char) (start : Text) : Token × Lexer :=
  if isAlpha c then scanIdentifier lx start
  else if isDigit c then scanNumber lx start
  else if c = '"' then scanString lx start
  else if c = '\'' then scanChar lx start
  else scanOperator lx start

def lexerNext (lx : Lexer) : Token × Lexer :=
  match skipWhitespaceAndComments lx.current with
  | .error comment => Lexer.errorToken { lx with current := [] } comment 2 "unterminated block comment"
  | .ok [] => (⟨.eof, [], 0⟩, { lx with current := [] })
  | .ok (c :: rest) => scanToken { lx with current := rest } c (c :: rest)

namespace Lexer

variable {lx : Lexer}

theorem advance_suffix : lx.advance.current <:+ lx.current :=
  List.tail_suffix _

theorem skipWhile_suffix {p : Char → Bool} : (lx.skipWhile p).current <:+ lx.current :=
  List.dropWhile_suffix p

end Lexer

-- A scan that stays in the text and does not return a string.
structure Plain (s : Text) (scan : Token × Lexer) : Prop where
  suffix : scan.2.current <:+ s
  type   : scan.1.type ≠ .string

namespace Plain

variable {s start : Text} {lx : Lexer}

theorem makeToken {type : TokenType} (h : lx.current <:+ s) (ht : type ≠ .string) :
    Plain s (lx.makeToken type start) :=
  ⟨h, ht⟩

theorem errorToken {length : Nat} {message : String} (h : lx.current <:+ s) :
    Plain s (lx.errorToken start length message) :=
  ⟨h, TokenType.noConfusion⟩

theorem scanError {message : String} (h : lx.current <:+ s) : Plain s (lx.scanError start message) :=
  errorToken h

theorem ite {c : Prop} [Decidable c] {a b : Token × Lexer} (ha : Plain s a) (hb : Plain s b) :
    Plain s (if c then a else b) := by
  split
  · exact ha
  · exact hb

theorem mono {s' : Text} {scan : Token × Lexer} (h : Plain s scan) (hs : s <:+ s') : Plain s' scan :=
  ⟨h.suffix.trans hs, h.type⟩

end Plain

theorem keywords_ne_string : ∀ keyword ∈ keywords, keyword.2 ≠ .string := by
  decide

theorem operators_ne_string : ∀ operator ∈ operators, operator.2 ≠ .string := by
  decide

theorem identifierType_ne_string (word : Text) : identifierType word ≠ .string := by
  unfold identifierType
  split
  case h_1 keyword h => exact keywords_ne_string keyword (List.mem_of_find?_eq_some h)
  case h_2 => exact TokenType.noConfusion

variable {lx : Lexer} {c : Char} {start : Text}

theorem scanIdentifier_plain : Plain lx.current (scanIdentifier lx start) :=
  .makeToken Lexer.skipWhile_suffix (identifierType_ne_string _)

theorem sign_suffix {p : Char → Bool} : (if lx.peekIs p then lx.advance else lx).current <:+ lx.current := by
  split
  · exact Lexer.advance_suffix
  · exact List.suffix_rfl

theorem scanHexExponent_plain : Plain lx.current (scanHexExponent lx start) := by
  have hs {p : Char → Bool} :
      (if lx.advance.peekIs p then lx.advance.advance else lx.advance).current <:+ lx.current :=
    sign_suffix.trans Lexer.advance_suffix
  apply Plain.ite
  · exact .scanError (Lexer.skipWhile_suffix.trans hs)
  · apply Plain.ite
    · exact .scanError (Lexer.skipWhile_suffix.trans (Lexer.skipWhile_suffix.trans hs))
    · exact .makeToken (Lexer.skipWhile_suffix.trans hs) TokenType.noConfusion

theorem scanHexNumber_plain : Plain lx.current (scanHexNumber lx start) := by
  have hd {p : Char → Bool} : (lx.advance.skipWhile p).current <:+ lx.current :=
    Lexer.skipWhile_suffix.trans Lexer.advance_suffix
  have hp {p q : Char → Bool} {b : Bool} :
      (if b then (if b then (lx.advance.skipWhile p).advance else lx.advance.skipWhile p).skipWhile q
        else if b then (lx.advance.skipWhile p).advance else lx.advance.skipWhile p).current <:+ lx.current := by
    cases b
    case false => exact hd
    case true => exact Lexer.skipWhile_suffix.trans (Lexer.advance_suffix.trans hd)
  apply Plain.ite
  · exact .scanError (Lexer.skipWhile_suffix.trans hp)
  · apply Plain.ite
    · exact scanHexExponent_plain.mono hp
    · apply Plain.ite
      · exact .scanError (Lexer.skipWhile_suffix.trans hp)
      · apply Plain.ite
        · exact .scanError (Lexer.skipWhile_suffix.trans hp)
        · exact .makeToken hp TokenType.noConfusion

theorem scanPrefixedInteger_plain {radix : Nat} {missingDigits invalidDigit : String} :
    Plain lx.current (scanPrefixedInteger lx start radix missingDigits invalidDigit) := by
  have hd {p : Char → Bool} : (lx.advance.skipWhile p).current <:+ lx.current :=
    Lexer.skipWhile_suffix.trans Lexer.advance_suffix
  apply Plain.ite
  · exact .scanError (Lexer.skipWhile_suffix.trans hd)
  · apply Plain.ite
    · exact .scanError (Lexer.skipWhile_suffix.trans hd)
    · exact .makeToken hd TokenType.noConfusion

theorem scanDecimalExponent_plain {isFloat : Bool} : Plain lx.current (scanDecimalExponent lx start isFloat) := by
  have hs {p : Char → Bool} :
      (if lx.advance.peekIs p then lx.advance.advance else lx.advance).current <:+ lx.current :=
    sign_suffix.trans Lexer.advance_suffix
  apply Plain.ite
  · apply Plain.ite
    · exact .scanError hs
    · exact .makeToken (Lexer.skipWhile_suffix.trans hs) TokenType.noConfusion
  · apply Plain.makeToken List.suffix_rfl
    cases isFloat <;> exact TokenType.noConfusion

theorem scanDecimalNumber_plain : Plain lx.current (scanDecimalNumber lx start) := by
  apply Plain.ite
  · exact scanDecimalExponent_plain.mono
      (Lexer.skipWhile_suffix.trans (Lexer.advance_suffix.trans Lexer.skipWhile_suffix))
  · exact scanDecimalExponent_plain.mono Lexer.skipWhile_suffix

theorem scanNumber_plain : Plain lx.current (scanNumber lx start) :=
  .ite scanHexNumber_plain (.ite scanPrefixedInteger_plain (.ite scanPrefixedInteger_plain scanDecimalNumber_plain))

theorem scanCharEnd_plain : Plain lx.current (scanCharEnd lx start) :=
  .ite (.makeToken Lexer.advance_suffix TokenType.noConfusion) (.errorToken List.suffix_rfl)

theorem scanChar_plain : Plain lx.current (scanChar lx start) := by
  unfold scanChar
  split
  case h_1 => exact .errorToken List.suffix_rfl
  case h_2 => exact .errorToken Lexer.advance_suffix
  case h_3 => exact scanCharEnd_plain.mono (Lexer.advance_suffix.trans Lexer.advance_suffix)
  case h_4 => exact scanCharEnd_plain.mono Lexer.advance_suffix

theorem operators_length_pos : ∀ operator ∈ operators, 0 < operator.1.length := by
  decide

theorem scanOperator_plain {s : Text} : Plain s (scanOperator { lx with current := s } (c :: s)) := by
  unfold scanOperator
  split
  case h_1 operator h =>
    have hm := List.mem_of_find?_eq_some h
    apply Plain.makeToken _ (operators_ne_string operator hm)
    obtain ⟨n, hn⟩ := Nat.exists_eq_add_of_lt (operators_length_pos operator hm)
    simp only [hn, Nat.zero_add, List.drop_succ_cons]
    exact List.drop_suffix n s
  case h_2 => exact .errorToken List.suffix_rfl

theorem scanStringBody_suffix {s rest : Text} (h : scanStringBody s = some rest) : rest <:+ s := by
  fun_induction scanStringBody s with
  | case1 rest' =>
    cases h
    exact List.suffix_cons _ _
  | case2 c s ih => exact (ih h).trans ((List.suffix_cons c s).trans (List.suffix_cons _ _))
  | case3 c s _ _ ih => exact (ih h).trans (List.suffix_cons c s)
  | case4 => cases h

-- What a scan of a token does to the text, and what a string token is.
inductive StringScan (body : Text) (scan : Token × Lexer) : Prop
  | unterminated (type : scan.1.type = .error) (stop : scan.2.current = [])
  | closed {rest : Text} (closes : scanStringBody body = some rest)
      (token : scan.1 = ⟨.string, '"' :: body, body.length + 1 - rest.length⟩) (current : scan.2.current = rest)

theorem scanString_scan {s : Text} : StringScan s (scanString { lx with current := s } ('"' :: s)) := by
  unfold scanString
  split
  case h_1 => exact .unterminated rfl rfl
  case h_2 rest h => exact .closed h rfl rfl

theorem scanToken_plain {s : Text} (hc : c ≠ '"') : Plain s (scanToken { lx with current := s } c (c :: s)) := by
  change Plain (Lexer.mk s lx.errorMsg).current _
  unfold scanToken
  rw [if_neg hc]
  exact .ite scanIdentifier_plain (.ite scanNumber_plain (.ite scanChar_plain scanOperator_plain))

theorem scanToken_quote {s : Text} : StringScan s (scanToken { lx with current := s } '"' ('"' :: s)) :=
  scanString_scan

theorem skipWhitespaceAndComments_suffix {s rest : Text} (h : skipWhitespaceAndComments s = .ok rest) :
    rest <:+ s := by
  fun_induction skipWhitespaceAndComments s with
  | case1 s ih => exact (ih h).trans ((List.dropWhile_suffix _).trans (⟨['/', '/'], rfl⟩))
  | case2 => cases h
  | case3 s s' hs ih => exact (ih h).trans ((skipBlockComment_suffix hs).trans ⟨['/', '*'], rfl⟩)
  | case4 c s _ _ _ ih => exact (ih h).trans (List.suffix_cons c s)
  | case5 =>
    cases h
    exact List.suffix_rfl
  | case6 =>
    cases h
    exact List.suffix_rfl

theorem skipWhitespaceAndComments_error {s comment : Text} (h : skipWhitespaceAndComments s = .error comment) :
    s ≠ [] := by
  rintro rfl
  simp [skipWhitespaceAndComments] at h

-- What one call of `lexer_next` does to the text.
inductive Lexes (s : Text) (scan : Token × Lexer) : Prop
  | eof (type : scan.1.type = .eof) (stop : scan.2.current = [])
  | comment (text : s ≠ []) (type : scan.1.type = .error) (stop : scan.2.current = [])
  | plain {c : Char} {rest : Text} (skip : skipWhitespaceAndComments s = .ok (c :: rest)) (noQuote : c ≠ '"')
      (scan : Plain rest scan)
  | string {body : Text} (skip : skipWhitespaceAndComments s = .ok ('"' :: body)) (scan : StringScan body scan)

theorem lexerNext_lexes (lx : Lexer) : Lexes lx.current (lexerNext lx) := by
  unfold lexerNext
  split
  case h_1 comment h => exact .comment (skipWhitespaceAndComments_error h) rfl rfl
  case h_2 => exact .eof rfl rfl
  case h_3 c rest h =>
    by_cases hc : c = '"'
    case pos =>
      subst hc
      exact .string h scanToken_quote
    case neg => exact .plain h hc (scanToken_plain hc)

namespace Lexes

variable {s : Text} {scan : Token × Lexer}

theorem suffix (h : Lexes s scan) : scan.2.current <:+ s := by
  cases h
  case eof stop => exact stop ▸ List.nil_suffix
  case comment stop => exact stop ▸ List.nil_suffix
  case plain skip _ plain =>
    exact plain.suffix.trans ((List.suffix_cons _ _).trans (skipWhitespaceAndComments_suffix skip))
  case string skip string =>
    cases string
    case unterminated stop => exact stop ▸ List.nil_suffix
    case closed closes _ current =>
      have hs := (scanStringBody_suffix closes).trans (List.suffix_cons '"' _)
      exact current ▸ hs.trans (skipWhitespaceAndComments_suffix skip)

theorem length_lt (h : Lexes s scan) (he : scan.1.type ≠ .eof) : scan.2.current.length < s.length := by
  have behind {c : Char} {rest stop : Text} (hk : skipWhitespaceAndComments s = .ok (c :: rest))
      (hr : stop <:+ rest) : stop.length < s.length :=
    Nat.lt_of_le_of_lt hr.length_le (skipWhitespaceAndComments_suffix hk).length_le
  cases h
  case eof type _ => exact absurd type he
  case comment text _ stop =>
    rw [stop]
    exact List.length_pos_of_ne_nil text
  case plain skip _ plain => exact behind skip plain.suffix
  case string skip string =>
    cases string
    case unterminated _ stop => exact behind skip (stop ▸ List.nil_suffix)
    case closed closes _ current => exact behind skip (current ▸ scanStringBody_suffix closes)

end Lexes
end Coglet.Parse
