import Coglet.Lib.Positional
import Coglet.Parse.Lexer

namespace Coglet.Parse

open Positional

-- The loop of `parse_integer_u64`, from the digit at which the text starts.
def parseDigits (radix : BitVec 64) : BitVec 64 → Text → Option (BitVec 64)
  | value, [] => some value
  | value, c :: rest =>
    let parsedDigit := integerDigitValue c
    if parsedDigit < 0 ∨ (radix.toNat : Int) ≤ parsedDigit then none
    else
      let digit := BitVec.ofInt 64 parsedDigit
      if (BitVec.allOnes 64 - digit) / radix < value then none
      else parseDigits radix (value * radix + digit) rest

-- The radix and the index of the first digit.
def radixPrefix : Text → BitVec 64 × Nat
  | '0' :: c :: _ =>
    if c = 'x' ∨ c = 'X' then (16#64, 2)
    else if c = 'b' ∨ c = 'B' then (2#64, 2)
    else if c = 'o' ∨ c = 'O' then (8#64, 2)
    else (10#64, 0)
  | _ => (10#64, 0)

def parseIntegerU64 (token : Token) : Option (BitVec 64) :=
  if token.length = 0 then none
  else
    let (radix, digitStart) := radixPrefix token.text
    if token.length ≤ digitStart then none
    else parseDigits radix 0#64 (token.text.drop digitStart)

def digitValues : List (Char × Nat) :=
  [('0', 0), ('1', 1), ('2', 2), ('3', 3), ('4', 4), ('5', 5), ('6', 6), ('7', 7), ('8', 8), ('9', 9),
   ('a', 10), ('b', 11), ('c', 12), ('d', 13), ('e', 14), ('f', 15),
   ('A', 10), ('B', 11), ('C', 12), ('D', 13), ('E', 14), ('F', 15)]

def radixLetters : List (Char × Nat) :=
  [('x', 16), ('X', 16), ('b', 2), ('B', 2), ('o', 8), ('O', 8)]

-- A text of digits of the radix, with their values.
def Spells (radix : Nat) (text : Text) (digits : List Nat) : Prop :=
  List.Forall₂ (fun c digit => (c, digit) ∈ digitValues ∧ digit < radix) text digits

-- What a numeral is, apart from the lexer: its radix and the values of its digits.
inductive Numeral : Text → Nat → List Nat → Prop
  | decimal {text : Text} {digits : List Nat} (spelled : Spells 10 text digits) (ne : text ≠ []) :
    Numeral text 10 digits
  | withPrefix {text : Text} {radix : Nat} {letter : Char} {digits : List Nat}
      (introduces : (letter, radix) ∈ radixLetters) (spelled : Spells radix text digits) (ne : text ≠ []) :
    Numeral ('0' :: letter :: text) radix digits

-- The mathematical value of the digits, the most significant one first.
def numeralValue (radix : Nat) (digits : List Nat) : Nat :=
  Nat.ofDigits radix digits.reverse

theorem integerDigitValue_of_mem : ∀ p ∈ digitValues, integerDigitValue p.1 = p.2 := by
  decide

def charRange (low high : Char) : List Char :=
  (List.range' low.toNat (high.toNat + 1 - low.toNat)).map Char.ofNat

theorem mem_charRange {low high c : Char} (hl : low ≤ c) (hh : c ≤ high) : c ∈ charRange low high := by
  have hl : low.toNat ≤ c.toNat := hl
  have hh : c.toNat ≤ high.toNat := hh
  exact List.mem_map.mpr ⟨c.toNat, List.mem_range'_1.mpr ⟨hl, by omega⟩, Char.ofNat_toNat c⟩

theorem mem_digitValues_of_range :
    (charRange '0' '9' ++ charRange 'a' 'f' ++ charRange 'A' 'F').all fun c =>
      (c, (integerDigitValue c).toNat) ∈ digitValues := by
  decide

theorem exists_digit {c : Char} (h : 0 ≤ integerDigitValue c) :
    (c, (integerDigitValue c).toNat) ∈ digitValues := by
  apply of_decide_eq_true
  apply List.all_eq_true.mp mem_digitValues_of_range c
  simp only [List.mem_append]
  unfold integerDigitValue at h
  split at h
  case isTrue hc => exact .inl (.inl (mem_charRange hc.1 hc.2))
  case isFalse =>
    split at h
    case isTrue hc => exact .inl (.inr (mem_charRange hc.1 hc.2))
    case isFalse =>
      split at h
      case isTrue hc => exact .inr (mem_charRange hc.1 hc.2)
      case isFalse => cases h

theorem isIntegerDigit_of_isDigit {c : Char} (h : isDigit c) : isIntegerDigitForRadix 10 c := by
  have hrange : (charRange '0' '9').all (isIntegerDigitForRadix 10) := by decide
  simp only [isDigit, Bool.and_eq_true, decide_eq_true_eq] at h
  exact List.all_eq_true.mp hrange c (mem_charRange h.1 h.2)

theorem exists_spells {radix : Nat} {text : Text} (h : text.all (isIntegerDigitForRadix radix)) :
    ∃ digits, Spells radix text digits := by
  induction text
  case nil => exact ⟨[], .nil⟩
  case cons c text ih =>
    simp only [List.all_cons, Bool.and_eq_true, isIntegerDigitForRadix, decide_eq_true_eq] at h
    obtain ⟨⟨hc, hlt⟩, ht⟩ := h
    obtain ⟨digits, hs⟩ := ih ht
    exact ⟨_, .cons ⟨exists_digit hc, by omega⟩ hs⟩

theorem parseDigits_eq {radix : BitVec 64} {text : Text} {digits : List Nat}
    (hs : Spells radix.toNat text digits) (hr : radix.toNat ≤ 16) (value : BitVec 64) :
    parseDigits radix value text =
      (accumulate (2 ^ 64 - 1) radix.toNat value.toNat digits).map (BitVec.ofNat 64) := by
  induction hs generalizing value
  case nil => simp [parseDigits, accumulate]
  case cons c digit text digits hc hs ih =>
    have hv := integerDigitValue_of_mem _ hc.1
    have hd : digit < 16 := by omega
    have hdigit : (BitVec.ofInt 64 (digit : Int)).toNat = digit := by
      simp only [BitVec.ofInt_natCast, BitVec.toNat_ofNat]
      omega
    have hradix : ¬((digit : Int) < 0 ∨ (radix.toNat : Int) ≤ digit) := by omega
    have hguard : (BitVec.allOnes 64 - BitVec.ofInt 64 digit) / radix < value ↔
        (2 ^ 64 - 1 - digit) / radix.toNat < value.toNat := by
      rw [BitVec.lt_def, BitVec.toNat_udiv, BitVec.toNat_sub_of_le (by simp [BitVec.le_def]; omega),
        BitVec.toNat_allOnes, hdigit]
    simp only [parseDigits, accumulate, hv, hradix, if_false, hguard]
    split
    case isTrue => rfl
    case isFalse h =>
      have hle : value.toNat * radix.toNat + digit < 2 ^ 64 := by
        have := mt (guard_iff (Nat.zero_lt_of_lt hc.2) (by omega)).mpr h
        omega
      have hnext : (value * radix + BitVec.ofInt 64 digit).toNat = value.toNat * radix.toNat + digit := by
        rw [BitVec.toNat_add, BitVec.toNat_mul, hdigit, Nat.mod_add_mod, Nat.mod_eq_of_lt hle]
      rw [ih, hnext]

theorem decimalDigit_not_letter :
    ∀ p ∈ digitValues, p.2 < 10 → p.1 ∉ radixLetters.map Prod.fst := by
  decide

theorem radixPrefix_letter :
    ∀ p ∈ radixLetters, ∀ text, radixPrefix ('0' :: p.1 :: text) = (BitVec.ofNat 64 p.2, 2) := by
  simp [radixLetters, radixPrefix]

theorem radixPrefix_decimal {text : Text} {digits : List Nat} (h : Spells 10 text digits) :
    radixPrefix text = (10#64, 0) := by
  unfold radixPrefix
  split
  case h_1 c rest =>
    cases h
    case cons hs =>
      cases hs
      case cons hc _ =>
        have := decimalDigit_not_letter _ hc.1 hc.2
        simp_all [radixLetters]
  case h_2 => rfl

theorem radix_le : ∀ p ∈ radixLetters, p.2 ≤ 16 := by
  decide

theorem Spells.digit_lt {radix : Nat} {text : Text} {digits : List Nat} (hs : Spells radix text digits) :
    ∀ digit ∈ digits, digit < radix := by
  induction hs
  case nil => simp
  case cons hc _ ih => exact List.forall_mem_cons.mpr ⟨hc.2, ih⟩

theorem parseDigits_numeralValue {radix : Nat} {text : Text} {digits : List Nat}
    (hs : Spells radix text digits) (hr : radix ≤ 16) (ht : text ≠ []) :
    parseDigits (BitVec.ofNat 64 radix) 0#64 text =
      if numeralValue radix digits < 2 ^ 64 then some (BitVec.ofNat 64 (numeralValue radix digits)) else none := by
  have hnat : (BitVec.ofNat 64 radix).toNat = radix := by
    rw [BitVec.toNat_ofNat]
    omega
  have hpos : 0 < radix := by
    cases hs
    case nil => exact absurd rfl ht
    case cons hc _ => exact Nat.zero_lt_of_lt hc.2
  have hd : ∀ digit ∈ digits, digit ≤ 2 ^ 64 - 1 := fun digit hm => by
    have := hs.digit_lt digit hm
    omega
  rw [parseDigits_eq (by rwa [hnat]) (by omega), hnat, BitVec.toNat_ofNat, Nat.zero_mod,
    accumulate_eq hpos hd (Nat.zero_le _), continued_zero, ← numeralValue]
  have hiff : numeralValue radix digits ≤ 2 ^ 64 - 1 ↔ numeralValue radix digits < 2 ^ 64 := by omega
  simp only [hiff]
  split
  case isTrue => rfl
  case isFalse => rfl

theorem length_text_le (token : Token) : token.text.length ≤ token.length :=
  List.length_take_le _ _

theorem parseIntegerU64_eq {token : Token} {radix : Nat} {digits : List Nat}
    (hn : Numeral token.text radix digits) :
    parseIntegerU64 token =
      if numeralValue radix digits < 2 ^ 64 then some (BitVec.ofNat 64 (numeralValue radix digits)) else none := by
  have hl := length_text_le token
  generalize hx : token.text = text at hn hl
  cases hn
  case decimal ht hs =>
    have hpos : token.length ≠ 0 := by
      have := List.length_pos_of_ne_nil ht
      omega
    rw [parseIntegerU64, if_neg hpos, hx, radixPrefix_decimal hs]
    simp only [Nat.le_zero, hpos, if_false, List.drop_zero]
    exact parseDigits_numeralValue hs (by decide) ht
  case withPrefix text letter ht hm hs =>
    have hlength : 2 < token.length := by
      have := List.length_pos_of_ne_nil ht
      simp only [List.length_cons] at hl
      omega
    rw [parseIntegerU64, if_neg (by omega), hx, radixPrefix_letter _ hm]
    simp only [Nat.not_le.mpr hlength, if_false, List.drop_succ_cons, List.drop_zero]
    exact parseDigits_numeralValue hs (radix_le _ hm) ht

-- The text of a token that ends where the lexer stands.
theorem text_makeToken {lx : Lexer} {type : TokenType} {start taken : Text} (h : start = taken ++ lx.current) :
    (lx.makeToken type start).1.text = taken := by
  simp [Lexer.makeToken, Token.text, h]

-- A scan whose integer tokens are numerals.
def ScansNumeral (scan : Token × Lexer) : Prop :=
  scan.1.type = .numberInt → ∃ radix digits, Numeral scan.1.text radix digits

namespace ScansNumeral

theorem ite {c : Prop} [Decidable c] {a b : Token × Lexer} (ha : c → ScansNumeral a)
    (hb : ¬c → ScansNumeral b) : ScansNumeral (if c then a else b) := by
  split
  case isTrue h => exact ha h
  case isFalse h => exact hb h

theorem other {scan : Token × Lexer} (h : scan.1.type ≠ .numberInt) : ScansNumeral scan :=
  fun ht => absurd ht h

theorem scanError {lx : Lexer} {start : Text} {message : String} : ScansNumeral (lx.scanError start message) :=
  other TokenType.noConfusion

theorem decimal {lx : Lexer} {type : TokenType} {start taken : Text} (h : start = taken ++ lx.current)
    (hd : taken.all isDigit) (ht : taken ≠ []) : ScansNumeral (lx.makeToken type start) := by
  intro _
  have hd : taken.all (isIntegerDigitForRadix 10) :=
    List.all_eq_true.mpr fun c hc => isIntegerDigit_of_isDigit (List.all_eq_true.mp hd c hc)
  obtain ⟨digits, hs⟩ := exists_spells hd
  rw [text_makeToken h]
  exact ⟨10, digits, .decimal hs ht⟩

theorem withPrefix {lx : Lexer} {type : TokenType} {radix : Nat} {letter : Char} {start taken : Text}
    (hl : (letter, radix) ∈ radixLetters) (h : start = '0' :: letter :: taken ++ lx.current)
    (hd : taken.all (isIntegerDigitForRadix radix)) (ht : taken ≠ []) :
    ScansNumeral (lx.makeToken type start) := by
  intro _
  obtain ⟨digits, hs⟩ := exists_spells hd
  rw [text_makeToken h]
  exact ⟨radix, digits, .withPrefix hl hs ht⟩

end ScansNumeral

variable {lx : Lexer} {rest start : Text} {letter c : Char}

theorem ne_nil_of_length {taken : Text} (h : ¬taken.length = 0) : taken ≠ [] :=
  fun he => h (List.length_eq_zero_iff.mpr he)

theorem scanPrefixedInteger_numeral {radix : Nat} {missingDigits invalidDigit : String}
    (hc : lx.current = letter :: rest) (hl : (letter, radix) ∈ radixLetters) :
    ScansNumeral (scanPrefixedInteger lx ('0' :: lx.current) radix missingDigits invalidDigit) := by
  have hadvance : lx.advance.current = rest := by rw [Lexer.advance, hc, List.tail_cons]
  apply ScansNumeral.ite
  case ha => exact fun _ => .scanError
  case hb =>
    intro hd
    apply ScansNumeral.ite
    case ha => exact fun _ => .scanError
    case hb =>
      intro _
      rw [hadvance] at hd
      apply ScansNumeral.withPrefix hl _ _ (ne_nil_of_length hd)
      · simp [Lexer.skipWhile, hadvance, hc]
      · exact List.all_takeWhile

theorem scanHexExponent_numeral : ScansNumeral (scanHexExponent lx start) :=
  .ite (fun _ => .scanError) fun _ => .ite (fun _ => .scanError) fun _ => .other TokenType.noConfusion

theorem scanHexNumber_numeral (hc : lx.current = letter :: rest) (hl : (letter, 16) ∈ radixLetters) :
    ScansNumeral (scanHexNumber lx ('0' :: lx.current)) := by
  have hadvance : lx.advance.current = rest := by rw [Lexer.advance, hc, List.tail_cons]
  apply ScansNumeral.ite
  case ha => exact fun _ => .scanError
  case hb =>
    intro hd
    apply ScansNumeral.ite
    case ha => exact fun _ => scanHexExponent_numeral
    case hb =>
      intro _
      apply ScansNumeral.ite
      case ha => exact fun _ => .scanError
      case hb =>
        intro hp
        apply ScansNumeral.ite
        case ha => exact fun _ => .scanError
        case hb =>
          intro _
          simp only [hp, Bool.false_eq_true, if_false, Nat.add_zero, hadvance] at hd ⊢
          apply ScansNumeral.withPrefix hl _ _ (ne_nil_of_length hd)
          · simp [Lexer.skipWhile, hadvance, hc]
          · exact List.all_takeWhile

theorem scanDecimalExponent_float : ScansNumeral (scanDecimalExponent lx start true) :=
  .ite (fun _ => .ite (fun _ => .scanError) fun _ => .other TokenType.noConfusion)
    fun _ => .other TokenType.noConfusion

theorem scanDecimalNumber_numeral (hd : isDigit c) : ScansNumeral (scanDecimalNumber lx (c :: lx.current)) := by
  apply ScansNumeral.ite
  case ha => exact fun _ => scanDecimalExponent_float
  case hb =>
    intro _
    apply ScansNumeral.ite
    case ha => exact fun _ => .ite (fun _ => .scanError) fun _ => .other TokenType.noConfusion
    case hb =>
      intro _
      have htext : c :: lx.current = c :: lx.current.takeWhile isDigit ++ (lx.skipWhile isDigit).current := by
        simp [Lexer.skipWhile]
      exact .decimal htext (by simp [hd]) (List.cons_ne_nil _ _)

theorem exists_letter {p : Char → Bool} (h : lx.peekIs p) :
    ∃ letter rest, lx.current = letter :: rest ∧ p letter := by
  rcases lx with ⟨_ | ⟨letter, rest⟩, message⟩
  case nil => simp [Lexer.peekIs, Lexer.peek] at h
  case cons => exact ⟨letter, rest, rfl, by simpa [Lexer.peekIs, Lexer.peek] using h⟩

theorem scanNumber_numeral (hd : isDigit c) : ScansNumeral (scanNumber lx (c :: lx.current)) := by
  have introduced {p : Char → Bool} (h : (decide ((c :: lx.current).head? = some '0') && lx.peekIs p) = true) :
      c = '0' ∧ ∃ letter rest, lx.current = letter :: rest ∧ p letter := by
    simp only [List.head?_cons, Option.some.injEq, Bool.and_eq_true, decide_eq_true_eq] at h
    exact ⟨h.1, exists_letter h.2⟩
  apply ScansNumeral.ite
  case ha =>
    intro h
    obtain ⟨rfl, letter, rest, hc, hp⟩ := introduced h
    exact scanHexNumber_numeral hc (by simp_all [radixLetters])
  case hb =>
    intro _
    apply ScansNumeral.ite
    case ha =>
      intro h
      obtain ⟨rfl, letter, rest, hc, hp⟩ := introduced h
      exact scanPrefixedInteger_numeral hc (by simp_all [radixLetters])
    case hb =>
      intro _
      apply ScansNumeral.ite
      case ha =>
        intro h
        obtain ⟨rfl, letter, rest, hc, hp⟩ := introduced h
        exact scanPrefixedInteger_numeral hc (by simp_all [radixLetters])
      case hb => exact fun _ => scanDecimalNumber_numeral hd

theorem keywords_ne_numberInt : ∀ keyword ∈ keywords, keyword.2 ≠ .numberInt := by
  decide

theorem operators_ne_numberInt : ∀ operator ∈ operators, operator.2 ≠ .numberInt := by
  decide

theorem scanIdentifier_numeral : ScansNumeral (scanIdentifier lx start) := by
  apply ScansNumeral.other
  simp only [scanIdentifier, Lexer.makeToken, identifierType]
  split
  case h_1 keyword h => exact keywords_ne_numberInt keyword (List.mem_of_find?_eq_some h)
  case h_2 => exact TokenType.noConfusion

theorem scanString_numeral : ScansNumeral (scanString lx start) := by
  unfold scanString
  split
  case h_1 => exact .other TokenType.noConfusion
  case h_2 => exact .other TokenType.noConfusion

theorem scanCharEnd_numeral : ScansNumeral (scanCharEnd lx start) :=
  .ite (fun _ => .other TokenType.noConfusion) fun _ => .other TokenType.noConfusion

theorem scanChar_numeral : ScansNumeral (scanChar lx start) := by
  unfold scanChar
  split
  case h_1 => exact .other TokenType.noConfusion
  case h_2 => exact .other TokenType.noConfusion
  case h_3 => exact scanCharEnd_numeral
  case h_4 => exact scanCharEnd_numeral

theorem scanOperator_numeral : ScansNumeral (scanOperator lx start) := by
  unfold scanOperator
  split
  case h_1 operator h => exact .other (operators_ne_numberInt operator (List.mem_of_find?_eq_some h))
  case h_2 => exact .other TokenType.noConfusion

theorem scanToken_numeral : ScansNumeral (scanToken lx c (c :: lx.current)) :=
  .ite (fun _ => scanIdentifier_numeral) fun _ => .ite scanNumber_numeral fun _ =>
    .ite (fun _ => scanString_numeral) fun _ => .ite (fun _ => scanChar_numeral) fun _ => scanOperator_numeral

theorem lexerNext_numeral (lx : Lexer) : ScansNumeral (lexerNext lx) := by
  unfold lexerNext
  split
  case h_1 => exact .other TokenType.noConfusion
  case h_2 => exact .other TokenType.noConfusion
  case h_3 c rest _ =>
    let next : Lexer := { lx with current := rest }
    exact (scanToken_numeral : ScansNumeral (scanToken next c (c :: next.current)))

def maximumText : Text :=
  ['0', 'x', 'f', 'f', 'f', 'f', 'F', 'F', 'F', 'F', 'f', 'f', 'f', 'f', 'F', 'F', 'F', 'F', ';']

end Coglet.Parse
