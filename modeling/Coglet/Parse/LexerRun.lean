import Coglet.Parse.Lexer
import Mathlib.Data.List.Infix
import Mathlib.Data.List.TakeWhile

-- What repeated calls of `lexer_next` return, and which text lies between the tokens.

namespace Coglet.Parse

def lexAll (lx : Lexer) : List Token :=
  let scan := lexerNext lx
  if _h : scan.1.type = .eof then [scan.1] else scan.1 :: lexAll scan.2
termination_by lx.current.length
decreasing_by exact (lexerNext_lexes lx).length_lt _h

-- The text between two tokens. Only the end of the source ends a line comment without a newline.
inductive Gap (atEnd : Bool) : Text → Prop
  | nil : Gap atEnd []
  | blank {c : Char} {s : Text} (hc : isBlank c) (h : Gap atEnd s) : Gap atEnd (c :: s)
  | lineComment {body s : Text} (hb : '\n' ∉ body) (h : Gap atEnd s) : Gap atEnd ('/' :: '/' :: body ++ '\n' :: s)
  | lastComment {body : Text} (he : atEnd) (hb : '\n' ∉ body) : Gap atEnd ('/' :: '/' :: body)
  | blockComment {body s : Text} (hb : ¬['*', '/'] <:+: body) (h : Gap atEnd s) :
    Gap atEnd ('/' :: '*' :: body ++ '*' :: '/' :: s)

-- The tokens in the text that has been read. After an erroneous one the scan goes on at some later place.
inductive Layout : List Token → Text → Prop
  | eof {s : Text} (gap : Gap true s) : Layout [⟨.eof, [], 0⟩] s
  | error {t : Token} {ts : List Token} {g s : Text} (gap : Gap false g) (type : t.type = .error)
      (stop : s <:+ t.stop) (h : Layout ts s) : Layout (t :: ts) (g ++ t.start)
  | token {t : Token} {ts : List Token} {g s : Text} (gap : Gap false g) (type : t.type ≠ .error ∧ t.type ≠ .eof)
      (text : t.text ≠ []) (start : t.start = t.text ++ s) (h : Layout ts s) : Layout (t :: ts) (g ++ t.start)

section Gaps

variable {s t g body : Text} {c : Char} {atEnd : Bool}

theorem skip_lineComment :
    skipWhitespaceAndComments ('/' :: '/' :: s) = skipWhitespaceAndComments (s.dropWhile (· != '\n')) := by
  rw [skipWhitespaceAndComments]

theorem skip_blockComment (h : skipBlockComment s = some t) :
    skipWhitespaceAndComments ('/' :: '*' :: s) = skipWhitespaceAndComments t := by
  rw [skipWhitespaceAndComments]
  split
  case h_1 hn => cases hn.symm.trans h
  case h_2 ht => rw [Option.some.inj (ht.symm.trans h)]

theorem skip_blank (hc : isBlank c) : skipWhitespaceAndComments (c :: s) = skipWhitespaceAndComments s := by
  rw [skipWhitespaceAndComments, if_pos hc]
  all_goals
    rintro _ rfl
    cases hc

theorem skipBlockComment_iff :
    skipBlockComment s = some t ↔ ∃ body, ¬['*', '/'] <:+: body ∧ s = body ++ '*' :: '/' :: t := by
  constructor
  case mp =>
    intro h
    fun_induction skipBlockComment s with
    | case1 rest =>
      cases h
      exact ⟨[], by simp, rfl⟩
    | case2 c s hc ih =>
      obtain ⟨body, hb, rfl⟩ := ih h
      refine ⟨c :: body, fun hi => ?_, rfl⟩
      rcases List.infix_cons_iff.mp hi with hp | hi
      · obtain ⟨rest, hr⟩ := hp
        cases body
        case nil => simp at hr
        case cons d body =>
          simp only [List.cons_append, List.nil_append, List.cons.injEq] at hr
          exact hc (body ++ '*' :: '/' :: t) hr.left.symm (by rw [← hr.right.left]; rfl)
      · exact hb hi
    | case3 => cases h
  case mpr =>
    rintro ⟨body, hb, rfl⟩
    induction body
    case nil => rfl
    case cons c body ih =>
      have hb' : ¬['*', '/'] <:+: body := fun hi => hb (hi.trans (List.suffix_cons c body).isInfix)
      rw [List.cons_append, skipBlockComment, ih hb']
      rintro rest rfl hr
      cases body
      case nil => simp at hr
      case cons d body =>
        simp only [List.cons_append, List.cons.injEq] at hr
        exact hb ⟨[], body, by simp [hr.left]⟩

-- The place at which the skipping stops, which is no newline.
def stopped : Except Text Text → Text
  | .error comment => comment
  | .ok t => t

theorem stopped_ne_newline : stopped (skipWhitespaceAndComments s) ≠ '\n' :: t := by
  fun_induction skipWhitespaceAndComments s with
  | case1 _ ih => exact ih
  | case2 => simp [stopped]
  | case3 _ _ _ ih => exact ih
  | case4 _ _ _ _ _ ih => exact ih
  | case5 c s _ _ hc =>
    rintro h
    cases h
    exact hc rfl
  | case6 => simp [stopped]

-- A line comment and what has been skipped behind it.
theorem Gap.afterLine (hb : '\n' ∉ body) (hd : ∀ x, s.head? = some x → x = '\n') (hs : s = g ++ t)
    (hg : Gap atEnd g) (ht : ∀ r, t ≠ '\n' :: r) (he : t = [] → atEnd) :
    ∃ g', Gap atEnd g' ∧ '/' :: '/' :: body ++ s = g' ++ t := by
  subst hs
  cases g
  case nil =>
    cases t
    case nil => exact ⟨_, .lastComment (he rfl) hb, by simp⟩
    case cons c t => exact absurd (congrArg (· :: t) (hd c rfl)) (ht t)
  case cons c g =>
    obtain rfl := hd c rfl
    cases hg
    case blank hg => exact ⟨_, .lineComment hb hg, by simp⟩

theorem takeWhile_newline : '\n' ∉ s.takeWhile (· != '\n') :=
  fun h => absurd (List.mem_takeWhile_imp h) (by simp)

theorem dropWhile_newline : ∀ x, (s.dropWhile (· != '\n')).head? = some x → x = '\n' := by
  intro x hx
  have := List.head?_dropWhile_not (· != '\n') s
  simpa [hx] using this

theorem gap_of_skip : ∃ g, Gap ((stopped (skipWhitespaceAndComments s)).isEmpty) g ∧
    s = g ++ stopped (skipWhitespaceAndComments s) := by
  fun_induction skipWhitespaceAndComments s with
  | case1 s ih =>
    obtain ⟨g, hg, hs⟩ := ih
    obtain ⟨g', hg', hs'⟩ := hg.afterLine takeWhile_newline dropWhile_newline hs (fun _ => stopped_ne_newline) (by simp)
    exact ⟨g', hg', by rw [← hs', List.cons_append, List.cons_append, List.takeWhile_append_dropWhile]⟩
  | case2 s => exact ⟨[], .nil, rfl⟩
  | case3 s s' hc ih =>
    obtain ⟨g, hg, hs⟩ := ih
    obtain ⟨body, hb, rfl⟩ := skipBlockComment_iff.mp hc
    exact ⟨_, .blockComment hb hg, by simpa using hs⟩
  | case4 c s _ _ hc ih =>
    obtain ⟨g, hg, hs⟩ := ih
    exact ⟨c :: g, .blank hc hg, congrArg (c :: ·) hs⟩
  | case5 c s => exact ⟨[], .nil, rfl⟩
  | case6 => exact ⟨[], .nil, rfl⟩

end Gaps

-- A token is the text from the start of its scan up to where the lexer stands. An erroneous one may be shorter.
structure Slices (start : Text) (scan : Token × Lexer) : Prop where
  begins    : scan.1.start = start
  type      : scan.1.type ≠ .eof
  length_le : scan.1.length ≤ start.length - scan.2.current.length
  length_eq : scan.1.type ≠ .error → scan.1.length = start.length - scan.2.current.length

namespace Slices

variable {start : Text} {lx : Lexer} {scan : Token × Lexer}

theorem makeToken {type : TokenType} (ht : type ≠ .eof) : Slices start (lx.makeToken type start) :=
  ⟨rfl, ht, Nat.le_refl _, fun _ => rfl⟩

theorem scanError {message : String} : Slices start (lx.scanError start message) :=
  ⟨rfl, TokenType.noConfusion, Nat.le_refl _, absurd rfl⟩

theorem errorToken {message : String} (h : lx.current.length < start.length) :
    Slices start (lx.errorToken start 1 message) :=
  ⟨rfl, TokenType.noConfusion, Nat.le_sub_of_add_le' h, absurd rfl⟩

theorem ite {c : Prop} [Decidable c] {a b : Token × Lexer} (ha : Slices start a) (hb : Slices start b) :
    Slices start (if c then a else b) := by
  split
  · exact ha
  · exact hb

theorem text_append (h : Slices start scan) (hs : scan.2.current <:+ start) (he : scan.1.type ≠ .error) :
    start = scan.1.text ++ scan.2.current := by
  obtain ⟨u, rfl⟩ := hs
  simp [Token.text, h.begins, h.length_eq he]

theorem current_suffix (h : Slices start scan) (hs : scan.2.current <:+ start) : scan.2.current <:+ scan.1.stop := by
  obtain ⟨u, rfl⟩ := hs
  have hl : scan.1.length ≤ u.length := by simpa using h.length_le
  rw [Token.stop, h.begins, List.drop_append_of_le_length hl]
  exact List.suffix_append _ _

end Slices

section Scans

variable {lx : Lexer} {c : Char} {start s : Text}

theorem keywords_ne_eof : ∀ keyword ∈ keywords, keyword.2 ≠ .eof := by
  decide

theorem operators_ne_eof : ∀ operator ∈ operators, operator.2 ≠ .eof := by
  decide

theorem identifierType_ne_eof (word : Text) : identifierType word ≠ .eof := by
  unfold identifierType
  split
  case h_1 keyword h => exact keywords_ne_eof keyword (List.mem_of_find?_eq_some h)
  case h_2 => exact TokenType.noConfusion

theorem scanHexNumber_slices : Slices start (scanHexNumber lx start) := by
  have hx {lx : Lexer} : Slices start (scanHexExponent lx start) :=
    .ite .scanError (.ite .scanError (.makeToken TokenType.noConfusion))
  exact .ite .scanError (.ite hx (.ite .scanError (.ite .scanError (.makeToken TokenType.noConfusion))))

theorem scanDecimalNumber_slices : Slices start (scanDecimalNumber lx start) := by
  have hx {lx : Lexer} {isFloat : Bool} : Slices start (scanDecimalExponent lx start isFloat) := by
    refine .ite (.ite .scanError (.makeToken TokenType.noConfusion)) (.makeToken ?_)
    cases isFloat <;> exact TokenType.noConfusion
  exact .ite hx hx

theorem scanNumber_slices : Slices start (scanNumber lx start) := by
  have hx {radix : Nat} {missingDigits invalidDigit : String} :
      Slices start (scanPrefixedInteger lx start radix missingDigits invalidDigit) :=
    .ite .scanError (.ite .scanError (.makeToken TokenType.noConfusion))
  exact .ite scanHexNumber_slices (.ite hx (.ite hx scanDecimalNumber_slices))

theorem scanString_slices (hn : start ≠ []) : Slices start (scanString lx start) := by
  unfold scanString
  split
  case h_1 => exact .errorToken (List.length_pos_of_ne_nil hn)
  case h_2 => exact .makeToken TokenType.noConfusion

theorem scanCharEnd_slices (h : lx.current.length < start.length) : Slices start (scanCharEnd lx start) :=
  .ite (.makeToken TokenType.noConfusion) (.errorToken h)

theorem scanChar_slices (h : lx.current.length < start.length) : Slices start (scanChar lx start) := by
  have ha : lx.advance.current.length < start.length := Lexer.advance_suffix.length_le.trans_lt h
  unfold scanChar
  split
  case h_1 => exact .errorToken h
  case h_2 => exact .errorToken ha
  case h_3 => exact scanCharEnd_slices (Lexer.advance_suffix.length_le.trans_lt ha)
  case h_4 => exact scanCharEnd_slices ha

theorem scanOperator_slices (h : lx.current.length < start.length) : Slices start (scanOperator lx start) := by
  unfold scanOperator
  split
  case h_1 operator ho => exact .makeToken (operators_ne_eof operator (List.mem_of_find?_eq_some ho))
  case h_2 => exact .errorToken h

theorem scanToken_slices : Slices (c :: s) (scanToken { lx with current := s } c (c :: s)) :=
  have h : s.length < (c :: s).length := Nat.lt_succ_self s.length
  .ite (.makeToken (identifierType_ne_eof _)) (.ite scanNumber_slices
    (.ite (scanString_slices (List.cons_ne_nil c s)) (.ite (scanChar_slices h) (scanOperator_slices h))))

theorem scanToken_suffix : (scanToken { lx with current := s } c (c :: s)).2.current <:+ s := by
  by_cases hc : c = '"'
  case pos =>
    subst hc
    have h : StringScan s (scanToken { lx with current := s } '"' ('"' :: s)) := scanToken_quote
    cases h
    case unterminated stop => exact stop ▸ List.nil_suffix
    case closed closes _ current => exact current ▸ scanStringBody_suffix closes
  case neg => exact (scanToken_plain hc).suffix

end Scans

section Run

variable {lx : Lexer} {ts : List Token} {s comment start g : Text} {c : Char} {scan : Token × Lexer}

theorem comment_ne_nil (h : skipWhitespaceAndComments s = .error comment) : comment ≠ [] := by
  fun_induction skipWhitespaceAndComments s with
  | case1 _ ih => exact ih h
  | case2 =>
    cases h
    exact List.cons_ne_nil _ _
  | case3 _ _ _ ih => exact ih h
  | case4 _ _ _ _ _ ih => exact ih h
  | case5 => cases h
  | case6 => cases h

theorem Slices.layout (h : Slices (c :: s) scan) (hs : scan.2.current <:+ s) (hg : Gap false g)
    (hl : Layout ts scan.2.current) : Layout (scan.1 :: ts) (g ++ c :: s) := by
  have hs' : scan.2.current <:+ c :: s := hs.trans (List.suffix_cons c s)
  by_cases he : scan.1.type = .error
  case pos =>
    rw [← h.begins]
    exact .error hg he (h.current_suffix hs') hl
  case neg =>
    have ht : c :: s = scan.1.text ++ scan.2.current := h.text_append hs' he
    have hn : scan.1.text ≠ [] := by
      intro hn
      rw [hn, List.nil_append] at ht
      exact absurd (ht ▸ hs).length_le (by simp)
    rw [← h.begins]
    exact .token hg ⟨he, h.type⟩ hn (h.begins.trans ht) hl

theorem Layout.next (he : (lexerNext lx).1.type ≠ .eof) (h : Layout ts (lexerNext lx).2.current) :
    Layout ((lexerNext lx).1 :: ts) lx.current := by
  obtain ⟨g, hg, hs⟩ := gap_of_skip (s := lx.current)
  unfold lexerNext at he h ⊢
  refine (congrArg (Layout _) hs).mpr ?_
  generalize hk : skipWhitespaceAndComments lx.current = skip at *
  cases skip
  case error comment =>
    have hg : Gap false g := by
      rwa [stopped, List.isEmpty_eq_false_iff.mpr (comment_ne_nil hk)] at hg
    exact .error hg rfl List.nil_suffix h
  case ok t =>
    cases t
    case nil => exact absurd rfl he
    case cons c s => exact scanToken_slices.layout scanToken_suffix hg h

theorem Layout.last (he : (lexerNext lx).1.type = .eof) : Layout [(lexerNext lx).1] lx.current := by
  obtain ⟨g, hg, hs⟩ := gap_of_skip (s := lx.current)
  unfold lexerNext at he ⊢
  generalize hk : skipWhitespaceAndComments lx.current = skip at *
  cases skip
  case error comment => cases he
  case ok t =>
    cases t
    case nil =>
      refine (congrArg (Layout _) (hs.trans (List.append_nil g))).mpr ?_
      exact .eof hg
    case cons c s => exact absurd he scanToken_slices.type

end Run
end Coglet.Parse
