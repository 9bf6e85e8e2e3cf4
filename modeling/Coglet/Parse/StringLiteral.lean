import Coglet.Parse.Parser
import Mathlib.Algebra.Ring.Nat

namespace Coglet.Parse

namespace Token

-- The bytes between the quotes.
def payload (t : Token) : Text :=
  t.start.tail.take (t.length - 2)

end Token

namespace Parser

-- Each token takes a character of the source. The string that has been read but not consumed counts as one more.
def unread (p : Parser) : Nat :=
  2 * p.lexer.current.length + if p.check .string then 1 else 0

theorem advance_unread_lt {p : Parser} (h : p.check .string) : p.advance.unread < p.unread := by
  unfold unread
  rw [if_pos h]
  split
  case isTrue hs =>
    have hs : p.advance.current.type = .string := beq_iff_eq.mp hs
    have := p.advance_length_lt fun he => TokenType.noConfusion (hs.symm.trans he)
    omega
  case isFalse hs =>
    have := p.advance_length_le
    omega

-- The first loop of `parse_adjacent_string_literals`. It keeps the last literal and the length of the payloads.
def lastLiteral (p : Parser) (last : Token) (length : Nat) : Parser × Token × Nat :=
  if _h : p.check .string then
    p.advance.lastLiteral p.current (length + (p.current.length - 2))
  else
    (p, last, length)
termination_by p.unread
decreasing_by exact advance_unread_lt _h

end Parser

def skipBlanks (s : Text) : Text :=
  s.dropWhile isBlank

theorem skipBlanks_suffix (s : Text) : skipBlanks s <:+ s :=
  List.dropWhile_suffix isBlank

-- Stops at the closing quote, where `scan_string` consumes it.
def skipPayload : Text → Text
  | '"' :: rest => '"' :: rest
  | '\\' :: _ :: rest => skipPayload rest
  | _ :: rest => skipPayload rest
  | [] => []

theorem skipPayload_suffix (s : Text) : skipPayload s <:+ s := by
  fun_induction skipPayload s with
  | case1 => exact List.suffix_rfl
  | case2 c s ih => exact ih.trans ((List.suffix_cons c s).trans (List.suffix_cons _ _))
  | case3 c s _ _ ih => exact ih.trans (List.suffix_cons c s)
  | case4 => exact List.suffix_rfl

-- The second loop. It reads the source between the literals again and copies the payloads that it finds.
def rescan (stop cursor : Text) : Text :=
  if stop.length < cursor.length then
    match _h : skipBlanks cursor with
    | '"' :: payload =>
      let closing := skipPayload payload
      let part := payload.take (payload.length - closing.length)
      part ++ rescan stop (if closing.head? = some '"' then closing.tail else closing)
    | _ => []
  else
    []
termination_by cursor.length
decreasing_by
  have hb := (skipBlanks_suffix cursor).length_le
  have hp := (skipPayload_suffix payload).length_le
  have ht := (List.tail_suffix (skipPayload payload)).length_le
  simp only [_h, List.length_cons] at hb
  split <;> omega

structure ParsedStringLiteral where
  text  : Text
  first : Token
  last  : Token

def Parser.parseAdjacentStringLiterals (p : Parser) : ParsedStringLiteral × Parser :=
  let first := p.previous
  let (p, last, length) := p.lastLiteral first (first.length - 2)
  if last.start = first.stop then
    (⟨first.start.tail.take length, first, last⟩, p)
  else
    (⟨first.payload ++ rescan last.stop first.stop, first, last⟩, p)

-- The tokens after the first literal that the first loop consumes.
def Parser.moreLiterals (p : Parser) : List Token :=
  if _h : p.check .string then
    p.current :: p.advance.moreLiterals
  else
    []
termination_by p.unread
decreasing_by exact Parser.advance_unread_lt _h

namespace Token

-- What separates two literals in the source.
def gap (t u : Token) : Text :=
  t.stop.take (t.stop.length - u.start.length)

-- The literals behind the first gap that is not blank.
def separated : Token → List Token → List Token
  | _, [] => []
  | t, u :: us => if (t.gap u).all isBlank then separated u us else u :: us

-- The payload of a literal is lost when the literal touches the first one and is the last, or when something other than
-- blanks separates it from the first one.
structure Joins (first : Token) (more : List Token) : Prop where
  touching  : ∀ t, more = [t] → t.start = first.stop → t.payload = []
  separated : ∀ t ∈ first.separated more, t.payload = []

end Token

theorem skipWhitespaceAndComments_blank {c : Char} {s : Text} (h : isBlank c) :
    skipWhitespaceAndComments (c :: s) = skipWhitespaceAndComments s := by
  rw [skipWhitespaceAndComments]
  case x_1 =>
    rintro rest rfl
    cases h
  case x_2 =>
    rintro rest rfl
    cases h
  exact if_pos h

theorem skipBlanks_quote {s body : Text} (h : skipBlanks s = '"' :: body) :
    skipWhitespaceAndComments s = .ok ('"' :: body) := by
  unfold skipBlanks at h
  induction s
  case nil => cases h
  case cons c s ih =>
    cases hc : isBlank c
    case true =>
      rw [List.dropWhile_cons_of_pos hc] at h
      exact (skipWhitespaceAndComments_blank hc).trans (ih h)
    case false =>
      rw [List.dropWhile_cons_of_neg (by simp [hc])] at h
      cases h
      simp [skipWhitespaceAndComments, isBlank]

theorem skipBlanks_append {s rest : Text} (h : s.all isBlank) : skipBlanks (s ++ rest) = skipBlanks rest := by
  unfold skipBlanks
  rw [List.dropWhile_append_of_pos]
  simpa using h

theorem scanStringBody_split {s rest : Text} (h : scanStringBody s = some rest) : ∃ payload : Text,
    s = payload ++ '"' :: rest ∧ skipPayload s = '"' :: rest ∧ payload.head? ≠ some '"' := by
  fun_induction scanStringBody s with
  | case1 =>
    cases h
    exact ⟨[], rfl, by simp [skipPayload], by simp⟩
  | case2 c s ih =>
    obtain ⟨payload, hs, hp, _⟩ := ih h
    exact ⟨'\\' :: c :: payload, by simp [hs], by simpa [skipPayload] using hp, by simp⟩
  | case3 c s hq he ih =>
    obtain ⟨payload, hs, hp, _⟩ := ih h
    refine ⟨c :: payload, by simp [hs], ?_, ?_⟩
    · rw [skipPayload]
      · exact hp
      · exact hq
      · exact he
    · rintro ⟨rfl⟩
      exact hq rfl
  | case4 => cases h

namespace Token

-- A token that the lexer returns for a string: it begins at a quote and ends behind the next one that is not escaped.
structure IsString (t : Token) : Prop where
  type    : t.type = .string
  start   : t.start = '"' :: (t.payload ++ '"' :: t.stop)
  closing : skipPayload (t.payload ++ '"' :: t.stop) = '"' :: t.stop
  noQuote : t.payload.head? ≠ some '"'
  length  : t.length = t.payload.length + 2

theorem IsString.of_body {body rest : Text} (h : scanStringBody body = some rest) :
    IsString ⟨.string, '"' :: body, body.length + 1 - rest.length⟩ ∧
      stop ⟨.string, '"' :: body, body.length + 1 - rest.length⟩ = rest := by
  have ⟨payload, hs, hp, hq⟩ := scanStringBody_split h
  have hl : body.length + 1 - rest.length = payload.length + 2 := by
    simp only [hs, List.length_append, List.length_cons]
    omega
  have hstop : stop ⟨.string, '"' :: body, payload.length + 2⟩ = rest := by
    simp [stop, hs]
  have hpayload : Token.payload ⟨.string, '"' :: body, payload.length + 2⟩ = payload := by
    simp [Token.payload, hs]
  rw [hl]
  refine ⟨⟨rfl, ?_, ?_, ?_, ?_⟩, hstop⟩
  · rw [hstop, hpayload, hs]
  · rw [hstop, hpayload, ← hs, hp]
  · rw [hpayload]
    exact hq
  · rw [hpayload]

end Token

-- The string that the parser reads next from the text `s`.
structure ReadsString (s : Text) (t : Token) : Prop where
  isString : t.IsString
  within   : t.start <:+ s
  opens    : ∀ body, skipBlanks s = '"' :: body → t.start = '"' :: body

namespace Parser

variable {p : Parser}

theorem readToken_string (h : p.readToken.current.type = .string) :
    ReadsString p.lexer.current p.readToken.current ∧ p.readToken.lexer.current = p.readToken.current.stop := by
  fun_induction readToken p with
  | case1 p scan p' he ih =>
    have hr : ReadsString scan.2.current _ ∧ _ := ih h
    have nonempty (hs : scan.2.current = []) : False := by
      have := hr.1.within
      rw [hs, hr.1.isString.start] at this
      cases List.eq_nil_of_suffix_nil this
    cases lexerNext_lexes p.lexer
    case eof _ stop => exact (nonempty stop).elim
    case comment _ _ stop => exact (nonempty stop).elim
    case plain c rest skip hc plain =>
      refine ⟨⟨hr.1.isString, ?_, ?_⟩, hr.2⟩
      · exact hr.1.within.trans (lexerNext_lexes p.lexer).suffix
      · intro body hb
        cases (skipBlanks_quote hb).symm.trans skip
        exact (hc rfl).elim
    case string body skip string =>
      cases string
      case unterminated _ stop => exact (nonempty stop).elim
      case closed token _ =>
        rw [token] at he
        cases he
  | case2 p scan p' he =>
    cases lexerNext_lexes p.lexer
    case eof type _ => cases type.symm.trans h
    case comment _ type _ => exact (he type).elim
    case plain plain => exact (plain.type h).elim
    case string body skip string =>
      cases string
      case unterminated type _ => exact (he type).elim
      case closed rest closes token current =>
        obtain ⟨hs, hstop⟩ := Token.IsString.of_body closes
        have ht : p'.current = _ := token
        rw [ht]
        refine ⟨⟨hs, skipWhitespaceAndComments_suffix skip, ?_⟩, current.trans hstop.symm⟩
        intro body' hb
        cases (skipBlanks_quote hb).symm.trans skip
        rfl

-- The current token is a string only if the lexer has just read it.
structure Scanned (p : Parser) : Prop where
  isString : p.current.type = .string → p.current.IsString
  stop     : p.current.type = .string → p.lexer.current = p.current.stop

theorem readToken_scanned : p.readToken.Scanned where
  isString h := (readToken_string h).1.isString
  stop h     := (readToken_string h).2

theorem Scanned.matchGenericGreater {p' : Parser} (h : p.matchGenericGreater = some p') : p'.Scanned := by
  unfold Parser.matchGenericGreater accept at h
  split at h
  case h_1 accepted ha =>
    cases h
    split at ha
    · cases ha
      exact readToken_scanned
    · cases ha
  case h_2 =>
    split at h
    · cases h
      exact ⟨fun hs => TokenType.noConfusion hs, fun hs => TokenType.noConfusion hs⟩
    · cases h

theorem Reachable.scanned {source : Text} (h : Reachable source p) : p.Scanned := by
  induction h
  case start => exact readToken_scanned
  case advance => exact readToken_scanned
  case matchGenericGreater h _ => exact .matchGenericGreater h
  case addDiagnostic ih => exact ⟨ih.isString, ih.stop⟩

theorem advance_readsString (h : p.Scanned) (hs : p.check .string) (hn : p.advance.check .string) :
    ReadsString p.current.stop p.advance.current := by
  have hr := readToken_string (beq_iff_eq.mp hn)
  have hl : p.lexer.current = p.current.stop := h.stop (beq_iff_eq.mp hs)
  exact hl ▸ hr.1

theorem moreLiterals_of_check (h : p.check .string) : p.moreLiterals = p.current :: p.advance.moreLiterals := by
  rw [moreLiterals]
  exact dif_pos h

theorem moreLiterals_of_not_check (h : ¬p.check .string) : p.moreLiterals = [] := by
  rw [moreLiterals]
  exact dif_neg h

theorem moreLiterals_isString (h : p.Scanned) : ∀ t ∈ p.moreLiterals, t.IsString := by
  fun_induction moreLiterals p with
  | case1 p hs ih =>
    intro t ht
    cases ht
    case head => exact h.isString (beq_iff_eq.mp hs)
    case tail ht => exact ih readToken_scanned t ht
  | case2 => simp

theorem moreLiterals_chain (h : p.Scanned) {t : Token} (ht : p.check .string → ReadsString t.stop p.current) :
    List.IsChain (fun t u => ReadsString t.stop u) (t :: p.moreLiterals) := by
  fun_induction moreLiterals p generalizing t with
  | case1 p hs ih => exact (ih readToken_scanned (advance_readsString h hs)).cons_cons (ht hs)
  | case2 => exact .singleton t

theorem lastLiteral_eq (last : Token) (length : Nat) : (p.lastLiteral last length).2 =
    (p.moreLiterals.getLastD last, length + (p.moreLiterals.map (·.length - 2)).sum) := by
  fun_induction lastLiteral p last length with
  | case1 p last length h ih =>
    rw [ih, moreLiterals_of_check h, List.getLastD_cons, List.map_cons, List.sum_cons, Nat.add_assoc]
  | case2 p last length h =>
    rw [moreLiterals_of_not_check h]
    rfl

end Parser

theorem rescan_stop {s : Text} : rescan s s = [] := by
  rw [rescan.eq_def]
  exact if_neg (Nat.lt_irrefl _)

theorem rescan_literal {stop cursor payload rest : Text} (hl : stop.length < cursor.length)
    (hb : skipBlanks cursor = '"' :: (payload ++ '"' :: rest))
    (hc : skipPayload (payload ++ '"' :: rest) = '"' :: rest) : rescan stop cursor = payload ++ rescan stop rest := by
  rw [rescan.eq_def, if_pos hl]
  split
  case h_1 body h =>
    cases hb.symm.trans h
    simp [hc]
  case h_2 h => exact (h _ hb).elim

theorem rescan_other {stop cursor : Text} (hb : ∀ body, skipBlanks cursor ≠ '"' :: body) : rescan stop cursor = [] := by
  rw [rescan.eq_def]
  split
  · split
    case h_1 body h => exact (hb body h).elim
    case h_2 => rfl
  · rfl

namespace Token

variable {t u : Token} {more : List Token}

-- Only a blank gap lets the second loop reach the next literal.
theorem gap_all_isBlank_iff (hu : ReadsString t.stop u) : (t.gap u).all isBlank ↔ skipBlanks t.stop = u.start := by
  have ⟨gap, hg⟩ := hu.within
  have hgap : t.gap u = gap := by
    simp [Token.gap, ← hg]
  rw [hgap]
  constructor
  case mp =>
    intro h
    rw [← hg, skipBlanks_append h, hu.isString.start]
    rfl
  case mpr =>
    intro h
    have ht : t.stop.takeWhile isBlank ++ skipBlanks t.stop = t.stop := List.takeWhile_append_dropWhile
    rw [h] at ht
    rw [← List.append_cancel_right (ht.trans hg.symm)]
    exact List.all_takeWhile

theorem stop_length_lt (h : t.IsString) : t.stop.length < t.start.length := by
  rw [h.start]
  simp only [List.length_cons, List.length_append]
  omega

theorem getLastD_stop_length_le (hs : ∀ u ∈ more, u.IsString)
    (hc : List.IsChain (fun t u => ReadsString t.stop u) (t :: more)) :
    (more.getLastD t).stop.length ≤ t.stop.length := by
  induction more generalizing t
  case nil => exact Nat.le_refl _
  case cons u us ih =>
    have ⟨hu, hc⟩ := List.isChain_cons_cons.mp hc
    rw [List.getLastD_cons]
    have := ih (fun v hv => hs v (.tail _ hv)) hc
    have := stop_length_lt hu.isString
    have := hu.within.length_le
    omega

theorem rescan_separated (hs : ∀ u ∈ more, u.IsString)
    (hc : List.IsChain (fun t u => ReadsString t.stop u) (t :: more)) :
    rescan (more.getLastD t).stop t.stop ++ ((t.separated more).map payload).flatten =
      (more.map payload).flatten := by
  induction more generalizing t
  case nil =>
    rw [List.getLastD_nil, rescan_stop]
    rfl
  case cons u us ih =>
    have ⟨hu, hc⟩ := List.isChain_cons_cons.mp hc
    rw [List.getLastD_cons, Token.separated]
    by_cases hg : (t.gap u).all isBlank
    case pos =>
      have hl : (us.getLastD u).stop.length < t.stop.length := by
        have := getLastD_stop_length_le (fun v hv => hs v (.tail _ hv)) hc
        have := stop_length_lt hu.isString
        have := hu.within.length_le
        omega
      have hb := ((gap_all_isBlank_iff hu).mp hg).trans hu.isString.start
      rw [if_pos hg, rescan_literal hl hb hu.isString.closing, List.append_assoc,
        ih (fun v hv => hs v (.tail _ hv)) hc]
      rfl
    case neg =>
      have hb (body : Text) : skipBlanks t.stop ≠ '"' :: body := by
        intro h
        exact hg ((gap_all_isBlank_iff hu).mpr (h.trans (hu.opens body h).symm))
      rw [if_neg hg, rescan_other hb]
      rfl

theorem getLastD_start_length_le (hs : ∀ u ∈ more, u.IsString)
    (hc : List.IsChain (fun t u => ReadsString t.stop u) (t :: more)) (hn : more ≠ []) :
    (more.getLastD t).start.length ≤ t.stop.length := by
  induction more generalizing t
  case nil => exact absurd rfl hn
  case cons u us ih =>
    have ⟨hu, hc⟩ := List.isChain_cons_cons.mp hc
    rw [List.getLastD_cons]
    cases us
    case nil => exact hu.within.length_le
    case cons v vs _ =>
      have := ih (fun w hw => hs w (.tail _ hw)) hc (List.cons_ne_nil v vs)
      have := stop_length_lt hu.isString
      have := hu.within.length_le
      omega

-- The pointer comparison of the fast path holds only for two literals without a gap.
theorem touching_more (ht : t.IsString) (hs : ∀ u ∈ more, u.IsString)
    (hc : List.IsChain (fun t u => ReadsString t.stop u) (t :: more)) (he : (more.getLastD t).start = t.stop) :
    ∃ u, more = [u] ∧ u.start = t.stop := by
  cases more
  case nil =>
    have := stop_length_lt ht
    rw [← he] at this
    exact absurd this (Nat.lt_irrefl _)
  case cons u us =>
    have ⟨hu, hc⟩ := List.isChain_cons_cons.mp hc
    rw [List.getLastD_cons] at he
    cases us
    case nil => exact ⟨u, rfl, he⟩
    case cons v vs _ =>
      have hl := getLastD_start_length_le (fun w hw => hs w (.tail _ hw)) hc (List.cons_ne_nil v vs)
      have := stop_length_lt hu.isString
      have := hu.within.length_le
      rw [he] at hl
      omega

theorem flatten_separated_eq_nil_iff :
    ((t.separated more).map payload).flatten = [] ↔ ∀ u ∈ t.separated more, u.payload = [] := by
  simp [List.flatten_eq_nil_iff]

-- The raw source behind the first payload begins with the closing quote.
theorem touching_payload_iff (ht : t.IsString) (hu : u.IsString) :
    t.start.tail.take (t.payload.length + u.payload.length) = t.payload ++ u.payload ↔ u.payload = [] := by
  have hq := hu.noQuote
  rw [ht.start, List.tail_cons, List.take_length_add_append, List.append_cancel_left_eq]
  constructor
  case mp =>
    intro h
    cases hp : u.payload
    case nil => rfl
    case cons c cs =>
      rw [hp, List.length_cons, List.take_succ_cons] at h
      have hc := (List.cons.inj h).1
      rw [hp, ← hc] at hq
      exact absurd rfl hq
  case mpr =>
    intro h
    rw [h]
    rfl

end Token

namespace Parser

def ConcatenatesAdjacent (p : Parser) : Prop :=
  p.parseAdjacentStringLiterals.1.text = ((p.previous :: p.moreLiterals).map Token.payload).flatten

theorem parseAdjacentStringLiterals_text {p : Parser} (hp : p.previous.IsString)
    (hs : ∀ t ∈ p.moreLiterals, t.IsString) : p.parseAdjacentStringLiterals.1.text =
      if (p.moreLiterals.getLastD p.previous).start = p.previous.stop then
        p.previous.start.tail.take (p.previous.payload.length + (p.moreLiterals.map (·.payload.length)).sum)
      else
        p.previous.payload ++ rescan (p.moreLiterals.getLastD p.previous).stop p.previous.stop := by
  have hf : p.previous.length - 2 = p.previous.payload.length := by
    rw [hp.length, Nat.add_sub_cancel]
  have hl : p.moreLiterals.map (·.length - 2) = p.moreLiterals.map (·.payload.length) := by
    apply List.map_congr_left
    intro t ht
    rw [(hs t ht).length, Nat.add_sub_cancel]
  have h := lastLiteral_eq (p := p) p.previous (p.previous.length - 2)
  rw [hl, hf] at h
  unfold parseAdjacentStringLiterals
  simp only [hf, h]
  split <;> rfl

end Parser

end Coglet.Parse
