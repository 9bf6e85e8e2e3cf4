import Coglet.Parse.Lexer

namespace Coglet.Parse

inductive DiagnosticPhase
  | lexer | parser
deriving DecidableEq, Repr

structure Diagnostic where
  phase   : DiagnosticPhase
  token   : Token
  message : String
deriving DecidableEq, Repr

structure Parser where
  lexer       : Lexer
  current     : Token
  previous    : Token
  hadError    : Bool
  diagnostics : List Diagnostic
deriving DecidableEq, Repr

namespace Parser

def addDiagnostic (p : Parser) (token : Token) (message : String) : Parser where
  lexer       := p.lexer
  current     := p.current
  previous    := p.previous
  hadError    := true
  diagnostics := p.diagnostics ++ [⟨if token.type = .error then .lexer else .parser, token, message⟩]

-- The loop of `advance`.
def readToken (p : Parser) : Parser :=
  let scan := lexerNext p.lexer
  let p' := { p with current := scan.1, lexer := scan.2 }
  if _h : scan.1.type = .error then
    (p'.addDiagnostic scan.1 (scan.2.errorMsg.getD "invalid token")).readToken
  else
    p'
termination_by p.lexer.current.length
decreasing_by exact (lexerNext_lexes p.lexer).length_lt fun he => TokenType.noConfusion (_h.symm.trans he)

def advance (p : Parser) : Parser :=
  { p with previous := p.current }.readToken

def check (p : Parser) (type : TokenType) : Bool :=
  p.current.type == type

-- `match`
def accept (p : Parser) (type : TokenType) : Option Parser :=
  if p.check type then some p.advance else none

def matchGenericGreater (p : Parser) : Option Parser :=
  match p.accept .greater with
  | some p' => some p'
  | none =>
    -- The second character of `>>` is left as a token of its own.
    if p.check .shiftRight then
      some { p with
        previous := { p.current with type := .greater, length := 1 }
        current  := ⟨.greater, p.current.start.drop 1, 1⟩ }
    else
      none

-- `parser_init_common`
def start (source : Text) : Parser :=
  advance ⟨⟨source, none⟩, ⟨.eof, [], 0⟩, ⟨.eof, [], 0⟩, false, []⟩

-- The parser moves through the source in these ways only.
inductive Reachable (source : Text) : Parser → Prop
  | start : Reachable source (start source)
  | advance {p : Parser} : Reachable source p → Reachable source p.advance
  | matchGenericGreater {p p' : Parser} : Reachable source p → p.matchGenericGreater = some p' → Reachable source p'
  | addDiagnostic {p : Parser} {token : Token} {message : String} :
    Reachable source p → Reachable source (p.addDiagnostic token message)

variable {p : Parser}

theorem readToken_previous : p.readToken.previous = p.previous := by
  fun_induction readToken p with
  | case1 p _ _ _ ih => exact ih
  | case2 => rfl

theorem readToken_suffix : p.readToken.lexer.current <:+ p.lexer.current := by
  fun_induction readToken p with
  | case1 p _ _ _ ih => exact List.IsSuffix.trans ih (lexerNext_lexes p.lexer).suffix
  | case2 p => exact (lexerNext_lexes p.lexer).suffix

theorem readToken_length_lt (h : p.readToken.current.type ≠ .eof) :
    p.readToken.lexer.current.length < p.lexer.current.length := by
  fun_induction readToken p with
  | case1 p _ _ _ ih => exact Nat.lt_of_lt_of_le (ih h) (lexerNext_lexes p.lexer).suffix.length_le
  | case2 p => exact (lexerNext_lexes p.lexer).length_lt h

@[simp]
theorem advance_previous : p.advance.previous = p.current :=
  readToken_previous

-- A call of `advance` reads a token that is not the last one, or leaves the parser at the end.
theorem advance_length_lt (h : p.advance.current.type ≠ .eof) :
    p.advance.lexer.current.length < p.lexer.current.length :=
  readToken_length_lt h

theorem advance_length_le : p.advance.lexer.current.length ≤ p.lexer.current.length :=
  readToken_suffix.length_le

end Parser
end Coglet.Parse
