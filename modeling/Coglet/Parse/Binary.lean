import Coglet.Lib.Precedence
import Coglet.Parse.Parser

namespace Coglet.Parse

open Precedence

abbrev precNone : Nat := 0
abbrev precLogicalOr : Nat := 1
abbrev precLogicalAnd : Nat := 2
abbrev precEquality : Nat := 3
abbrev precComparison : Nat := 4
abbrev precBitwiseOr : Nat := 5
abbrev precBitwiseXor : Nat := 6
abbrev precBitwiseAnd : Nat := 7
abbrev precShift : Nat := 8
abbrev precTerm : Nat := 9
abbrev precFactor : Nat := 10

def getPrecedence : TokenType → Nat
  | .orOr => precLogicalOr
  | .andAnd => precLogicalAnd
  | .equalEqual | .bangEqual => precEquality
  | .less | .lessEqual | .greater | .greaterEqual => precComparison
  | .or => precBitwiseOr
  | .xor => precBitwiseXor
  | .and => precBitwiseAnd
  | .shiftLeft | .shiftRight => precShift
  | .plus | .minus => precTerm
  | .star | .slash | .percent => precFactor
  | _ => precNone

-- The nodes that `parse_unary` returns, and how far it moves the parser.
abbrev UnaryParser (ν : Type) :=
  Parser → ν × Parser

section

variable {ν : Type} (parseUnary : UnaryParser ν)

-- The binary nodes are those of `ast_new_binary`, the operands are kept apart from them.
mutual

def parseBinary : Nat → Parser → Nat → Option (Tree TokenType ν × Parser)
  | 0, _, _ => none
  | fuel + 1, p, minPrec =>
    let (operand, p) := parseUnary p
    parseBinaryFrom fuel p (.operand operand) minPrec

def parseBinaryFrom : Nat → Parser → Tree TokenType ν → Nat → Option (Tree TokenType ν × Parser)
  | 0, _, _, _ => none
  | fuel + 1, p, left, minPrec =>
    let prec := getPrecedence p.current.type
    if prec < minPrec then some (left, p)
    else
      let op := p.current
      match parseBinary fuel p.advance (prec + 1) with
      | none => none
      | some (right, p) => parseBinaryFrom fuel p (.binary op.type left right) minPrec

end

-- The parser stands before operators, each followed by an operand, and no other operator follows.
inductive Continues : Parser → List (TokenType × ν) → Parser → Prop
  | done {p : Parser} (ends : getPrecedence p.current.type = precNone) : Continues p [] p
  | operator {p p' last : Parser} {operand : ν} {rest : List (TokenType × ν)}
      (known : precNone < getPrecedence p.current.type) (reads : parseUnary p.advance = (operand, p'))
      (continues : Continues p' rest last) :
    Continues p ((p.current.type, operand) :: rest) last

end

section

variable {ν : Type} {parseUnary : UnaryParser ν} {p last : Parser} {left tree : Tree TokenType ν}
  {rest remaining : List (TokenType × ν)} {minPrec : Nat}

theorem Continues.known (h : Continues parseUnary p rest last) :
    ∀ op ∈ rest, precLogicalOr ≤ getPrecedence op.1 := by
  induction h
  case done => simp
  case operator known _ _ ih => exact List.forall_mem_cons.mpr ⟨known, ih⟩

-- What the loop does to the parser is what climbing does to the operators.
theorem parseBinaryFrom_eq (h : Climbs getPrecedence minPrec left rest tree remaining)
    (hc : Continues parseUnary p rest last) (hm : precLogicalOr ≤ minPrec) :
    ∃ p', Continues parseUnary p' remaining last ∧
      ∀ fuel, 2 * rest.length + 1 ≤ fuel → parseBinaryFrom parseUnary fuel p left minPrec = some (tree, p') := by
  induction h generalizing p
  case stop minPrec tree rest lower =>
    refine ⟨p, hc, fun fuel hf => ?_⟩
    have hlt : getPrecedence p.current.type < minPrec := by
      cases hc with
      | done ends => exact ends ▸ hm
      | operator => exact lower _ rfl
    cases fuel with
    | zero => cases hf
    | succ fuel => rw [parseBinaryFrom, if_pos hlt]
  case step minPrec left right tree op x rest middle remaining reaches operand continues io ic =>
    cases hc with
    | operator known reads hc =>
      rename_i p'
      obtain ⟨pm, hcm, hright⟩ := io hc (Nat.le_add_left _ _)
      obtain ⟨p'', hcl, htree⟩ := ic hcm hm
      refine ⟨p'', hcl, fun fuel hf => ?_⟩
      have hmiddle := operand.suffix.length_le
      rw [List.length_cons] at hf
      obtain ⟨fuel, rfl⟩ : ∃ n, fuel = n + 2 := ⟨fuel - 2, by omega⟩
      have hparsed : parseBinary parseUnary (fuel + 1) p.advance (getPrecedence p.current.type + 1) =
          some (right, pm) := by
        simp only [parseBinary, reads]
        exact hright fuel (by omega)
      rw [parseBinaryFrom, if_neg (Nat.not_lt.mpr reaches)]
      simp only [hparsed]
      exact htree (fuel + 1) (by omega)

-- The operators and operands that follow the first operand become the one tree that respects the precedences.
theorem parseBinary_tree {p p' last : Parser} {x : ν} {rest : List (TokenType × ν)} (hx : parseUnary p = (x, p'))
    (hc : Continues parseUnary p' rest last) :
    ∃ tree, tree.tokens = .inr x :: pairTokens rest ∧ Ordered getPrecedence tree ∧
      (∀ tree', tree'.tokens = .inr x :: pairTokens rest → Ordered getPrecedence tree' → tree' = tree) ∧
      (∀ fuel, 2 * rest.length + 2 ≤ fuel →
        parseBinary parseUnary fuel p precLogicalOr = some (tree, last) ∧
        parseBinaryFrom parseUnary fuel p' (.operand x) precLogicalOr = some (tree, last)) := by
  obtain ⟨tree, climbs, htokens, hordered⟩ := climbs_all (x := x) hc.known
  obtain ⟨p'', hlast, hparse⟩ := parseBinaryFrom_eq climbs hc (Nat.le_refl _)
  cases hlast
  refine ⟨tree, htokens, hordered, fun tree' ht ho => ho.unique hordered (ht.trans htokens.symm), fun fuel hf => ?_⟩
  constructor
  case left =>
    obtain ⟨fuel, rfl⟩ : ∃ n, fuel = n + 1 := ⟨fuel - 1, by omega⟩
    simp only [parseBinary, hx]
    exact hparse fuel (by omega)
  case right => exact hparse fuel (by omega)

-- An identifier that nothing follows but an operator.
def parseIdentifier : UnaryParser String :=
  fun p => (String.ofList p.current.text, p.advance)

def mixedOperators : Parser :=
  Parser.start "a - b * c - d;".toList

theorem mixedOperators_continues :
    Continues parseIdentifier mixedOperators.advance [(.minus, "b"), (.star, "c"), (.minus, "d")]
      mixedOperators.advance.advance.advance.advance.advance.advance.advance := by
  have operator {p : Parser} {op : TokenType} {x : String} {rest : List (TokenType × String)} {last : Parser}
      (ht : p.current.type = op) (hop : precNone < getPrecedence op) (hx : String.ofList p.advance.current.text = x)
      (hc : Continues parseIdentifier p.advance.advance rest last) :
      Continues parseIdentifier p ((op, x) :: rest) last := by
    subst ht hx
    exact .operator hop rfl hc
  apply operator (by decide +kernel) (by decide) (by decide +kernel)
  apply operator (by decide +kernel) (by decide) (by decide +kernel)
  apply operator (by decide +kernel) (by decide) (by decide +kernel)
  exact .done (by decide +kernel)

theorem parseBinary_tree_mixed :
    ∃ tree, tree.tokens =
        [.inr "a", .inl .minus, .inr "b", .inl .star, .inr "c", .inl .minus, .inr "d"] ∧
      Ordered getPrecedence tree ∧
      parseBinary parseIdentifier 8 mixedOperators precLogicalOr =
        some (tree, mixedOperators.advance.advance.advance.advance.advance.advance.advance) := by
  have hx : parseIdentifier mixedOperators = ("a", mixedOperators.advance) := by
    have hname : String.ofList mixedOperators.current.text = "a" := by decide +kernel
    rw [parseIdentifier, hname]
  obtain ⟨tree, htokens, hordered, _, hparse⟩ := parseBinary_tree hx mixedOperators_continues
  exact ⟨tree, htokens, hordered, (hparse 8 (by decide)).1⟩

end

end Coglet.Parse
