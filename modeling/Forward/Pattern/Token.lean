/-
  Tokens: the symbols that patterns are written with.

  There are twenty symbols, each a single character, and the blank run between them.  Some
  symbols belong to the language without any rule using them.
-/
import Forward.Pattern.Record
import Forward.Table

namespace Forward

/-- What a pattern is written with. -/
inductive Token where
  | atom (letter : Atom)
  | leftBrace
  | rightBrace
  | leftSquare
  | rightSquare
  | leftParen
  | rightParen
  | pipe
  | comma
  | plus
  | star
  | question
  /-- Any record that is not nil. -/
  | dot
  /-- The nil record. -/
  | cross
  /-- A look at the next record. -/
  | peek
  | caret
  | dollar
  /-- A run of blanks. -/
  | space
  deriving DecidableEq, Repr

namespace Token

/-- The character a token is written as, if it is always the same one. -/
def symbol : Token → Option Char
  | .atom letter => some letter.char
  | .leftBrace => some '{'
  | .rightBrace => some '}'
  | .leftSquare => some '['
  | .rightSquare => some ']'
  | .leftParen => some '('
  | .rightParen => some ')'
  | .pipe => some '|'
  | .comma => some ','
  | .plus => some '+'
  | .star => some '*'
  | .question => some '?'
  | .dot => some '.'
  | .cross => some '✖'
  | .peek => some 'x'
  | .caret => some '^'
  | .dollar => some '$'
  | .space => none

/-- Every character that is a token by itself. -/
def symbols : Table Char Token :=
  [('B', .atom .b), ('W', .atom .w), ('H', .atom .h), ('L', .atom .l),
    ('{', .leftBrace), ('}', .rightBrace), ('[', .leftSquare), (']', .rightSquare),
    ('(', .leftParen), (')', .rightParen), ('|', .pipe), (',', .comma),
    ('+', .plus), ('*', .star), ('?', .question), ('.', .dot), ('✖', .cross), ('x', .peek),
    ('^', .caret), ('$', .dollar)]

/-- How a report names a token. -/
def text (t : Token) : String :=
  match t.symbol with
  | some c => "'" ++ String.singleton c ++ "'"
  | none => "whitespace"

/-- The characters that blank runs are made of. -/
def blanks : String := " \t\n\r"

/-! ## The table and the characters say the same -/

theorem lookup_symbol {t : Token} {c : Char} (h : t.symbol = some c) :
    symbols.lookup c = some t := by
  cases t with
  | atom letter => cases letter <;> cases h <;> rfl
  | space => cases h
  | _ =>
    cases h
    rfl

/-- A character stands for a token exactly if the token is written as that character. -/
theorem lookup_eq_some {t : Token} {c : Char} :
    symbols.lookup c = some t ↔ t.symbol = some c := by
  constructor
  · intro h
    have key : c ∈ symbols.map Prod.fst := by
      rw [← Table.contains_iff]
      simp [Table.contains, h]
    simp only [symbols, List.map_cons, List.map_nil, List.mem_cons, List.not_mem_nil,
      or_false] at key
    rcases key with rfl | rfl | rfl | rfl | rfl | rfl | rfl | rfl | rfl | rfl | rfl | rfl | rfl |
      rfl | rfl | rfl | rfl | rfl | rfl | rfl <;> cases h <;> rfl
  · exact lookup_symbol

end Token
end Forward
