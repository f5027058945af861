/-
  The grammar of patterns, and reading a pattern from its tokens.

      alternation := sequence ('|' sequence)*
      sequence    := quantified*
      quantified  := factor ('+' | '*' | '?')?
      factor      := atom | '.' | '✖' | 'x' | '[' atom+ ']' | '(' alternation ')'

  The grammar is written with matchers over tokens.  Matchers never go back, so every choice
  looks at the next token first and then commits to one rule: a failure anywhere is a failure
  of the whole, with the scan resting on the token that cannot be there.  The stream of tokens
  has no blanks in it, and an end mark behind it, so that there is always a token to look at.
-/
import Forward.Matcher
import Forward.Pattern.Error
import Forward.Pattern.Printer

namespace Forward

/-- The rules of the grammar that refer to each other, with the values they have. -/
inductive PatternRule : Type → Type where
  | sequence : PatternRule (List Pattern)
  | alternatives : PatternRule (List (List Pattern))
  | alternation : PatternRule Pattern

namespace PatternRule

/-- A matcher over the tokens of a pattern; `none` is the end mark. -/
abbrev Phrase (τ : Type) := Matcher (Option Token) PatternRule τ

/-! ## What single tokens stand for -/

/-- The atom that a token stands for. -/
def atom? : Option Token → Option Atom
  | some (.atom letter) => some letter
  | _ => none

/-- The pattern that a token stands for by itself. -/
def leaf? : Option Token → Option Pattern
  | some (.atom letter) => some (.atom letter)
  | some .dot => some .any
  | some .cross => some .nil
  | some .peek => some .boundary
  | _ => none

/-- The quantifier that a token stands for. -/
def quantifier? : Option Token → Option Quantifier
  | some .plus => some .oneOrMore
  | some .star => some .zeroOrMore
  | some .question => some .zeroOrOne
  | _ => none

/-- Can a factor begin with this token? -/
def startsFactor (next : Option Token) : Bool :=
  decide (next = some .leftSquare) || decide (next = some .leftParen) || (leaf? next).isSome

/-! ## The rules -/

/-- Atoms in square brackets, at least one of them. -/
def phraseOneOf : Phrase Pattern :=
  .map (fun read => .oneOf read.1.2)
    (.both (.both (.item (some .leftSquare)) (.oneOrMore (.symbol atom?)))
      (.item (some .rightSquare)))

/-- A pattern in parentheses, which leave no mark on it. -/
def phraseGroup : Phrase Pattern :=
  .map (fun read => read.1.2)
    (.both (.both (.item (some .leftParen)) (.rule .alternation)) (.item (some .rightParen)))

/-- What a quantifier applies to; the next token decides which kind it is. -/
def phraseFactor : Phrase Pattern :=
  .andThen .peek fun next =>
    if next = some .leftSquare then phraseOneOf
    else if next = some .leftParen then phraseGroup
    else .symbol leaf?

/-- The pattern for a factor and the quantifier behind it. -/
def quantify (body : Pattern) : Occurrence Quantifier → Pattern
  | .present times => .repeated body times
  | .absent => body

/-- A factor with or without a quantifier. -/
def phraseQuantified : Phrase Pattern :=
  .map (fun read => quantify read.1 read.2) (.both phraseFactor (.optional (.symbol quantifier?)))

/-- Quantified factors, as long as the next token can begin one. -/
def phraseSequence : Phrase (List Pattern) :=
  .andThen .peek fun next =>
    if startsFactor next then
      .map (fun read => read.1 :: read.2) (.both phraseQuantified (.rule .sequence))
    else .pure []

/-- Further branches, as long as the next token is a bar. -/
def phraseAlternatives : Phrase (List (List Pattern)) :=
  .andThen .peek fun next =>
    if next = some .pipe then
      .map (fun read => read.1.2 :: read.2)
        (.both (.both (.item (some .pipe)) phraseSequence) (.rule .alternatives))
    else .pure []

/-- The pattern for the branches of an alternation: a single branch is not wrapped up. -/
def alternate (first : List Pattern) : List (List Pattern) → Pattern
  | [] => .ofItems first
  | later => .alternation ((first :: later).map .ofItems)

/-- A branch and all further ones. -/
def phraseAlternation : Phrase Pattern :=
  .map (fun read => alternate read.1 read.2) (.both phraseSequence phraseAlternatives)

/-- What each rule stands for. -/
def grammar : Grammar (Option Token) PatternRule
  | _, .sequence => phraseSequence
  | _, .alternatives => phraseAlternatives
  | _, .alternation => phraseAlternation

/-- A whole pattern, up to the end mark. -/
def phrasePattern : Phrase Pattern :=
  .map (fun read => read.1) (.both phraseAlternation (.item none))

end PatternRule

namespace Pattern

/-! ## Reading a pattern -/

/-- The tokens that count, each with its place among all tokens. -/
def significant (tokens : List Token) : List (Token × Nat) :=
  tokens.zipIdx.filter fun entry => decide (entry.1 ≠ .space)

/-- The tokens that count, with the end mark behind them. -/
def stream (tokens : List Token) : List (Option Token) :=
  (significant tokens).map (fun entry => some entry.1) ++ [none]

/-- Attempt the grammar on some tokens.  Every rule inside another begins behind a token, and
    so does every attempt of a repetition, so that the length of the stream bounds both. -/
def readRun (tokens : List Token) : Run (Option Token) Pattern :=
  let input := stream tokens
  PatternRule.phrasePattern.run PatternRule.grammar (input.length + 1) (Scan.ofList input)

/-- What is wrong where the grammar failed: the token there, or that there is none. -/
def rejection (tokens : List Token) (s : Scan (Option Token)) : ReadError :=
  match s.cursor.shown, (significant tokens)[s.position]? with
  | some (some found), some (_, position) => .unexpectedToken position found
  | _, _ => .incomplete

/-- Read a pattern from its tokens.  Positions in errors are places among the tokens. -/
def parse (tokens : List Token) : Logged (Except ReadError Pattern) :=
  let r := readRun tokens
  match r.outcome with
  | .matched p => ⟨.ok p, []⟩
  | .failed => ⟨.error (rejection tokens r.scan), [.patternRejected r.scan.position]⟩
  | .ended stop => ⟨.error .incomplete, [.patternEnded stop]⟩
  | .unfinished => ⟨.error .incomplete, []⟩

example : (parse [.atom .b, .space, .leftParen, .atom .w, .rightParen, .plus]).value =
    .ok (.sequence [.atom .b, .repeated (.atom .w) .oneOrMore]) := by rfl

example : (parse [.space, .atom .b, .rightParen]).value =
    .error (.unexpectedToken 2 .rightParen) := by rfl

end Pattern
end Forward
