/-
  Printing: a pattern as the tokens it is written with.

  Only parentheses that change the meaning are written: around an alternation inside a
  sequence, and around a repeated body that is made of parts.  A sequence leaves no mark of its
  own, so an empty one is written as nothing.
-/
import Forward.Pattern.Syntax
import Forward.Pattern.Token

namespace Forward

/-- The token that a quantifier is written as. -/
def Quantifier.token : Quantifier → Token
  | .oneOrMore => .plus
  | .zeroOrMore => .star
  | .zeroOrOne => .question

namespace Pattern

/-- Tokens in parentheses. -/
def enclosed (tokens : List Token) : List Token := .leftParen :: tokens ++ [.rightParen]

/-- Tokens in parentheses where they are needed. -/
def enclosedIf (needed : Bool) (tokens : List Token) : List Token :=
  if needed then enclosed tokens else tokens

mutual

/-- The tokens a pattern is written with. -/
def tokens : Pattern → List Token
  | .atom letter => [.atom letter]
  | .any => [.dot]
  | .nil => [.cross]
  | .boundary => [.peek]
  | .oneOf letters => .leftSquare :: letters.map .atom ++ [.rightSquare]
  | .sequence items => itemTokens items
  | .alternation branches => branchTokens branches
  | .repeated body times => enclosedIf body.isComposite (tokens body) ++ [times.token]

/-- The items of a sequence, one after the other. -/
def itemTokens : List Pattern → List Token
  | [] => []
  | item :: later => enclosedIf item.isAlternation (tokens item) ++ itemTokens later

/-- The branches of an alternation, with a bar between them. -/
def branchTokens : List Pattern → List Token
  | [] => []
  | branch :: later => tokens branch ++ laterBranchTokens later

/-- The branches behind the first one, each with a bar before it. -/
def laterBranchTokens : List Pattern → List Token
  | [] => []
  | branch :: later => .pipe :: tokens branch ++ laterBranchTokens later

end

/-- The pattern in writing. -/
def text (p : Pattern) : String := String.ofList (p.tokens.filterMap Token.symbol)

example : (repeated (alternation [atom .b, sequence [any, alternation [nil, boundary]]])
    .oneOrMore).text = "(B|.(✖|x))+" := by decide

end Pattern
end Forward
