/-
  Pattern errors: why a pattern, or a record string, could not be read.
-/
import Forward.Pattern.Token

namespace Forward

/-- Why a pattern or a record string could not be read, and where. -/
inductive ReadError where
  /-- A character of the pattern that is no symbol. -/
  | unknownSymbol (position : Nat) (found : Char)
  /-- A token that no pattern can have there. -/
  | unexpectedToken (position : Nat) (found : Token)
  /-- The pattern could go on, but stops. -/
  | incomplete
  /-- A character that is no record. -/
  | unknownRecord (position : Nat) (found : Char)
  deriving DecidableEq, Repr

namespace ReadError

/-- The error with the position of an unexpected token put through `f`. -/
def mapTokenPosition (f : Nat → Nat) : ReadError → ReadError
  | .unknownSymbol position found => .unknownSymbol position found
  | .unexpectedToken position found => .unexpectedToken (f position) found
  | .incomplete => .incomplete
  | .unknownRecord position found => .unknownRecord position found

/-- What a report says about the error. -/
def message : ReadError → String
  | .unknownSymbol position found =>
    "unknown symbol '" ++ String.singleton found ++ "' at position " ++ toString position
  | .unexpectedToken position found =>
    "unexpected " ++ found.text ++ " at position " ++ toString position
  | .incomplete => "pattern ends before it is complete"
  | .unknownRecord position found =>
    "unknown record '" ++ String.singleton found ++ "' at position " ++ toString position

end ReadError
end Forward
