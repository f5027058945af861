/-
  Recognizers: patterns read from text, and run over records.
-/
import Forward.Pattern.Grammar
import Forward.Pattern.Matching
import Forward.Pattern.Tokens

namespace Forward

namespace Pattern

/-- Read a pattern from its text.  Positions in errors are places among the characters: an
    unexpected token is reported at its first character. -/
def read (source : String) : Logged (Except ReadError Pattern) :=
  (Token.scanAll source).andThen fun lexed =>
    match lexed with
    | .error e => .silent (.error e)
    | .ok spanned =>
      (parse (spanned.map Prod.fst)).andThen fun parsed =>
        match parsed with
        | .error e =>
          let start := fun index =>
            match spanned[index]? with
            | some (_, span) => span.start
            | none => index
          .silent (.error (e.mapTokenPosition start))
        | .ok p => ⟨.ok p, [.patternRead p.text]⟩

end Pattern

/-- A pattern that is ready to be run over records. -/
structure Recognizer where
  pattern : Pattern
  deriving DecidableEq

namespace Recognizer

/-- The recognizer for the pattern that a text describes. -/
def ofSource (source : String) : Logged (Except ReadError Recognizer) :=
  (Pattern.read source).andThen fun read => .silent (read.map Recognizer.mk)

/-- The recognizer for one record that holds an atom. -/
def ofAtom (letter : Atom) : Recognizer := ⟨.atom letter⟩

/-- Match the pattern where a scan stands. -/
def attempt (r : Recognizer) : Attempt Record (List Record) := r.pattern.attempt

/-- Match the pattern once, from the first record on.  The match need not take all of them. -/
def matchRecords (r : Recognizer) (records : List Record) : Outcome (List Record) :=
  (r.attempt (Scan.ofList records)).outcome

/-- Does the pattern match at the first record? -/
def accepts (r : Recognizer) (records : List Record) : Bool := (r.matchRecords records).isMatched

end Recognizer
end Forward
