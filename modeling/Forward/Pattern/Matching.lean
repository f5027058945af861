/-
  Matching: a pattern as a matcher over records.

  The value of a match is the list of records that the leaves of the pattern took.  A
  repetition of a body that can match nothing would not end by itself, so each further round of
  it has to take a record: the first round that takes none ends it.
-/
import Forward.Matcher
import Forward.Pattern.Syntax

namespace Forward

/-- How many rounds a quantifier allows. -/
def Quantifier.times : Quantifier → Repetition
  | .oneOrMore => .oneOrMore
  | .zeroOrMore => .zeroOrMore
  | .zeroOrOne => .zeroOrOne

namespace Pattern

/-- A matcher over records, with the records it took as its value. -/
abbrev RecordMatcher := Matcher Record NoRule (List Record)

/-- One record that passes the test. -/
def leaf (p : Record → Bool) : RecordMatcher := .map (fun record => [record]) (.satisfy p)

/-- Rounds of a body none of which can be empty. -/
def rounds (body : RecordMatcher) (times : Quantifier) : RecordMatcher :=
  .map List.flatten (.repeated times.times body)

/-- Rounds of a body that can match nothing.  Only the first of one or more may be empty. -/
def consumingRounds (body : RecordMatcher) : Quantifier → RecordMatcher
  | .zeroOrOne => .map List.flatten (.repeated .zeroOrOne body)
  | .zeroOrMore => .map List.flatten (.zeroOrMore (.consuming body))
  | .oneOrMore =>
    .map (fun taken => (taken.1 :: taken.2).flatten)
      (.both body (.zeroOrMore (.consuming body)))

mutual

/-- The matcher that a pattern describes. -/
def matcher : Pattern → RecordMatcher
  | .atom letter => leaf fun record => decide (record = some letter)
  | .any => leaf Option.isSome
  | .nil => leaf fun record => decide (record = none)
  | .boundary => .map (fun _ => []) .peek
  | .oneOf letters => leaf fun record => decide (record ∈ letters.map some)
  | .sequence items => .map List.flatten (.sequence (matchers items))
  | .alternation branches => .choice (matchers branches)
  | .repeated body times =>
    if body.isNullable then consumingRounds (matcher body) times
    else rounds (matcher body) times

/-- The matchers that the patterns of a list describe. -/
def matchers : List Pattern → List RecordMatcher
  | [] => []
  | p :: ps => matcher p :: matchers ps

end

theorem matchers_eq (ps : List Pattern) : matchers ps = ps.map matcher := by
  induction ps with
  | nil => rfl
  | cons p ps ih => simp [matchers, ih]

/-- Attempt a pattern where a scan stands.  Every further round of a repetition takes a record,
    so that the records left bound the rounds. -/
def attempt (p : Pattern) : Attempt Record (List Record) := fun s =>
  p.matcher.run .empty (s.cursor.remaining.length + 2) s

end Pattern
end Forward
