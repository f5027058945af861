/-
  Spans: which stretch of a stream something covers.

  A span runs from the position of its first element to the position after its last one.
-/

namespace Forward

/-- The stretch from position `start` up to, and not including, position `stop`. -/
structure Span where
  start : Nat
  stop : Nat
  deriving DecidableEq, Repr

namespace Span

/-- Why a span has no length: it stops before it starts, as no stretch of a stream does. -/
inductive LengthError where
  | backwards
  deriving DecidableEq, Repr

/-- What a report says about a span without a length. -/
def LengthError.message : LengthError → String
  | .backwards => "attempt to subtract with overflow"

/-- How many elements the span covers. -/
def length (s : Span) : Except LengthError Nat :=
  if s.stop < s.start then .error .backwards else .ok (s.stop - s.start)

/-- Does the span cover no element? -/
def isEmpty (s : Span) : Bool := s.start == s.stop

/-- The span in writing: both ends, with two dots between them. -/
def text (s : Span) : String := toString s.start ++ ".." ++ toString s.stop

theorem length_of_le {s : Span} (h : s.start ≤ s.stop) : s.length = .ok (s.stop - s.start) := by
  simp [length, Nat.not_lt.mpr h]

end Span
end Forward
