/-
  Attempts: one try to match something where a scan stands.

  A `Scan` is a cursor together with what has been captured.  An `Attempt` turns a scan into a
  `Run`: how the try came out, the scan it leaves behind, and the trace of what happened.  It
  comes out in one of four ways:

  * `matched`: there is a value;
  * `failed`: what stands there does not fit;
  * `ended`: a read went past the end of the stream, and the whole match is over;
  * `unfinished`: the bound on expansions and repetitions was used up before an answer.

  Nothing is ever put back.  An attempt that fails may leave elements consumed and values
  captured, and whoever tries something else next starts from there.  This file holds the
  ways to build attempts out of attempts; each does one thing with the scan that the one
  before it left.
-/
import Forward.Captures
import Forward.Occurrence
import Forward.Repetition
import Forward.Trace

namespace Forward

/-! ## Scans -/

/-- A place in a stream, and what has been captured on the way to it. -/
structure Scan (α : Type) where
  cursor : Cursor α
  captures : Captures α
  deriving DecidableEq

namespace Scan

variable {α : Type}

/-- The scan at the beginning of a stream. -/
def ofList (xs : List α) : Scan α := ⟨Cursor.ofList xs, Captures.empty⟩

/-- How many elements have been consumed. -/
def position (s : Scan α) : Nat := s.cursor.position

/-- Has everything been consumed? -/
def atEnd (s : Scan α) : Bool := s.cursor.atEnd

end Scan

/-! ## How an attempt comes out -/

/-- How an attempt came out. -/
inductive Outcome (τ : Type) where
  /-- It succeeded with a value. -/
  | matched (value : τ)
  /-- What stands there does not fit. -/
  | failed
  /-- A read went past the end of the stream. -/
  | ended (stop : PastEnd)
  /-- The bound was used up first. -/
  | unfinished
  deriving DecidableEq, Repr

namespace Outcome

variable {σ τ : Type}

/-- Go on from a value; every other outcome stays what it is. -/
def bind (o : Outcome σ) (next : σ → Outcome τ) : Outcome τ :=
  match o with
  | .matched value => next value
  | .failed => .failed
  | .ended stop => .ended stop
  | .unfinished => .unfinished

/-- Apply `f` to the value of a success. -/
def map (f : σ → τ) (o : Outcome σ) : Outcome τ := o.bind fun value => .matched (f value)

/-- A value that is there, or a failure. -/
def ofOption : Option τ → Outcome τ
  | some value => .matched value
  | none => .failed

/-- Is it a success? -/
def isMatched : Outcome τ → Bool
  | .matched _ => true
  | .failed => false
  | .ended _ => false
  | .unfinished => false

end Outcome

/-- What came of an attempt: its outcome, the scan it leaves and what happened. -/
structure Run (α τ : Type) where
  outcome : Outcome τ
  scan : Scan α
  trace : Trace α

namespace Run

variable {α σ τ : Type}

/-- The same run, with `earlier` having happened before it. -/
def after (earlier : Trace α) (r : Run α τ) : Run α τ := { r with trace := earlier ++ r.trace }

/-- The same run with another outcome. -/
def withOutcome (r : Run α σ) (outcome : Outcome τ) : Run α τ := ⟨outcome, r.scan, r.trace⟩

/-- The same run with `f` applied to the value of a success. -/
def map (f : σ → τ) (r : Run α σ) : Run α τ := r.withOutcome (r.outcome.map f)

/-- The same run with its trace wrapped up. -/
def wrap (r : Run α τ) (event : Trace α → Event α) : Run α τ := { r with trace := [event r.trace] }

end Run

/-- One try to match something. -/
abbrev Attempt (α τ : Type) := Scan α → Run α τ

namespace Attempt

variable {α σ τ : Type}

/-! ## Attempts that read at most one element -/

/-- Succeed without looking. -/
def succeed (value : τ) : Attempt α τ := fun s => ⟨.matched value, s, []⟩

/-- Fail without looking. -/
def fail : Attempt α τ := fun s => ⟨.failed, s, []⟩

/-- Give up: the bound is used up. -/
def giveUp : Attempt α τ := fun s => ⟨.unfinished, s, []⟩

/-- Answer the element on show and leave it there. -/
def look : Attempt α α := fun s =>
  match s.cursor.peek with
  | .ok current => ⟨.matched current, s, []⟩
  | .error stop => ⟨.ended stop, s, []⟩

/-- Consume the element on show if `choose` makes something of it, and fail if not. -/
def take (choose : α → Option τ) : Attempt α τ := fun s =>
  match s.cursor.peek with
  | .error stop => ⟨.ended stop, s, []⟩
  | .ok current =>
    match choose current with
    | none => ⟨.failed, s, []⟩
    | some value =>
      match s.cursor.consume with
      | (.ok _, cursor) => ⟨.matched value, { s with cursor := cursor }, []⟩
      | (.error stop, cursor) => ⟨.ended stop, { s with cursor := cursor }, []⟩

/-- Consume an element that passes the test. -/
def satisfy (p : α → Bool) : Attempt α α := take fun x => if p x then some x else none

/-- Consume an element equal to the one captured under `name`.  A name without a capture
    fails before anything is looked at. -/
def backreference [BEq α] (name : String) : Attempt α α := fun s =>
  match s.captures.get? name with
  | none => ⟨.failed, s, [.unbound name]⟩
  | some value => satisfy (· == value) s

theorem look_of_shown {s : Scan α} {x : α} (h : s.cursor.shown = some x) :
    look s = ⟨.matched x, s, []⟩ := by
  simp only [look, Cursor.peek, h]

theorem look_of_not_shown {s : Scan α} (h : s.cursor.shown = none) :
    look s = ⟨.ended ⟨s.position⟩, s, []⟩ := by
  simp only [look, Cursor.peek, h]
  rfl

/-- While elements are left, taking decides by the next one, and consumes it or leaves it. -/
theorem take_of_remaining {choose : α → Option τ} {s : Scan α} {x : α} {xs : List α}
    (h : s.cursor.remaining = x :: xs) :
    take choose s = match choose x with
      | none => ⟨.failed, s, []⟩
      | some value => ⟨.matched value, ⟨⟨s.position + 1, .after x xs⟩, s.captures⟩, []⟩ := by
  simp only [take, Cursor.peek, Cursor.shown_of_remaining h, Cursor.consume_of_remaining h]
  rfl

/-- With nothing left, taking still looks at the element on show.  It fails if the element does
    not fit, and errs if it does: the element has been consumed before. -/
theorem take_of_exhausted {choose : α → Option τ} {s : Scan α} (h : s.cursor.remaining = []) :
    take choose s = match s.cursor.shown with
      | none => ⟨.ended ⟨s.position⟩, s, []⟩
      | some last =>
        match choose last with
        | none => ⟨.failed, s, []⟩
        | some _ => ⟨.ended ⟨s.position⟩, ⟨⟨s.position, .spent⟩, s.captures⟩, []⟩ := by
  simp only [take, Cursor.peek, Cursor.consume_of_exhausted h]
  cases s.cursor.shown <;> rfl

/-! ## One after the other -/

/-- Apply `f` to the value of a success. -/
def map (f : σ → τ) (a : Attempt α σ) : Attempt α τ := fun s => (a s).map f

/-- Keep what `f` makes of the value; if it makes nothing the attempt fails where it stands. -/
def filterMap (f : σ → Option τ) (a : Attempt α σ) : Attempt α τ := fun s =>
  let r := a s
  r.withOutcome (r.outcome.bind fun value => .ofOption (f value))

/-- Go on with an attempt chosen by the value of the first one. -/
def andThen (a : Attempt α σ) (next : σ → Attempt α τ) : Attempt α τ := fun s =>
  let r := a s
  match r.outcome with
  | .matched value => (next value r.scan).after r.trace
  | .failed => r.withOutcome .failed
  | .ended stop => r.withOutcome (.ended stop)
  | .unfinished => r.withOutcome .unfinished

/-- One attempt and then another, with both values. -/
def both (a : Attempt α σ) (b : Attempt α τ) : Attempt α (σ × τ) :=
  a.andThen fun x => b.map fun y => (x, y)

/-- All attempts of a list, each where the one before it stopped. -/
def inOrder : List (Attempt α τ) → Attempt α (List τ)
  | [] => succeed []
  | a :: later => a.andThen fun value => (inOrder later).map (value :: ·)

/-! ## One or the other -/

/-- Try `b` where `a` failed, from the scan that `a` left. -/
def either (a b : Attempt α τ) : Attempt α τ := fun s =>
  let r := a s
  match r.outcome with
  | .failed => (b r.scan).after r.trace
  | .matched _ => r
  | .ended _ => r
  | .unfinished => r

/-- The attempts of a list in turn, until one does not fail. -/
def firstOf : List (Attempt α τ) → Attempt α τ
  | [] => fail
  | a :: later => a.either (firstOf later)

/-- Take a failure for an absence. -/
def optional (a : Attempt α τ) : Attempt α (Occurrence τ) := fun s =>
  let r := a s
  match r.outcome with
  | .matched value => r.withOutcome (.matched (.present value))
  | .failed => r.withOutcome (.matched .absent)
  | .ended stop => r.withOutcome (.ended stop)
  | .unfinished => r.withOutcome .unfinished

/-! ## Again and again -/

/-- A run of repeated attempts, and how many attempts it made. -/
structure Gathering (α τ : Type) where
  run : Run α (List τ)
  attempts : Nat

/-- Attempt up to `room` times, until an attempt does not match.  A failure ends the
    repetition with the values so far; `full` is the outcome once the room is used up. -/
def gather (full : Outcome (List τ)) (a : Attempt α τ) : Nat → Scan α → Gathering α τ
  | 0, s => ⟨⟨full, s, []⟩, 0⟩
  | room + 1, s =>
    let r := a s
    match r.outcome with
    | .matched value =>
      let later := gather full a room r.scan
      ⟨(later.run.map (value :: ·)).after r.trace, later.attempts + 1⟩
    | .failed => ⟨r.withOutcome (.matched []), 1⟩
    | .ended stop => ⟨r.withOutcome (.ended stop), 1⟩
    | .unfinished => ⟨r.withOutcome .unfinished, 1⟩

/-- Attempt as often as `times` has room for, and succeed if it admits the count.  Where there
    is no upper bound at most `limit` attempts are made. -/
def repeated (times : Repetition) (limit : Nat) (a : Attempt α τ) : Attempt α (List τ) := fun s =>
  let r := match times.most with
    | some most => (gather (.matched []) a most.toNat s).run
    | none =>
      let g := gather .unfinished a limit s
      g.run.wrap (.repeated s.position g.attempts)
  r.withOutcome (r.outcome.bind fun values =>
    if times.admits values.length then .matched values else .failed)

/-- Succeed only if the attempt consumed something. -/
def consuming (a : Attempt α τ) : Attempt α τ := fun s =>
  let r := a s
  r.withOutcome (r.outcome.bind fun value =>
    if s.position < r.scan.position then .matched value else .failed)

/-! ## Remembering -/

/-- Capture the value of a success under `name`. -/
def capture (name : String) (a : Attempt α α) : Attempt α α := fun s =>
  let r := a s
  match r.outcome with
  | .matched value =>
    ⟨.matched value, { r.scan with captures := r.scan.captures.capture name value },
      r.trace ++ [.captured name value r.scan.position]⟩
  | .failed => r
  | .ended _ => r
  | .unfinished => r

/-- Add to the value of a success the stretch it covers. -/
def spanned (a : Attempt α τ) : Attempt α (τ × Span) := fun s =>
  let r := a s
  let span := ⟨s.position, r.scan.position⟩
  match r.outcome with
  | .matched value => (r.withOutcome (.matched (value, span))).wrap (.spanned span)
  | .failed => r.withOutcome .failed
  | .ended stop => r.withOutcome (.ended stop)
  | .unfinished => r.withOutcome .unfinished

/-- The attempt as the expansion of a rule. -/
def expansion (a : Attempt α τ) : Attempt α τ := fun s => (a s).wrap (.expanded s.position)

end Attempt
end Forward
