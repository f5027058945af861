/-
  Traces: what happened during a match, in order, with what happened inside what.

  A match that goes on only forwards leaves events behind even where it fails: values stay
  captured, and rules were expanded.  An `Event` that encloses others carries them, so a trace
  is a forest, and "inside" is being further down in it.

  The functions of this file read a trace: the captures in the order of their success, the
  number of rule expansions, and the messages.
-/
import Forward.Message

namespace Forward

/-- Something that happened during a match. -/
inductive Event (α : Type) where
  /-- A match that ended at `position` had its value captured under `name`. -/
  | captured (name : String) (value : α) (position : Nat)
  /-- A backreference to `name` found nothing captured under it. -/
  | unbound (name : String)
  /-- A rule was expanded at `start`. -/
  | expanded (start : Nat) (inside : List (Event α))
  /-- A match whose stretch was asked for succeeded over `span`. -/
  | spanned (span : Span) (inside : List (Event α))
  /-- A repetition without an upper bound began at `start` and made so many attempts. -/
  | repeated (start attempts : Nat) (inside : List (Event α))

/-- Everything that happened during a match. -/
abbrev Trace (α : Type) := List (Event α)

variable {α : Type}

/-! ## Captures -/

mutual

/-- The captures of an event. -/
def Event.captures : Event α → List (String × α)
  | .captured name value _ => [(name, value)]
  | .unbound _ => []
  | .expanded _ inside => Trace.captures inside
  | .spanned _ inside => Trace.captures inside
  | .repeated _ _ inside => Trace.captures inside

/-- The names and values captured, in the order in which the captures succeeded. -/
def Trace.captures : List (Event α) → List (String × α)
  | [] => []
  | event :: later => event.captures ++ Trace.captures later

end

/-! ## Rule expansions -/

mutual

/-- How many rules an event expanded. -/
def Event.expansions : Event α → Nat
  | .captured _ _ _ => 0
  | .unbound _ => 0
  | .expanded _ inside => Trace.expansions inside + 1
  | .spanned _ inside => Trace.expansions inside
  | .repeated _ _ inside => Trace.expansions inside

/-- How many rules were expanded. -/
def Trace.expansions : List (Event α) → Nat
  | [] => 0
  | event :: later => event.expansions + Trace.expansions later

end

/-! ## Messages -/

mutual

/-- What an event reports. -/
def Event.messages : Event α → List Message
  | .captured name _ position => [.captureBound name position]
  | .unbound name => [.captureUnbound name]
  | .expanded _ inside => Trace.messages inside
  | .spanned _ inside => Trace.messages inside
  | .repeated _ _ inside => Trace.messages inside

/-- What a match reports. -/
def Trace.messages : List (Event α) → List Message
  | [] => []
  | event :: later => event.messages ++ Trace.messages later

end

/-! ## Traces one after the other -/

theorem Trace.captures_append (first second : Trace α) :
    captures (first ++ second) = captures first ++ captures second := by
  induction first with
  | nil => rfl
  | cons event later ih => simp [captures, ih]

theorem Trace.expansions_append (first second : Trace α) :
    expansions (first ++ second) = expansions first + expansions second := by
  induction first with
  | nil => simp [expansions]
  | cons event later ih => simp [expansions, ih, Nat.add_assoc]

end Forward
