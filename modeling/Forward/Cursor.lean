/-
  The cursor: a stream of elements read from the front, one element at hand at any time.

  A `Cursor` knows how many elements have been consumed and what its front shows.  While
  elements are left the front is `ready`: it shows the next one.  Consuming the last one
  leaves the front `pending`: it goes on showing that last element, although it is consumed,
  until a second attempt to consume it fails and leaves the front `spent`.  Nothing moves a
  cursor backwards.

  The lemmas of this file say what each read does to the two views `Cursor.remaining` (the
  elements still to come) and `Cursor.shown` (the element that a look at the front answers).
-/

namespace Forward

/-- A read past the end of the stream: `position` elements had been consumed before it. -/
structure PastEnd where
  position : Nat
  deriving DecidableEq, Repr

/-- What a report says about a read past the end. -/
def PastEnd.message (stop : PastEnd) : String :=
  "read past end of stream at position " ++ toString stop.position

/-- What stands at the front of a stream. -/
inductive Front (α : Type) where
  /-- The element `current` is next, and `rest` comes after it. -/
  | ready (current : α) (rest : List α)
  /-- Everything is consumed; `last` was the last element and is still shown. -/
  | pending (last : α)
  /-- Everything is consumed and nothing is shown. -/
  | spent
  deriving DecidableEq, Repr

namespace Front

variable {α : Type}

/-- The front of a stream of which nothing has been consumed. -/
def ofList : List α → Front α
  | [] => .spent
  | current :: rest => .ready current rest

/-- The front that is left when `last` has been consumed and `rest` was behind it. -/
def after (last : α) : List α → Front α
  | [] => .pending last
  | next :: rest => .ready next rest

/-- The elements still to be consumed. -/
def remaining : Front α → List α
  | .ready current rest => current :: rest
  | .pending _ => []
  | .spent => []

/-- The element on show: the next one, or the last one until it has been asked for twice. -/
def shown : Front α → Option α
  | .ready current _ => some current
  | .pending last => some last
  | .spent => none

@[simp] theorem remaining_ofList (xs : List α) : (ofList xs).remaining = xs := by
  cases xs <;> rfl

@[simp] theorem remaining_after (last : α) (xs : List α) : (after last xs).remaining = xs := by
  cases xs <;> rfl

end Front

/-- A place in a stream: how many elements are behind it, and what is in front of it. -/
structure Cursor (α : Type) where
  position : Nat
  front : Front α
  deriving DecidableEq, Repr

namespace Cursor

variable {α : Type}

/-- The cursor at the beginning of a stream. -/
def ofList (xs : List α) : Cursor α := ⟨0, Front.ofList xs⟩

/-- The elements still to be consumed. -/
def remaining (c : Cursor α) : List α := c.front.remaining

/-- The element on show. -/
def shown (c : Cursor α) : Option α := c.front.shown

/-- Has everything been consumed? -/
def atEnd (c : Cursor α) : Bool :=
  match c.front with
  | .ready _ _ => false
  | .pending _ => true
  | .spent => true

/-! ## Single reads -/

/-- Look at the front.  A pending front still shows the last element. -/
def peek (c : Cursor α) : Except PastEnd α :=
  match c.shown with
  | some current => .ok current
  | none => .error ⟨c.position⟩

/-- Take the next element.  With none left the read fails, and the front is spent. -/
def consume (c : Cursor α) : Except PastEnd α × Cursor α :=
  match c.front with
  | .ready current rest => (.ok current, ⟨c.position + 1, Front.after current rest⟩)
  | .pending _ => (.error ⟨c.position⟩, ⟨c.position, .spent⟩)
  | .spent => (.error ⟨c.position⟩, ⟨c.position, .spent⟩)

@[simp] theorem remaining_ofList (xs : List α) : (ofList xs).remaining = xs := by
  simp [ofList, remaining]

theorem atEnd_iff (c : Cursor α) : c.atEnd = true ↔ c.remaining = [] := by
  rcases c with ⟨position, front⟩
  cases front <;> simp [atEnd, remaining, Front.remaining]

/-- While elements are left, the one on show is the first of them. -/
theorem shown_of_remaining {c : Cursor α} {x : α} {xs : List α} (h : c.remaining = x :: xs) :
    c.shown = some x := by
  rcases c with ⟨position, front⟩
  cases front <;> simp_all [remaining, shown, Front.remaining, Front.shown]

/-- A successful read takes exactly the first of the remaining elements. -/
theorem consume_of_remaining {c : Cursor α} {x : α} {xs : List α} (h : c.remaining = x :: xs) :
    c.consume = (.ok x, ⟨c.position + 1, Front.after x xs⟩) := by
  rcases c with ⟨position, front⟩
  cases front <;> simp_all [remaining, consume, Front.remaining]

/-- With nothing left a read fails where the cursor stands, and stays there. -/
theorem consume_of_exhausted {c : Cursor α} (h : c.remaining = []) :
    c.consume = (.error ⟨c.position⟩, ⟨c.position, .spent⟩) := by
  rcases c with ⟨position, front⟩
  cases front <;> simp_all [remaining, consume, Front.remaining]

/-! ## Runs of elements

  A run reads elements as long as there are any and the one on show passes a test.  So it stops in
  front of the first element that fails the test, and at the end of the stream without reading past
  it: the last element, once read, stays on show.  A run also counts how often it asked the test. -/

/-- What a run of reads came to: what was made of the elements, the elements that it read, how many
    tests it made, and where it stopped. -/
structure Pass (α β : Type) where
  made : β
  elements : List α
  tests : Nat
  cursor : Cursor α

/-- What a run took, how many tests it made, and where it stopped. -/
structure Sweep (α : Type) where
  taken : List α
  tests : Nat
  cursor : Cursor α
  deriving DecidableEq, Repr

/-- What a run passed over, how many tests it made, and where it stopped. -/
structure Skip (α : Type) where
  skipped : Nat
  tests : Nat
  cursor : Cursor α
  deriving DecidableEq, Repr

/-- A read that returns an element leaves fewer of them. -/
theorem length_remaining_consume {c later : Cursor α} {x : α} (h : c.consume = (.ok x, later)) :
    later.remaining.length < c.remaining.length := by
  cases hrem : c.remaining with
  | nil =>
    rw [consume_of_exhausted hrem] at h
    cases h
  | cons y ys =>
    rw [consume_of_remaining hrem] at h
    cases h
    exact Nat.lt_succ_of_le (Nat.le_of_eq (congrArg List.length (Front.remaining_after x ys)))

/-- Read elements as long as they pass the test; `note` adds each of them to what has been made of
    those before it. -/
def pass {β : Type} (p : α → Bool) (note : β → α → β) (made : β) (c : Cursor α) : Pass α β :=
  if c.atEnd then ⟨made, [], 0, c⟩
  else
    match c.peek with
    | .error _ => ⟨made, [], 0, c⟩
    | .ok current =>
      if p current then
        match _ : c.consume with
        | (.error _, later) => ⟨made, [], 1, later⟩
        | (.ok x, later) =>
          let r := pass p note (note made x) later
          { r with elements := x :: r.elements, tests := r.tests + 1 }
      else ⟨made, [], 1, c⟩
termination_by c.remaining.length
decreasing_by exact length_remaining_consume ‹_›

/-- The run that lists what it reads. -/
def taking (p : α → Bool) (c : Cursor α) : Pass α (List α) :=
  c.pass p (fun taken x => taken ++ [x]) []

/-- The run that counts what it reads. -/
def skipping (p : α → Bool) (c : Cursor α) : Pass α Nat := c.pass p (fun skipped _ => skipped + 1) 0

/-- Take elements as long as they pass the test. -/
def takeWhile (p : α → Bool) (c : Cursor α) : Sweep α :=
  ⟨(c.taking p).made, (c.taking p).tests, (c.taking p).cursor⟩

/-- Pass over elements as long as they pass the test. -/
def skipWhile (p : α → Bool) (c : Cursor α) : Skip α :=
  ⟨(c.skipping p).made, (c.skipping p).tests, (c.skipping p).cursor⟩

section

variable {β : Type} {p : α → Bool} {x : α} {xs : List α} {c : Cursor α}

theorem pass_of_exhausted (h : c.remaining = []) (note : β → α → β) (made : β) :
    c.pass p note made = ⟨made, [], 0, c⟩ := by
  rw [pass, if_pos (c.atEnd_iff.mpr h)]

theorem not_atEnd_of_remaining (h : c.remaining = x :: xs) : ¬ c.atEnd = true := by
  rw [atEnd_iff, h]
  exact List.cons_ne_nil x xs

theorem pass_of_fails (h : c.remaining = x :: xs) (fails : p x = false) (note : β → α → β)
    (made : β) : c.pass p note made = ⟨made, [], 1, c⟩ := by
  rw [pass, if_neg (not_atEnd_of_remaining h)]
  simp only [peek, shown_of_remaining h, fails, Bool.false_eq_true, if_false]

theorem pass_of_passes (h : c.remaining = x :: xs) (passes : p x = true) (note : β → α → β)
    (made : β) :
    c.pass p note made =
      let r := pass p note (note made x) ⟨c.position + 1, .after x xs⟩
      { r with elements := x :: r.elements, tests := r.tests + 1 } := by
  rw [pass, if_neg (not_atEnd_of_remaining h)]
  simp only [peek, shown_of_remaining h, passes, if_true]
  split
  · next heq =>
    rw [consume_of_remaining h] at heq
    cases heq
  · next heq =>
    rw [consume_of_remaining h] at heq
    cases heq
    rfl

end

/-! ## Describing a cursor -/

/-- A cursor in words, each element written by `write`. -/
def describe (write : α → String) (c : Cursor α) : String :=
  let front := match c.front with
    | .ready current _ => "Ready(" ++ write current ++ ")"
    | .pending last => "Pending(" ++ write last ++ ")"
    | .spent => "Done"
  "IterCursor \x7b lookahead: " ++ front ++ ", position: " ++ toString c.position ++ " \x7d"

/-! ## Samples -/

/-- The last element stays on show after it was taken. -/
example : (ofList ['a']).consume.2.peek = .ok 'a' := rfl

/-- The last element is not taken twice. -/
example : (ofList ['a']).consume.2.consume.1 = .error ⟨1⟩ := rfl

/-- A run that stops at an element has tested that element too. -/
example : (ofList ['a', 'b', 'c']).takeWhile (· != 'c') =
    ⟨['a', 'b'], 3, ⟨2, .ready 'c' []⟩⟩ := by cbv

/-- A run that takes everything has tested nothing else, and stops short of the end. -/
example : (ofList ['a', 'b']).takeWhile (· != 'c') =
    ⟨['a', 'b'], 2, ⟨2, .pending 'b'⟩⟩ := by cbv

end Cursor
end Forward
