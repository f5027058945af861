/-
  Events: what can occur in the trace of a run, at any depth.

  `Occurs event trace` says that the event stands in the trace, at its top or enclosed in an event
  that does.  What is to be shown of events is mostly a condition that ties them to the run they
  occur in: a loop began not before it, a span ends not behind it.  Such a condition `P s event t`,
  between the scans `s` and `t` in front of the run and behind it, only gets weaker if the run is
  part of a longer one (`Widens`).  `Notes P a` says that all events of the attempt `a` satisfy it,
  and it passes through every way in which attempts are built; only the event of a loop has to be
  looked at where the loop is made.

  The loops themselves are counted at the end: a loop whose body takes an element each time makes
  at most one attempt more than there are elements.
-/
import Forward.Proofs.Progress

namespace Forward

variable {α σ τ : Type}

/-- What an event encloses. -/
def Event.inside : Event α → Trace α
  | .captured _ _ _ => []
  | .unbound _ => []
  | .expanded _ inside => inside
  | .spanned _ inside => inside
  | .repeated _ _ inside => inside

/-- The event stands in the trace, at its top or enclosed in another event. -/
inductive Occurs (event : Event α) : Trace α → Prop where
  | top {trace : Trace α} (h : event ∈ trace) : Occurs event trace
  | enclosed {trace : Trace α} {outer : Event α} (h : outer ∈ trace)
      (deeper : Occurs event outer.inside) : Occurs event trace

theorem not_occurs_nil (event : Event α) : ¬ Occurs event [] := by
  intro h
  cases h with
  | top h => cases h
  | enclosed h deeper => cases h

/-- What occurs in two traces one after the other occurs in one of them. -/
theorem Occurs.of_append {event : Event α} {first second : Trace α}
    (h : Occurs event (first ++ second)) : Occurs event first ∨ Occurs event second := by
  cases h with
  | top h => exact (List.mem_append.mp h).imp .top .top
  | enclosed h deeper =>
    exact (List.mem_append.mp h).imp (fun h => .enclosed h deeper) fun h => .enclosed h deeper

/-- What occurs in the trace of a single event is this event or occurs inside it. -/
theorem Occurs.of_singleton {event outer : Event α} (h : Occurs event [outer]) :
    event = outer ∨ Occurs event outer.inside := by
  cases h with
  | top h => exact Or.inl (List.mem_singleton.mp h)
  | enclosed h deeper =>
    rw [List.mem_singleton.mp h] at deeper
    exact Or.inr deeper

/-- A condition on an event in a run between two scans that every longer run keeps. -/
structure Widens (P : Scan α → Event α → Scan α → Prop) : Prop where
  widen : ∀ {r s t u event}, Onward r s → P s event t → Onward t u → P r event u

theorem Onward.refl (s : Scan α) : Onward s s := kept_onward.refl s

namespace Attempt

/-- All events of the attempt satisfy the condition between the scans around it. -/
def Notes (P : Scan α → Event α → Scan α → Prop) (a : Attempt α τ) : Prop :=
  ∀ s event, Occurs event (a s).trace → P s event (a s).scan

variable {P : Scan α → Event α → Scan α → Prop}

/-! ## Each way to build attempts -/

/-- Where nothing is reported there is nothing to show. -/
theorem notes_of_silent {a : Attempt α τ} (h : ∀ s, (a s).trace = []) : Notes P a := by
  intro s event hevent
  rw [h s] at hevent
  exact absurd hevent (not_occurs_nil event)

theorem notes_take (choose : α → Option τ) : Notes P (take choose) :=
  notes_of_silent fun s => (take_touches choose s).1

theorem notes_look : Notes P (look : Attempt α α) := notes_of_silent trace_look

theorem Notes.map {a : Attempt α σ} (h : Notes P a) (f : σ → τ) : Notes P (a.map f) := h

theorem Notes.consuming {a : Attempt α τ} (h : Notes P a) : Notes P a.consuming := h

theorem Notes.andThen {a : Attempt α σ} {next : σ → Attempt α τ} (wide : Widens P)
    (onward : Moves Onward a) (later : ∀ x, Moves Onward (next x)) (h : Notes P a)
    (k : ∀ x, Notes P (next x)) : Notes P (a.andThen next) := by
  intro s event hevent
  rcases a.andThen_cases next s with ⟨x, -, hrun⟩ | ⟨o, hrun, -⟩
  · rw [hrun] at hevent ⊢
    rcases hevent.of_append with hfirst | hsecond
    · exact wide.widen (.refl s) (h s event hfirst) (later x _)
    · exact wide.widen (onward s) (k x _ event hsecond) (.refl _)
  · rw [hrun] at hevent ⊢
    exact h s event hevent

theorem Notes.either {a b : Attempt α τ} (wide : Widens P) (onward : Moves Onward a)
    (later : Moves Onward b) (h : Notes P a) (k : Notes P b) : Notes P (a.either b) := by
  intro s event hevent
  rcases a.either_cases b s with ⟨-, hrun⟩ | ⟨-, hrun⟩
  · rw [hrun] at hevent ⊢
    rcases hevent.of_append with hfirst | hsecond
    · exact wide.widen (.refl s) (h s event hfirst) (later _)
    · exact wide.widen (onward s) (k _ event hsecond) (.refl _)
  · rw [hrun] at hevent ⊢
    exact h s event hevent

theorem Notes.optional {a : Attempt α τ} (h : Notes P a) : Notes P a.optional := by
  intro s event hevent
  have hbody := h s event
  unfold Attempt.optional at hevent ⊢
  dsimp only at hevent ⊢
  split at hevent <;> exact hbody hevent

theorem composes_notes (wide : Widens P) : Composes (Notes P) where
  succeed _ := notes_of_silent fun _ => rfl
  fail := notes_of_silent fun _ => rfl
  map h f := h.map f
  andThen onward later h k := h.andThen wide onward later k
  either onward later h k := h.either wide onward later k

theorem Notes.gather {a : Attempt α τ} (wide : Widens P) (onward : Moves Onward a)
    (h : Notes P a) (full : Outcome (List τ)) (room : Nat) :
    Notes P fun s => (gather full a room s).run := by
  induction room with
  | zero => exact notes_of_silent fun _ => rfl
  | succ room ih =>
    intro s event hevent
    rcases gather_cases full a room s with ⟨x, -, hrun⟩ | ⟨o, hrun, -⟩
    · simp only [hrun] at hevent ⊢
      rcases hevent.of_append with hfirst | hlater
      · exact wide.widen (.refl s) (h s event hfirst) (onward.gather kept_onward full room _)
      · exact wide.widen (onward s) (ih _ event hlater) (.refl _)
    · simp only [hrun] at hevent ⊢
      exact h s event hevent

/-- The events of a repetition are those of its rounds, and that of the loop if it is one. -/
theorem Notes.repeated {a : Attempt α τ} (wide : Widens P) (onward : Moves Onward a)
    (h : Notes P a) {times : Repetition} {limit : Nat}
    (loop : times.most = none → ∀ s, P s
      (.repeated s.position (Attempt.gather (full times) a (room times limit) s).attempts
        (a.gathered times limit s).trace) (a.repeated times limit s).scan) :
    Notes P (a.repeated times limit) := by
  intro s event hevent
  have hrounds := h.gather wide onward (full times) (room times limit) s event
  cases hmost : times.most with
  | some most =>
    rw [trace_repeated_of_bounded (by rw [hmost]; rintro ⟨⟩)] at hevent
    rw [scan_repeated]
    exact hrounds hevent
  | none =>
    rw [trace_repeated_of_unbounded hmost] at hevent
    rcases hevent.of_singleton with rfl | hinside
    · exact loop hmost s
    · rw [scan_repeated]
      exact hrounds hinside

/-! ## Counting the attempts of a loop -/

/-- Each attempt but the last one takes an element. -/
theorem Advances.attempts_gather_le {a : Attempt α τ} (onward : Moves Onward a) (h : Advances a)
    (full : Outcome (List τ)) (room : Nat) (s : Scan α) :
    (Attempt.gather full a room s).attempts ≤ s.cursor.remaining.length + 1 := by
  induction room generalizing s with
  | zero => exact Nat.zero_le _
  | succ room ih =>
    rcases gather_cases full a room s with ⟨x, hx, hrun⟩ | ⟨o, hrun, -⟩
    · have hadd := (onward s).length_add
      have hlater := ih (a s).scan
      have hlt := h s x hx
      rw [hrun]
      show (Attempt.gather full a room (a s).scan).attempts + 1 ≤ _
      omega
    · rw [hrun]
      exact Nat.le_add_left 1 s.cursor.remaining.length

end Attempt
end Forward
