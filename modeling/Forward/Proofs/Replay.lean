/-
  Replay: the captures that a run leaves are those made in the course of it, made once more.

  A capture succeeds in the middle of a match, and what surrounds it may still fail.  The value
  stays captured all the same.  So the captures behind a run are those in front of it with the
  captures of its log made after them, one after the other (`Captures.replay`), whatever became of
  the parts that made them, and the trace tells of the same captures.

  What a replay comes to is a matter of lists: the last capture of a name counts, names that are not
  captured keep what they stand for, and no name is forgotten.
-/
import Forward.Proofs.Logs

namespace Forward

variable {α σ τ : Type} {ρ : Type → Type}

namespace Captures

/-! ## Captures made once more -/

/-- Capture the values of a list under their names, one after the other. -/
def replay (c : Captures α) (made : List (String × α)) : Captures α :=
  made.foldl (fun c entry => c.capture entry.1 entry.2) c

theorem replay_append (c : Captures α) (first second : List (String × α)) :
    c.replay (first ++ second) = (c.replay first).replay second := List.foldl_append

theorem contains_capture {c : Captures α} {name : String} (h : c.contains name = true)
    (other : String) (value : α) : (c.capture other value).contains name = true := by
  unfold contains
  rw [get?_capture]
  split
  · rfl
  · exact h

/-- Nothing that is captured is forgotten. -/
theorem contains_replay {c : Captures α} {name : String} (h : c.contains name = true)
    (made : List (String × α)) : (c.replay made).contains name = true := by
  induction made generalizing c with
  | nil => exact h
  | cons entry later ih => exact ih (contains_capture h entry.1 entry.2)

/-- A name that is not captured again keeps what it stands for. -/
theorem get?_replay_of_notMem {name : String} {made : List (String × α)}
    (h : name ∉ made.map Prod.fst) (c : Captures α) : (c.replay made).get? name = c.get? name := by
  induction made generalizing c with
  | nil => rfl
  | cons entry later ih =>
    rw [List.map_cons, List.mem_cons, not_or] at h
    have hlater := ih h.2 (c.capture entry.1 entry.2)
    rw [get?_capture, if_neg (Ne.symm h.1)] at hlater
    exact hlater

/-- What a name stands for after it was captured again does not depend on what it stood for. -/
theorem get?_replay_of_mem {name : String} {made : List (String × α)}
    (h : name ∈ made.map Prod.fst) (c d : Captures α) :
    (c.replay made).get? name = (d.replay made).get? name := by
  induction made generalizing c d with
  | nil => cases h
  | cons entry later ih =>
    by_cases hlater : name ∈ later.map Prod.fst
    · exact ih hlater _ _
    · -- this is the last capture of the name
      have hlast : name = entry.1 := by
        rw [List.map_cons, List.mem_cons] at h
        exact h.resolve_right hlater
      show ((c.capture entry.1 entry.2).replay later).get? name =
        ((d.capture entry.1 entry.2).replay later).get? name
      rw [get?_replay_of_notMem hlater, get?_replay_of_notMem hlater, get?_capture, get?_capture,
        if_pos hlast.symm, if_pos hlast.symm]

end Captures

/-! ## What is noted of captures -/

/-- The captures behind a run are those in front of it with what is noted made after them.  The
    trace tells of the same captures, and their names are among `writes`. -/
structure Replays (writes : String → Prop) (s : Scan α) (made : List (String × α)) (trace : Trace α)
    (t : Scan α) : Prop where
  captures : t.captures = s.captures.replay made
  trace_eq : Trace.captures trace = made
  names : ∀ entry ∈ made, writes entry.1

variable {writes : String → Prop}

/-- Nothing is captured. -/
theorem replays_nil {s t : Scan α} {trace : Trace α} (hcaptures : t.captures = s.captures)
    (htrace : Trace.captures trace = []) : Replays writes s [] trace t :=
  ⟨hcaptures, htrace, List.forall_mem_nil _⟩

/-- One run after another. -/
theorem Replays.append {s t u : Scan α} {made later : List (String × α)} {trace events : Trace α}
    (h : Replays writes s made trace t) (k : Replays writes t later events u) :
    Replays writes s (made ++ later) (trace ++ events) u where
  captures := by rw [k.captures, h.captures, Captures.replay_append]
  trace_eq := by rw [Trace.captures_append, h.trace_eq, k.trace_eq]
  names entry hentry := (List.mem_append.mp hentry).elim (h.names entry) (k.names entry)

theorem accounts_captures : Ledger.captures.Accounts writes (Replays (α := α) writes) where
  nil _ := replays_nil rfl rfl
  append h k := h.append k
  wrap h event encloses := by
    refine ⟨h.captures, ?_, h.names⟩
    rw [Trace.captures, encloses, h.trace_eq]
    exact List.append_nil _
  unbound _ _ := replays_nil rfl rfl
  take choose s := replays_nil (Attempt.take_touches choose s).2 rfl
  capture s name value hname := by
    refine ⟨rfl, rfl, ?_⟩
    intro entry hentry
    rw [List.mem_singleton.mp hentry]
    exact hname

/-! ## What is reported of captures -/

/-- The name of a capture that a message reports. -/
def Message.bound? : Message → Option String
  | .captureBound name _ => some name
  | _ => none

mutual

/-- The messages of an event report its captures, one each and in their order. -/
theorem Event.bound_messages (event : Event α) :
    event.messages.filterMap Message.bound? = event.captures.map Prod.fst := by
  cases event with
  | captured => rfl
  | unbound => rfl
  | expanded start inside => exact Trace.bound_messages inside
  | spanned span inside => exact Trace.bound_messages inside
  | repeated start attempts inside => exact Trace.bound_messages inside

theorem Trace.bound_messages (trace : List (Event α)) :
    (Trace.messages trace).filterMap Message.bound? = (Trace.captures trace).map Prod.fst := by
  cases trace with
  | nil => rfl
  | cons event later =>
    rw [Trace.messages, Trace.captures, List.filterMap_append, List.map_append,
      Event.bound_messages event, Trace.bound_messages later]

end

/-! ## Matchers -/

variable [BEq α]

theorem Matcher.replays_made (g : Grammar α ρ) (bound : Nat) (m : Matcher α ρ τ) (s : Scan α) :
    Replays (fun name => ∃ body, Reaches g m (.capture name body)) s (m.made g bound s)
      (m.run g bound s).trace (m.run g bound s).scan :=
  m.accounted_log accounts_captures g (fun _ body h => ⟨body, h⟩) bound s

/-- The captures that a run leaves are those that it started with, overwritten by the captures made
    in the course of it, in their order, also where what surrounded them was given up.  No name is
    forgotten, a name that no capture in reach of the match writes keeps what it stands for, and one
    message for each capture reports it, in the same order.  This holds for every bound, and so for
    every run that comes to an answer, whichever it is. -/
theorem Matcher.captures_run (g : Grammar α ρ) (bound : Nat) (m : Matcher α ρ τ) (s : Scan α) :
    let r := m.run g bound s
    let made := m.made g bound s
    r.scan.captures = s.captures.replay made ∧
    (∀ name, s.captures.contains name = true → r.scan.captures.contains name = true) ∧
    (∀ name, (∀ body, ¬ Reaches g m (.capture name body)) →
      r.scan.captures.get? name = s.captures.get? name) ∧
    (Trace.messages r.trace).filterMap Message.bound? = made.map Prod.fst := by
  intro r made
  have hreplays := m.replays_made g bound s
  refine ⟨hreplays.captures, ?_, ?_, ?_⟩
  · intro name hname
    rw [hreplays.captures]
    exact Captures.contains_replay hname made
  · intro name hname
    rw [hreplays.captures]
    apply Captures.get?_replay_of_notMem
    intro hmem
    obtain ⟨entry, hentry, rfl⟩ := List.mem_map.mp hmem
    obtain ⟨body, hbody⟩ := hreplays.names entry hentry
    exact hname body hbody
  · have htold : Trace.captures r.trace = made := hreplays.trace_eq
    rw [← htold]
    exact Trace.bound_messages r.trace

/-- Two letters are captured in a choice that is given up behind them, and the other choice finds
    the second one.  What stands under another name is left alone. -/
theorem Matcher.captures_run_given_up :
    let letters : Matcher Char NoRule (List Char) :=
      .repeated (.atMost 2) (.capture "letter" (.elem ['a', 'b']))
    let m : Matcher Char NoRule (List Char) := .either (.map Prod.fst (.both letters (.item '!')))
      (.map (fun x => [x]) (.backreference "letter"))
    let s : Scan Char := ⟨.ofList ['a', 'b', 'b', 'c'], Captures.empty.capture "sign" '?'⟩
    let r := m.run .empty 1 s
    r.outcome = .matched ['b'] ∧
      r.scan.captures = s.captures.replay [("letter", 'a'), ("letter", 'b')] ∧
      r.scan.captures.get? "sign" = some '?' := by
  intro letters m s r
  have hmatched : r.outcome = .matched ['b'] := by decide
  have hmade : m.made .empty 1 s = [("letter", 'a'), ("letter", 'b')] := by decide
  obtain ⟨hcaptures, -, huntouched, -⟩ := m.captures_run .empty 1 s
  refine ⟨hmatched, ?_, huntouched "sign" ?_⟩
  · rw [← hmade]
    exact hcaptures
  · intro body h
    have heach : m.Each fun k => match k with
        | .capture name _ => name = "letter"
        | _ => True :=
      ⟨trivial, ⟨trivial, trivial, ⟨trivial, rfl, trivial⟩, trivial⟩, trivial, trivial⟩
    have hname : "sign" = "letter" := (h.each (fun name => name.elim) heach).here
    exact absurd hname (by decide)

end Forward
