/-
  The rounds of repetitions: how often a pattern attempts the body of one.

  Matching a pattern comes to an answer, because no repetition goes on without taking records.
  That is said here in numbers.  A loop that begins at some place makes at most one attempt more
  than there are records behind that place (`notes_meaning`), whatever the loop stands in, and
  whether or not the match succeeds: every attempt but the last one takes a record.  A body that can
  match nothing may be attempted once more, in front of the loop, if it has to occur at least once.

  To count the attempts of a body, `Attempt.marked` puts a mark in place of what an attempt
  reports.  Marks change nothing else (`Alike`), so that the repetition with its body marked makes
  the same attempts, and its trace tells their number.
-/
import Forward.Proofs.Events
import Forward.Proofs.Pattern.Meaning

namespace Forward

namespace Attempt

variable {α σ τ : Type}

/-! ## Attempts that differ in what they report -/

/-- The attempts come out alike and leave the same scan behind. -/
def Alike (a b : Attempt α τ) : Prop :=
  ∀ s, (a s).outcome = (b s).outcome ∧ (a s).scan = (b s).scan

theorem Alike.map {a b : Attempt α σ} (h : Alike a b) (f : σ → τ) :
    Alike (a.map f) (b.map f) := by
  intro s
  obtain ⟨hout, hscan⟩ := h s
  exact ⟨congrArg (Outcome.map f) hout, hscan⟩

theorem Alike.consuming {a b : Attempt α τ} (h : Alike a b) : Alike a.consuming b.consuming := by
  intro s
  obtain ⟨hout, hscan⟩ := h s
  simp only [Attempt.consuming, Run.withOutcome, hout, hscan, and_self]

theorem Alike.both {a b : Attempt α σ} {c d : Attempt α τ} (h : Alike a b) (k : Alike c d) :
    Alike (a.both c) (b.both d) := by
  intro s
  obtain ⟨hout, hscan⟩ := h s
  unfold Attempt.both Attempt.andThen
  simp only [hout]
  cases (b s).outcome with
  | matched x =>
    rw [hscan]
    exact k.map _ _
  | _ => exact ⟨rfl, hscan⟩

theorem Alike.gather {a b : Attempt α τ} (h : Alike a b) (full : Outcome (List τ)) (room : Nat) :
    Alike (fun s => (gather full a room s).run) fun s => (gather full b room s).run := by
  induction room with
  | zero => exact fun s => ⟨rfl, rfl⟩
  | succ room ih =>
    intro s
    obtain ⟨hout, hscan⟩ := h s
    simp only [Attempt.gather, hout]
    cases (b s).outcome with
    | matched x =>
      rw [hscan]
      exact ih.map (x :: ·) _
    | _ => exact ⟨rfl, hscan⟩

theorem Alike.repeated {a b : Attempt α τ} (h : Alike a b) (times : Repetition) (limit : Nat) :
    Alike (a.repeated times limit) (b.repeated times limit) := by
  intro s
  have hrounds := h.gather (full times) (room times limit) s
  rw [outcome_repeated, outcome_repeated, scan_repeated, scan_repeated]
  exact ⟨congrArg (Outcome.bind · (counted times)) hrounds.1, hrounds.2⟩

/-! ## Marks -/

/-- The attempt with a mark in place of what it reports. -/
def marked (a : Attempt α τ) : Attempt α τ := fun s => { a s with trace := [.expanded s.position []] }

theorem alike_marked (a : Attempt α τ) : Alike a.marked a := fun _ => ⟨rfl, rfl⟩

/-- Whenever it is made, the attempt leaves one mark. -/
def MarksOnce (a : Attempt α τ) : Prop := ∀ s, Trace.expansions (a s).trace = 1

theorem marksOnce_marked (a : Attempt α τ) : MarksOnce a.marked := fun _ => rfl

/-- Two attempts one after the other leave the marks of both, or of the first one only. -/
theorem expansions_both_le (a : Attempt α σ) (b : Attempt α τ) (s : Scan α) :
    Trace.expansions (a.both b s).trace ≤
      Trace.expansions (a s).trace + Trace.expansions (b (a s).scan).trace := by
  rcases a.andThen_cases (fun x => b.map fun y => (x, y)) s with ⟨x, -, hrun⟩ | ⟨o, hrun, -⟩
  · rw [Attempt.both, hrun]
    exact Nat.le_of_eq (Trace.expansions_append (a s).trace (b (a s).scan).trace)
  · rw [Attempt.both, hrun]
    exact Nat.le_add_right _ _

/-- Rounds that leave one mark each leave as many as there were attempts. -/
theorem MarksOnce.gather {a : Attempt α τ} (h : MarksOnce a) (full : Outcome (List τ))
    (room : Nat) (s : Scan α) :
    Trace.expansions (Attempt.gather full a room s).run.trace =
      (Attempt.gather full a room s).attempts := by
  induction room generalizing s with
  | zero => rfl
  | succ room ih =>
    have hone := h s
    rcases gather_cases full a room s with ⟨x, -, hrun⟩ | ⟨o, hrun, -⟩
    · have hlater := ih (a s).scan
      rw [hrun]
      show Trace.expansions ((a s).trace ++ (Attempt.gather full a room (a s).scan).run.trace) = _
      rw [Trace.expansions_append, hone, hlater]
      exact Nat.add_comm 1 _
    · rw [hrun]
      exact hone

/-- A loop whose body takes an element each time leaves at most one mark more than there are
    elements. -/
theorem MarksOnce.repeated_le {a : Attempt α τ} (h : MarksOnce a) (onward : Moves Onward a)
    (adv : Advances a) {times : Repetition} (unbounded : times.most = none) (limit : Nat)
    (s : Scan α) :
    Trace.expansions (a.repeated times limit s).trace ≤ s.cursor.remaining.length + 1 := by
  have hmarks := h.gather (full times) (room times limit) s
  have hattempts := adv.attempts_gather_le onward (full times) (room times limit) s
  rw [trace_repeated_of_unbounded unbounded]
  simp only [Trace.expansions, Event.expansions, gathered]
  omega

end Attempt

namespace Pattern

open Attempt

variable {limit : Nat}

/-! ## A repetition and its body -/

theorem alike_repetition {a b : Attempt Record (List Record)} (h : Alike a b) (nullable : Bool)
    (times : Quantifier) (limit : Nat) :
    Alike (repetition nullable times limit a) (repetition nullable times limit b) := by
  have hrest := h.consuming.repeated .zeroOrMore limit
  cases nullable with
  | false => exact (h.repeated times.times limit).map _
  | true =>
    cases times with
    | oneOrMore => exact (h.both hrest).map _
    | zeroOrMore => exact hrest.map _
    | zeroOrOne => exact (h.repeated .zeroOrOne limit).map _

/-! ## Loops -/

/-- A loop begins behind `s`, among the records that are left there, and makes at most one attempt
    more than there are records left where it begins. -/
def LoopBounded (s : Scan Record) (event : Event Record) (_ : Scan Record) : Prop :=
  ∀ start attempts inside, event = .repeated start attempts inside →
    s.position ≤ start ∧ start ≤ s.position + s.cursor.remaining.length ∧
      attempts ≤ s.position + s.cursor.remaining.length - start + 1

theorem widens_loopBounded : Widens LoopBounded where
  widen := by
    intro r s t u event hrs hevent htu start attempts inside heq
    obtain ⟨hstart, hend, hattempts⟩ := hevent start attempts inside heq
    have hle := hrs.position_le
    have hadd := hrs.length_add
    exact ⟨by omega, by omega, by omega⟩

/-- A loop with a body that takes a record each time is bounded. -/
theorem notes_repeated {a : Attempt Record (List Record)} (onward : Moves Onward a)
    {times : Repetition} (hrounds : times.most ≠ none ∨ Advances a) (h : Notes LoopBounded a) :
    Notes LoopBounded (a.repeated times limit) := by
  apply h.repeated widens_loopBounded onward
  intro unbounded s start attempts inside heq
  obtain ⟨rfl, rfl, rfl⟩ := Event.repeated.inj heq
  have hadv : Advances a := hrounds.resolve_left fun bounded => bounded unbounded
  have hattempts := hadv.attempts_gather_le onward (full times) (room times limit) s
  exact ⟨by omega, by omega, by omega⟩

theorem closed_loopBounded : Closed limit (Notes LoopBounded) where
  toComposes := composes_notes widens_loopBounded
  boundary := notes_look.map _
  consuming h := h.consuming
  repeated onward hrounds h := notes_repeated onward hrounds h

/-- Every loop in the run of a pattern is bounded. -/
theorem notes_meaning (p : Pattern) : Notes LoopBounded (meaning limit p) :=
  closed_loopBounded.meaning fun _ _ => notes_take _

/-! ## Attempts of a body -/

/-- A repetition without an upper bound attempts its body at most twice more than there are
    records: each attempt takes one, but the first one of a body that can match nothing, and the
    last one. -/
theorem marks_repetition_le (body : Pattern) {times : Quantifier} (unbounded : times ≠ .zeroOrOne)
    (s : Scan Record) :
    Trace.expansions
        (repetition body.isNullable times limit (meaning limit body).marked s).trace ≤
      s.cursor.remaining.length + 2 := by
  have hmoves : Moves Onward (meaning limit body) := onward_meaning body
  have honward : Moves Onward (meaning limit body).marked := hmoves
  have hmarks := marksOnce_marked (meaning limit body)
  have hmost : times.times.most = none := by
    cases times with
    | zeroOrOne => exact absurd rfl unbounded
    | _ => rfl
  cases hnull : body.isNullable with
  | false =>
    have hbody : Advances (meaning limit body) := advances_meaning hnull
    have hadv : Advances (meaning limit body).marked := hbody
    exact Nat.le_succ_of_le (hmarks.repeated_le honward hadv hmost limit s)
  | true =>
    -- behind the first attempt there is a loop whose body has to take a record
    have hrest : ∀ t, Trace.expansions
        ((meaning limit body).marked.consuming.repeated .zeroOrMore limit t).trace ≤
          t.cursor.remaining.length + 1 :=
      MarksOnce.repeated_le (a := (meaning limit body).marked.consuming) hmarks
        honward.consuming (advances_consuming _) rfl limit
    cases times with
    | oneOrMore =>
      have hlength := (honward s).length_le
      have hloop := hrest ((meaning limit body).marked s).scan
      have hone := hmarks s
      have hboth := expansions_both_le (meaning limit body).marked
        ((meaning limit body).marked.consuming.repeated .zeroOrMore limit) s
      show Trace.expansions (Attempt.both _ _ s).trace ≤ _
      omega
    | zeroOrMore => exact Nat.le_succ_of_le (hrest s)
    | zeroOrOne => exact absurd rfl unbounded

/-- Matching a pattern comes to an answer wherever it begins, the same one with every bound on
    rounds that exceeds the number of records left.  Each loop on the way there, at any depth, begins
    at one of these records or behind the last one, and makes at most one attempt more than there are
    records left at its beginning.

    A repetition without an upper bound attempts its body at most twice more than there are records
    left where it begins, as the run with these attempts marked tells.  Inside another pattern it is
    run with the bound of the whole match, so this is said for every bound that is large enough. -/
theorem attempt_terminates (p : Pattern) (s : Scan Record) :
    (p.attempt s).Finished ∧
      (∀ limit, s.cursor.remaining.length < limit → p.matcher.run .empty limit s = p.attempt s) ∧
      (∀ start attempts inside, Occurs (.repeated start attempts inside) (p.attempt s).trace →
        s.position ≤ start ∧ start ≤ s.position + s.cursor.remaining.length ∧
          attempts ≤ s.position + s.cursor.remaining.length - start + 1) ∧
      ∀ body times, p = .repeated body times → times ≠ .zeroOrOne →
        ∀ limit, s.cursor.remaining.length < limit →
          let r := repetition body.isNullable times limit (meaning limit body).marked s
          r.outcome = (p.attempt s).outcome ∧ r.scan = (p.attempt s).scan ∧
            Trace.expansions r.trace ≤ s.cursor.remaining.length + 2 := by
  refine ⟨finished_attempt p s, ?_, ?_, ?_⟩
  · intro limit hlimit
    exact (attempt_eq_meaning p hlimit).symm
  · intro start attempts inside hloop
    exact notes_meaning p s _ hloop start attempts inside rfl
  · rintro body times rfl unbounded limit hlimit
    have halike := alike_repetition (alike_marked (meaning limit body)) body.isNullable times limit s
    rw [attempt_eq_meaning _ hlimit, meaning_repeated]
    exact ⟨halike.1, halike.2, marks_repetition_le body unbounded s⟩

/-- Of `(B?)+` in front of a single letter that does not fit, the first attempt takes nothing, and
    the only attempt of the loop behind it is the last one. -/
theorem attempt_terminates_optional :
    let body : Pattern := .repeated (.atom .b) .zeroOrOne
    let p : Pattern := .repeated body .oneOrMore
    let s : Scan Record := Scan.ofList [some .w]
    let r := repetition body.isNullable .oneOrMore 3 (meaning 3 body).marked s
    s.cursor.remaining.length < 3 ∧ p.matcher.run .empty 3 s = p.attempt s ∧
      Occurs (.repeated 0 1 []) (p.attempt s).trace ∧ 1 ≤ s.cursor.remaining.length + 1 ∧
      r.outcome = (p.attempt s).outcome ∧ Trace.expansions r.trace = 2 ∧
      Trace.expansions r.trace ≤ s.cursor.remaining.length + 2 := by
  intro body p s r
  have hlimit : s.cursor.remaining.length < 3 := by decide
  have htrace : (p.attempt s).trace = [.repeated 0 1 []] := rfl
  have hloop : Occurs (.repeated 0 1 []) (p.attempt s).trace := by
    rw [htrace]
    exact .top List.mem_cons_self
  obtain ⟨-, hbound, hloops, hbody⟩ := attempt_terminates p s
  obtain ⟨-, -, hattempts⟩ := hloops 0 1 [] hloop
  obtain ⟨hout, -, hmarks⟩ := hbody body .oneOrMore rfl (by decide) 3 hlimit
  have hcount : Trace.expansions r.trace = 2 := by decide
  exact ⟨hlimit, hbound 3 hlimit, hloop, hattempts, hout, hcount, hmarks⟩

end Pattern
end Forward
