/-
  A terminator: a last record that no leaf of a pattern stands for.

  Behind the last record a cursor goes on showing it, although it is consumed, and a leaf that
  fits it a second time reads past the end.  A record that no leaf fits, put behind the others,
  takes its place: it is on show instead, and every leaf fails on it.  So a match of the longer
  stream never reads past the end and never takes the terminator, and a match of the shorter one
  either reads past the end or comes out in the same way.

  The longer run stays in front of the terminator as it would in front of any end mark (`Stays`).
  The two runs are compared step by step.  `Trails n t s s'` relates a scan of the shorter stream
  to the scan of the longer one at the same position, and `Guarded n t a` says that the attempt
  `a` keeps them related, unless it reads past the end of the shorter one.  Each way to build
  attempts keeps this, leaves have it because they refuse the terminator, and a look at the front
  has it as long as the value of the look is not used.
-/
import Forward.Proofs.EndMark
import Forward.Proofs.Pattern.Meaning

namespace Forward

namespace Attempt

variable {α σ τ : Type} {n : Nat} {t : α}

/-- The scan `s` stands in the stream of `n` elements where `s'` stands in the same stream with
    the terminator `t` behind it. -/
structure Trails (n : Nat) (t : α) (s s' : Scan α) : Prop where
  position : s.position = s'.position
  remaining : s'.cursor.remaining = s.cursor.remaining ++ [t]
  length : s.position + s.cursor.remaining.length = n

/-- The shorter run reads past the end, or comes out as the longer one does and stays behind it. -/
def Agrees (n : Nat) (t : α) (short long : Run α τ) : Prop :=
  short.outcome = .ended ⟨n⟩ ∨ (short.outcome = long.outcome ∧ Trails n t short.scan long.scan)

/-- In front of a terminator the attempt neither reads past the end nor takes it, and without the
    terminator it agrees with that. -/
structure Guarded (n : Nat) (t : α) (a : Attempt α τ) : Prop where
  stays : ∀ s, Before t s → (∀ stop, (a s).outcome ≠ .ended stop) ∧ Before t (a s).scan
  agrees : ∀ s s', Trails n t s s' → Agrees n t (a s) (a s')

theorem Trails.before {s s' : Scan α} (h : Trails n t s s') : Before t s' :=
  ⟨_, h.remaining⟩

/-! ## Single elements -/

/-- An attempt that takes an element is guarded by a terminator that does not fit. -/
theorem guarded_take {choose : α → Option τ} (h : choose t = none) :
    Guarded n t (take choose) where
  stays := stays_take h
  agrees := by
    rintro s s' hs
    have hlong := hs.remaining
    have hlength := hs.length
    cases hshort : s.cursor.remaining with
    | nil =>
      -- the shorter run has only the last record on show, the longer one the terminator
      rw [hshort] at hlong hlength
      rw [take_of_exhausted hshort, take_of_remaining hlong, h]
      obtain rfl : s.position = n := hlength
      cases s.cursor.shown with
      | none => exact Or.inl rfl
      | some last =>
        cases hlast : choose last with
        | none =>
          simp only [hlast]
          exact Or.inr ⟨rfl, hs⟩
        | some v =>
          simp only [hlast]
          exact Or.inl rfl
    | cons x xs =>
      rw [hshort] at hlong hlength
      rw [take_of_remaining hshort, take_of_remaining hlong]
      cases choose x with
      | none => exact Or.inr ⟨rfl, hs⟩
      | some v =>
        refine Or.inr ⟨rfl, ?_, ?_, ?_⟩
        · exact congrArg (· + 1) hs.position
        · show (Front.after x (xs ++ [t])).remaining = (Front.after x xs).remaining ++ [t]
          rw [Front.remaining_after, Front.remaining_after]
        · show s.position + 1 + (Front.after x xs).remaining.length = n
          rw [Front.remaining_after, ← hlength, List.length_cons]
          omega

/-- A look at the front is guarded if nothing is made of what it shows. -/
theorem guarded_look (v : τ) : Guarded n t (look.map fun _ => v) where
  stays := stays_look.map fun _ => v
  agrees := by
    intro s s' hs
    obtain ⟨x, hx⟩ := hs.before.shown
    rw [Attempt.map, Attempt.map, look_of_shown hx]
    cases hy : s.cursor.shown with
    | some y =>
      rw [look_of_shown hy]
      exact Or.inr ⟨rfl, hs⟩
    | none =>
      -- nothing is on show only where nothing is left
      have hnil : s.cursor.remaining = [] := by
        cases hxs : s.cursor.remaining with
        | nil => rfl
        | cons z zs => rw [Cursor.shown_of_remaining hxs] at hy; cases hy
      have hlength := hs.length
      rw [hnil] at hlength
      obtain rfl : s.position = n := hlength
      rw [look_of_not_shown hy]
      exact Or.inl rfl

/-! ## Each way to build attempts -/

/-- What becomes of a value may depend on the positions before and after: they are the same in
    both runs. -/
theorem Guarded.bindOutcome {a : Attempt α σ} (h : Guarded n t a)
    (next : Nat → Nat → σ → Outcome τ) (hnext : ∀ i j x stop, next i j x ≠ .ended stop) :
    Guarded n t fun s =>
      (a s).withOutcome ((a s).outcome.bind (next s.position (a s).scan.position)) where
  stays := Stays.bindOutcome h.stays next hnext
  agrees := by
    intro s s' hs
    rcases h.agrees s s' hs with hend | ⟨hout, htrails⟩
    · refine Or.inl ?_
      show Outcome.bind _ _ = _
      rw [hend]
      rfl
    · refine Or.inr ⟨?_, htrails⟩
      show Outcome.bind _ _ = Outcome.bind _ _
      rw [hout, hs.position, htrails.position]

theorem Guarded.map {a : Attempt α σ} (h : Guarded n t a) (f : σ → τ) : Guarded n t (a.map f) :=
  h.bindOutcome (fun _ _ x => .matched (f x)) fun _ _ _ _ => by rintro ⟨⟩

/-- Whether a round took an element is the same in both runs. -/
theorem Guarded.consuming {a : Attempt α τ} (h : Guarded n t a) : Guarded n t a.consuming := by
  refine h.bindOutcome (fun i j x => if i < j then .matched x else .failed) fun i j x stop => ?_
  split <;> rintro ⟨⟩

theorem Guarded.andThen {a : Attempt α σ} {next : σ → Attempt α τ} (h : Guarded n t a)
    (k : ∀ x, Guarded n t (next x)) : Guarded n t (a.andThen next) where
  stays := Stays.andThen h.stays fun x => (k x).stays
  agrees := by
    intro s s' hs
    rcases h.agrees s s' hs with hend | ⟨hout, htrails⟩
    · refine Or.inl ?_
      simp only [Attempt.andThen, hend]
      rfl
    · simp only [Attempt.andThen, hout]
      cases (a s').outcome with
      | matched x => exact (k x).agrees _ _ htrails
      | _ => exact Or.inr ⟨rfl, htrails⟩

theorem guarded_succeed (v : τ) : Guarded n t (succeed v : Attempt α τ) where
  stays := stays_succeed v
  agrees _ _ hs := Or.inr ⟨rfl, hs⟩

theorem guarded_fail : Guarded n t (fail : Attempt α τ) where
  stays := stays_fail
  agrees _ _ hs := Or.inr ⟨rfl, hs⟩

theorem Guarded.either {a b : Attempt α τ} (h : Guarded n t a) (k : Guarded n t b) :
    Guarded n t (a.either b) where
  stays := Stays.either h.stays k.stays
  agrees := by
    intro s s' hs
    rcases h.agrees s s' hs with hend | ⟨hout, htrails⟩
    · refine Or.inl ?_
      simp only [Attempt.either, hend]
    · simp only [Attempt.either, hout]
      cases ho : (a s').outcome with
      | failed => exact k.agrees _ _ htrails
      | _ => exact Or.inr ⟨hout, htrails⟩

theorem composes_guarded (n : Nat) (t : α) : Composes (Guarded n t) where
  succeed v := guarded_succeed v
  fail := guarded_fail
  map h f := h.map f
  andThen _ _ h k := h.andThen k
  either _ _ h k := h.either k

/-- The rounds of a repetition, as an attempt of their own. -/
theorem Guarded.gather {a : Attempt α τ} (h : Guarded n t a) {full : Outcome (List τ)}
    (hfull : ∀ stop, full ≠ .ended stop) (room : Nat) :
    Guarded n t fun s => (gather full a room s).run := by
  induction room with
  | zero => exact ⟨Stays.gather h.stays hfull 0, fun s s' hs => Or.inr ⟨rfl, hs⟩⟩
  | succ room ih =>
    -- one more round is the body and then the rounds after it
    refine ⟨Stays.gather h.stays hfull (room + 1), fun s s' hs => ?_⟩
    rcases h.agrees s s' hs with hend | ⟨hout, htrails⟩
    · refine Or.inl ?_
      simp only [Attempt.gather, hend]
      rfl
    · simp only [Attempt.gather, hout]
      cases (a s').outcome with
      | matched x => exact (ih.map (x :: ·)).agrees _ _ htrails
      | _ => exact Or.inr ⟨rfl, htrails⟩

/-- Whether there were enough rounds is the same in both runs. -/
theorem Guarded.repeated {a : Attempt α τ} (h : Guarded n t a) (times : Repetition)
    (limit : Nat) : Guarded n t (a.repeated times limit) := by
  have hrounds : Guarded n t (a.gathered times limit) :=
    h.gather (full_ne_ended times) (room times limit)
  have hcounted := hrounds.bindOutcome (fun _ _ => counted times) fun i j values stop => by
    unfold counted
    split <;> rintro ⟨⟩
  refine ⟨Stays.repeated h.stays times limit, fun s s' hs => ?_⟩
  rw [Agrees, outcome_repeated, outcome_repeated, scan_repeated, scan_repeated]
  exact hcounted.agrees s s' hs

end Attempt

namespace Pattern

open Attempt

/-! ## Records that no leaf stands for -/

/-- No leaf of the pattern stands for the record. -/
def Refuses (p : Pattern) (record : Record) : Prop := ∀ leaf ∈ p.leaves, leaf.accepts record = false

theorem closed_guarded (n limit : Nat) (t : Record) : Closed limit (Guarded n t) where
  toComposes := composes_guarded n t
  boundary := guarded_look []
  consuming h := h.consuming
  repeated _ _ h := h.repeated _ limit

/-- A pattern is guarded by a record that none of its leaves stands for. -/
theorem guarded_meaning {p : Pattern} {n limit : Nat} {t : Record} (h : p.Refuses t) :
    Guarded n t (meaning limit p) := by
  refine (closed_guarded n limit t).meaning fun leaf hleaf => guarded_take ?_
  rw [h leaf hleaf]
  rfl

/-- With a record behind the others that no leaf stands for, a match comes to an answer, does not
    read past the end and leaves that record where it is.  Without it, the match has the same
    answer or reads past the end. -/
theorem matchRecords_terminated (p : Pattern) (records : List Record) (t : Record)
    (h : p.Refuses t) :
    (∀ stop, Recognizer.matchRecords ⟨p⟩ (records ++ [t]) ≠ .ended stop) ∧
      Recognizer.matchRecords ⟨p⟩ (records ++ [t]) ≠ .unfinished ∧
      (∃ left, (p.attempt (Scan.ofList (records ++ [t]))).scan.cursor.remaining = left ++ [t]) ∧
      (Recognizer.matchRecords ⟨p⟩ records = Recognizer.matchRecords ⟨p⟩ (records ++ [t]) ∨
        Recognizer.matchRecords ⟨p⟩ records = .ended ⟨records.length⟩) := by
  have hlong : (Scan.ofList (records ++ [t])).cursor.remaining = records ++ [t] :=
    Cursor.remaining_ofList _
  have hshort : (Scan.ofList records).cursor.remaining = records := Cursor.remaining_ofList _
  -- one limit is enough for both runs
  have hguarded : Guarded records.length t (meaning (records.length + 2) p) := guarded_meaning h
  have hlongrun : p.attempt (Scan.ofList (records ++ [t])) =
      meaning (records.length + 2) p (Scan.ofList (records ++ [t])) :=
    attempt_eq_meaning p (by rw [hlong, List.length_append]; exact Nat.lt_succ_self _)
  have hshortrun : p.attempt (Scan.ofList records) =
      meaning (records.length + 2) p (Scan.ofList records) :=
    attempt_eq_meaning p (by rw [hshort]; omega)
  have htrails : Trails records.length t (Scan.ofList records) (Scan.ofList (records ++ [t])) :=
    ⟨rfl, by rw [hlong, hshort], by rw [hshort]; exact Nat.zero_add _⟩
  obtain ⟨hne, hbefore⟩ := hguarded.stays _ htrails.before
  have hfinished := finished_attempt p (Scan.ofList (records ++ [t]))
  simp only [Recognizer.matchRecords, Recognizer.attempt]
  rw [Run.Finished] at hfinished
  rw [hlongrun] at hfinished ⊢
  rw [hshortrun]
  refine ⟨hne, hfinished, hbefore, ?_⟩
  rcases hguarded.agrees _ _ htrails with hend | ⟨hout, -⟩
  · exact Or.inr hend
  · exact Or.inl hout

/-- Atoms up to the end read past it, and are matched if a nil record is behind them. -/
theorem matchRecords_terminated_atoms :
    let atoms : Pattern := .repeated (.oneOf [.b, .w]) .zeroOrMore
    atoms.Refuses none ∧
      (∀ stop, Recognizer.matchRecords ⟨atoms⟩ [some .b, some .w, none] ≠ .ended stop) ∧
      Recognizer.matchRecords ⟨atoms⟩ [some .b, some .w, none] = .matched [some .b, some .w] ∧
      Recognizer.matchRecords ⟨atoms⟩ [some .b, some .w] = .ended ⟨2⟩ := by
  intro atoms
  have hrefuses : atoms.Refuses none := by
    intro leaf hleaf
    rw [List.mem_singleton.mp hleaf]
    rfl
  have hmatched : Recognizer.matchRecords ⟨atoms⟩ [some .b, some .w, none] =
      .matched [some .b, some .w] := by decide
  obtain ⟨hne, -, -, hout⟩ := matchRecords_terminated atoms [some .b, some .w] none hrefuses
  refine ⟨hrefuses, hne, hmatched, ?_⟩
  rcases hout with hsame | hend
  · have hdiffer : Recognizer.matchRecords ⟨atoms⟩ [some .b, some .w] ≠
        Recognizer.matchRecords ⟨atoms⟩ [some .b, some .w, none] := by decide
    exact absurd hsame hdiffer
  · exact hend

end Pattern
end Forward
