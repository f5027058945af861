/-
  Big-step rules for attempts: how an attempt comes out and where it stops, from its parts.

  `Yields a s o s'` says that the attempt `a` comes out as `o` where the scan `s` stands and
  leaves `s'` behind; what happened on the way plays no part.  There is one rule for each way in
  which a form of attempt can go, so that a run is put together from the runs of its parts and
  the forms themselves need not be opened again.

  A repetition is described by its matching rounds: `Rounds a s vs s'` is the chain of successes
  with the values `vs` that leads from `s` to `s'`.  They are successive attempts, each made where
  the one before it stopped, and all that they add to what comes after them is their values and
  their reports (`Rounds.gather_eq`).  So the first attempt after them decides how the repetition
  comes out (`Rounds.yields_repeated`), and every repetition that comes to an answer goes that way
  (`exists_rounds_of_gather`).
-/
import Forward.Matcher.Bound
import Forward.Proofs.Laws

namespace Forward.Attempt

variable {α σ τ : Type}

/-- The attempt comes out as `o` and leaves the scan `s'` behind. -/
structure Yields (a : Attempt α τ) (s : Scan α) (o : Outcome τ) (s' : Scan α) : Prop where
  outcome : (a s).outcome = o
  scan : (a s).scan = s'

/-! ## Single elements -/

/-- An element that is next and passes the test is taken. -/
theorem yields_satisfy {p : α → Bool} {s : Scan α} {x : α} {xs : List α}
    (next : s.cursor.remaining = x :: xs) (passes : p x = true) :
    Yields (satisfy p) s (.matched x) ⟨⟨s.position + 1, .after x xs⟩, s.captures⟩ := by
  rw [satisfy]
  constructor <;> simp only [take_of_remaining next, passes, if_true]

/-- An element on show that fails the test is left where it is. -/
theorem yields_satisfy_failed {p : α → Bool} {s : Scan α} {x : α} (shown : s.cursor.shown = some x)
    (fails : p x = false) : Yields (satisfy p) s .failed s := by
  rw [satisfy]
  constructor <;> simp only [take, Cursor.peek, shown, fails, Bool.false_eq_true, if_false]

/-- With nothing left, an element on show that passes the test is asked for once more, and the read
    is past the end.  So it is where no element is on show. -/
theorem yields_satisfy_ended {p : α → Bool} {s : Scan α} (exhausted : s.cursor.remaining = [])
    (passes : ∀ x, s.cursor.shown = some x → p x = true) :
    Yields (satisfy p) s (.ended ⟨s.position⟩) ⟨⟨s.position, .spent⟩, s.captures⟩ := by
  rcases s with ⟨⟨position, front⟩, captures⟩
  rw [satisfy]
  cases front with
  | ready current rest => cases exhausted
  | pending last =>
    have hlast : p last = true := passes last rfl
    constructor <;> simp only [take_of_exhausted exhausted, Cursor.shown, Front.shown, hlast, if_true]
  | spent => exact ⟨rfl, rfl⟩

/-- The element that was taken last passes the test again, and there is none behind it. -/
theorem yields_satisfy_again {p : α → Bool} {s : Scan α} {x : α}
    (exhausted : s.cursor.remaining = []) (shown : s.cursor.shown = some x) (passes : p x = true) :
    Yields (satisfy p) s (.ended ⟨s.position⟩) ⟨⟨s.position, .spent⟩, s.captures⟩ := by
  refine yields_satisfy_ended exhausted fun y hy => ?_
  obtain rfl : x = y := Option.some.inj (shown.symm.trans hy)
  exact passes

/-! ## One after the other -/

theorem Yields.map {a : Attempt α σ} {s s' : Scan α} {o : Outcome σ} (h : Yields a s o s')
    (f : σ → τ) : Yields (a.map f) s (o.map f) s' := by
  obtain ⟨rfl, rfl⟩ := h
  exact ⟨rfl, rfl⟩

theorem Yields.andThen {a : Attempt α σ} {next : σ → Attempt α τ} {s s₁ s₂ : Scan α} {x : σ}
    {o : Outcome τ} (h : Yields a s (.matched x) s₁) (k : Yields (next x) s₁ o s₂) :
    Yields (a.andThen next) s o s₂ := by
  obtain ⟨hx, rfl⟩ := h
  obtain ⟨rfl, rfl⟩ := k
  constructor <;> simp only [Attempt.andThen, hx, Run.after]

/-- After an attempt that does not match nothing more is made. -/
theorem Yields.andThen_unmatched {a : Attempt α σ} {s s' : Scan α} {o : Outcome σ}
    (h : Yields a s o s') (hnot : ∀ x, o ≠ .matched x) (next : σ → Attempt α τ) :
    Yields (a.andThen next) s (o.bind fun _ => .failed) s' := by
  obtain ⟨hx, rfl⟩ := h
  cases o with
  | matched x => exact absurd rfl (hnot x)
  | _ => constructor <;> simp only [Attempt.andThen, hx, Run.withOutcome, Outcome.bind]

theorem Yields.andThen_failed {a : Attempt α σ} {s s' : Scan α} (h : Yields a s .failed s')
    (next : σ → Attempt α τ) : Yields (a.andThen next) s .failed s' :=
  h.andThen_unmatched (by rintro x ⟨⟩) next

theorem Yields.andThen_ended {a : Attempt α σ} {s s' : Scan α} {stop : PastEnd}
    (h : Yields a s (.ended stop) s') (next : σ → Attempt α τ) :
    Yields (a.andThen next) s (.ended stop) s' :=
  h.andThen_unmatched (by rintro x ⟨⟩) next

/-- The second of two attempts decides how both come out. -/
theorem Yields.both {a : Attempt α σ} {b : Attempt α τ} {s s₁ s₂ : Scan α} {x : σ} {o : Outcome τ}
    (h : Yields a s (.matched x) s₁) (k : Yields b s₁ o s₂) :
    Yields (a.both b) s (o.map (x, ·)) s₂ :=
  h.andThen (k.map _)

theorem Yields.both_failed {a : Attempt α σ} {s s' : Scan α} (h : Yields a s .failed s')
    (b : Attempt α τ) : Yields (a.both b) s .failed s' :=
  h.andThen_failed _

theorem Yields.both_ended {a : Attempt α σ} {s s' : Scan α} {stop : PastEnd}
    (h : Yields a s (.ended stop) s') (b : Attempt α τ) : Yields (a.both b) s (.ended stop) s' :=
  h.andThen_ended _

/-! ## One or the other -/

theorem Yields.either {a b : Attempt α τ} {s s₁ s₂ : Scan α} {o : Outcome τ}
    (h : Yields a s .failed s₁) (k : Yields b s₁ o s₂) : Yields (a.either b) s o s₂ := by
  obtain ⟨hx, rfl⟩ := h
  obtain ⟨rfl, rfl⟩ := k
  constructor <;> simp only [Attempt.either, hx, Run.after]

/-- The second of two attempts is not made unless the first one fails. -/
theorem Yields.either_left {a : Attempt α τ} {s s' : Scan α} {o : Outcome τ} (h : Yields a s o s')
    (hnot : o ≠ .failed) (b : Attempt α τ) : Yields (a.either b) s o s' := by
  obtain ⟨hx, rfl⟩ := h
  cases o with
  | failed => exact absurd rfl hnot
  | _ => constructor <;> simp only [Attempt.either, hx]

/-- An optional attempt comes out with or without a value, and stops where the attempt does. -/
theorem Yields.optional {a : Attempt α τ} {s s' : Scan α} {value : Option τ}
    (h : Yields a s (.ofOption value) s') :
    Yields a.optional s (.matched (.ofOption value)) s' := by
  obtain ⟨hx, rfl⟩ := h
  cases value <;> constructor <;>
    simp only [Attempt.optional, hx, Outcome.ofOption, Run.withOutcome, Occurrence.ofOption]

/-- A stretch reaches from where the attempt begins to where it stops. -/
theorem Yields.spanned {a : Attempt α τ} {s s' : Scan α} {o : Outcome τ} (h : Yields a s o s') :
    Yields a.spanned s (o.map (·, ⟨s.position, s'.position⟩)) s' := by
  obtain ⟨hx, rfl⟩ := h
  cases o <;> constructor <;> simp only [Attempt.spanned, hx] <;> rfl

theorem ne_matched_spanned {a : Attempt α τ} {s : Scan α}
    (h : ∀ value, (a s).outcome ≠ .matched value) (value : τ × Span) :
    (a.spanned s).outcome ≠ .matched value := by
  intro hvalue
  rw [(Yields.spanned ⟨rfl, rfl⟩).outcome] at hvalue
  cases hout : (a s).outcome with
  | matched x => exact h x hout
  | _ => rw [hout] at hvalue; cases hvalue

/-! ## Again and again -/

/-- Matching attempts one after the other, and the scan that the last one leaves. -/
inductive Rounds (a : Attempt α τ) : Scan α → List τ → Scan α → Prop where
  | done (s : Scan α) : Rounds a s [] s
  | round {s s₁ s₂ : Scan α} {x : τ} {xs : List τ} (first : Yields a s (.matched x) s₁)
      (later : Rounds a s₁ xs s₂) : Rounds a s (x :: xs) s₂

/-- The scan behind the first `n` of successive attempts, the first of them made at `s`. -/
def successive (a : Attempt α τ) (s : Scan α) : Nat → Scan α
  | 0 => s
  | n + 1 => (a (successive a s n)).scan

/-- What the first `n` of successive attempts report. -/
def reported (a : Attempt α τ) (s : Scan α) (n : Nat) : Trace α :=
  (List.range n).flatMap fun i => (a (a.successive s i)).trace

/-- The attempts behind the first one are successive attempts from where it stopped. -/
theorem successive_succ (a : Attempt α τ) (s : Scan α) (n : Nat) :
    a.successive s (n + 1) = a.successive (a s).scan n := by
  induction n with
  | zero => rfl
  | succ n ih =>
    show (a (a.successive s (n + 1))).scan = (a (a.successive (a s).scan n)).scan
    rw [ih]

theorem reported_succ (a : Attempt α τ) (s : Scan α) (n : Nat) :
    a.reported s (n + 1) = (a s).trace ++ a.reported (a s).scan n := by
  unfold reported
  rw [List.range_succ_eq_map, List.flatMap_cons, List.flatMap_map]
  simp only [Nat.succ_eq_add_one, successive_succ]
  rfl

theorem reported_add_one (a : Attempt α τ) (s : Scan α) (n : Nat) :
    a.reported s (n + 1) = a.reported s n ++ (a (a.successive s n)).trace := by
  unfold reported
  rw [List.range_succ, List.flatMap_append, List.flatMap_singleton]

/-- Rounds are successive attempts that match. -/
theorem Rounds.eq_successive {a : Attempt α τ} {s t : Scan α} {values : List τ}
    (h : Rounds a s values t) : t = a.successive s values.length := by
  induction h with
  | done s => rfl
  | @round s s₁ s₂ x values first later ih =>
    rw [List.length_cons, successive_succ, first.scan]
    exact ih

/-- Rounds in front of some more room: their values and reports come first. -/
theorem Rounds.gather_eq {a : Attempt α τ} {s t : Scan α} {values : List τ}
    (h : Rounds a s values t) (full : Outcome (List τ)) (room : Nat) :
    Attempt.gather full a (values.length + room) s =
      ⟨((Attempt.gather full a room t).run.map (values ++ ·)).after (a.reported s values.length),
        (Attempt.gather full a room t).attempts + values.length⟩ := by
  induction h with
  | done s =>
    rw [List.length_nil, Nat.zero_add]
    obtain ⟨⟨outcome, scan, trace⟩, attempts⟩ := Attempt.gather full a room s
    cases outcome <;> rfl
  | @round s s₁ s₂ x values first later ih =>
    obtain ⟨hx, rfl⟩ := first
    rw [List.length_cons, Nat.add_right_comm, Attempt.gather, reported_succ]
    simp only [hx, ih]
    obtain ⟨⟨outcome, scan, trace⟩, attempts⟩ := Attempt.gather full a room s₂
    cases outcome <;> simp [Run.map, Run.after, Run.withOutcome, Outcome.map, Outcome.bind,
      Nat.add_assoc]

/-- How a repetition comes out with an attempt that does not match: a failure leaves the values of
    the rounds before it, and everything else leaves nothing. -/
def closing (values : List τ) : Outcome τ → Outcome (List τ)
  | .matched _ => .matched values
  | .failed => .matched values
  | .ended stop => .ended stop
  | .unfinished => .unfinished

theorem ne_matched_of_last {o : Outcome τ} (h : o = .failed ∨ ∃ stop, o = .ended stop) (x : τ) :
    o ≠ .matched x := by
  rcases h with rfl | ⟨stop, rfl⟩ <;> rintro ⟨⟩

/-- Rounds in front of an attempt that does not match. -/
theorem Rounds.gather_last {a : Attempt α τ} {s t : Scan α} {values : List τ}
    (h : Rounds a s values t) (last : ∀ x, (a t).outcome ≠ .matched x) (full : Outcome (List τ))
    (room : Nat) :
    Attempt.gather full a (values.length + (room + 1)) s =
      ⟨⟨closing values (a t).outcome, (a t).scan, a.reported s (values.length + 1)⟩,
        values.length + 1⟩ := by
  rw [h.gather_eq, reported_add_one, ← h.eq_successive, Attempt.gather]
  cases ho : (a t).outcome with
  | matched x => exact absurd ho (last x)
  | _ => simp [closing, Run.map, Run.after, Run.withOutcome, Outcome.map, Outcome.bind, Nat.add_comm]

/-- The other way round: attempts that come to an answer are rounds that use up the room, or rounds
    in front of an attempt that fails or reads past the end. -/
theorem exists_rounds_of_gather {full : Outcome (List τ)} {a : Attempt α τ} {room : Nat}
    {s : Scan α} (h : (gather full a room s).run.Finished) :
    ∃ values t, Rounds a s values t ∧
      ((values.length = room ∧ full ≠ .unfinished) ∨
        (values.length < room ∧
          ((a t).outcome = .failed ∨ ∃ stop, (a t).outcome = .ended stop))) := by
  induction room generalizing s with
  | zero => exact ⟨[], s, .done s, Or.inl ⟨rfl, h⟩⟩
  | succ room ih =>
    unfold Run.Finished gather at h
    cases hx : (a s).outcome with
    | matched x =>
      simp only [hx] at h
      have hlater : (gather full a room (a s).scan).run.Finished := by
        intro hnot
        exact h (by simp [Run.after, Run.map, Run.withOutcome, Outcome.map, Outcome.bind, hnot])
      obtain ⟨values, t, hrounds, hstops⟩ := ih hlater
      refine ⟨x :: values, t, .round ⟨hx, rfl⟩ hrounds, ?_⟩
      rw [List.length_cons, Nat.add_right_cancel_iff, Nat.add_lt_add_iff_right]
      exact hstops
    | failed => exact ⟨[], s, .done s, Or.inr ⟨Nat.succ_pos room, Or.inl hx⟩⟩
    | ended stop => exact ⟨[], s, .done s, Or.inr ⟨Nat.succ_pos room, Or.inr ⟨stop, hx⟩⟩⟩
    | unfinished =>
      simp only [hx] at h
      exact absurd rfl h

/-! ## Repetitions without an upper bound -/

theorem gathered_of_unbounded {times : Repetition} (unbounded : times.most = none) (limit : Nat)
    (a : Attempt α τ) (s : Scan α) :
    a.gathered times limit s = (gather .unfinished a limit s).run := by
  simp only [gathered, full, room, unbounded]

/-- An attempt that does not match ends a repetition without an upper bound, however many rounds
    there were before it. -/
theorem Rounds.yields_last {a : Attempt α τ} {s s₁ s₂ : Scan α} {xs : List τ} {o : Outcome τ}
    (h : Rounds a s xs s₁) (last : Yields a s₁ o s₂) (hnot : ∀ x, o ≠ .matched x)
    {times : Repetition} (unbounded : times.most = none) {limit : Nat}
    (hlimit : xs.length < limit) :
    Yields (a.repeated times limit) s ((closing xs o).bind (counted times)) s₂ := by
  obtain ⟨rfl, rfl⟩ := last
  obtain ⟨more, rfl⟩ : ∃ n, limit = xs.length + (n + 1) := ⟨limit - xs.length - 1, by omega⟩
  have hgathered := gathered_of_unbounded unbounded (xs.length + (more + 1)) a s
  rw [h.gather_last hnot] at hgathered
  constructor
  · rw [outcome_repeated, hgathered]
  · rw [scan_repeated, hgathered]

/-- After a failure the number of rounds before it decides how the repetition comes out. -/
theorem Rounds.yields_repeated {a : Attempt α τ} {s s₁ s₂ : Scan α} {xs : List τ}
    (h : Rounds a s xs s₁) (stop : Yields a s₁ .failed s₂) {times : Repetition}
    (unbounded : times.most = none) {limit : Nat} (hlimit : xs.length < limit) :
    Yields (a.repeated times limit) s (counted times xs) s₂ :=
  h.yields_last stop (by rintro x ⟨⟩) unbounded hlimit

/-- After a read past the end it does not matter. -/
theorem Rounds.yields_repeated_ended {a : Attempt α τ} {s s₁ s₂ : Scan α} {xs : List τ}
    {stop : PastEnd} (h : Rounds a s xs s₁) (ended : Yields a s₁ (.ended stop) s₂)
    {times : Repetition} (unbounded : times.most = none) {limit : Nat}
    (hlimit : xs.length < limit) : Yields (a.repeated times limit) s (.ended stop) s₂ :=
  h.yields_last ended (by rintro x ⟨⟩) unbounded hlimit

/-- A repetition without an upper bound that succeeds is a chain of successes, as many as it
    admits, up to an attempt that fails. -/
theorem rounds_of_repeated {a : Attempt α τ} {times : Repetition} (unbounded : times.most = none)
    {limit : Nat} {s : Scan α} {xs : List τ}
    (h : (a.repeated times limit s).outcome = .matched xs) :
    times.admits xs.length = true ∧
      ∃ t, Rounds a s xs t ∧ Yields a t .failed (a.repeated times limit s).scan := by
  obtain ⟨hgathered, hadmits⟩ := matched_of_repeated h
  rw [scan_repeated]
  rw [gathered_of_unbounded unbounded] at hgathered ⊢
  refine ⟨hadmits, ?_⟩
  have hfinished : (gather .unfinished a limit s).run.Finished := by
    rw [Run.Finished, hgathered]
    rintro ⟨⟩
  obtain ⟨values, t, hrounds, ⟨-, hfull⟩ | ⟨hlt, hlast⟩⟩ := exists_rounds_of_gather hfinished
  · exact absurd rfl hfull
  · obtain ⟨more, rfl⟩ : ∃ n, limit = values.length + (n + 1) :=
      ⟨limit - values.length - 1, by omega⟩
    rw [hrounds.gather_last (ne_matched_of_last hlast)] at hgathered ⊢
    rcases hlast with hfailed | ⟨stop, hended⟩
    · rw [hfailed] at hgathered
      obtain rfl : values = xs := Outcome.matched.inj hgathered
      exact ⟨t, hrounds, hfailed, rfl⟩
    · rw [hended] at hgathered
      cases hgathered

end Forward.Attempt
