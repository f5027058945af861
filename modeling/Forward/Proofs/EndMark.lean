/-
  End marks: an element behind all others that nothing takes.

  Behind the last element of a stream an attempt may read past the end.  If that element is a mark
  which the attempt does not take, there is always one more element to look at, and the read past
  the end does not come about.  `Stays t a` says that the attempt `a` leaves a mark `t` where it is,
  and that it does not read past the end as long as the mark is in front of it.

  Every way to build attempts keeps this, also the greedy ones: a repetition stops at the mark at
  the latest, because its body fails there.  So it holds of every run of a matcher if the single
  elements that are matched in it, and in the rules, do not fit the mark (`Matcher.run_stays`).  A
  backreference takes whatever was captured, which may be the mark itself if it was only looked at;
  so there may be no backreference.
-/
import Forward.Proofs.Reach
import Forward.Proofs.Moves

namespace Forward

variable {α σ τ : Type} {t : α}

namespace Attempt

/-- The mark `t` is the last of the elements that remain. -/
def Before (t : α) (s : Scan α) : Prop := ∃ xs, s.cursor.remaining = xs ++ [t]

/-- In front of a mark something is on show. -/
theorem Before.shown {s : Scan α} (h : Before t s) : ∃ x, s.cursor.shown = some x := by
  obtain ⟨xs, hxs⟩ := h
  cases xs with
  | nil => exact ⟨t, Cursor.shown_of_remaining hxs⟩
  | cons x xs => exact ⟨x, Cursor.shown_of_remaining hxs⟩

/-- In front of the mark `t` the attempt neither reads past the end nor takes the mark. -/
def Stays (t : α) (a : Attempt α τ) : Prop :=
  ∀ s, Before t s → (∀ stop, (a s).outcome ≠ .ended stop) ∧ Before t (a s).scan

/-! ## Single elements -/

theorem stays_succeed (value : τ) : Stays t (succeed value : Attempt α τ) :=
  fun _ hs => ⟨by rintro _ ⟨⟩, hs⟩

theorem stays_fail : Stays t (fail : Attempt α τ) := fun _ hs => ⟨by rintro _ ⟨⟩, hs⟩

theorem stays_giveUp : Stays t (giveUp : Attempt α τ) := fun _ hs => ⟨by rintro _ ⟨⟩, hs⟩

theorem stays_look : Stays t (look : Attempt α α) := by
  intro s hs
  obtain ⟨x, hx⟩ := hs.shown
  rw [look_of_shown hx]
  exact ⟨by rintro _ ⟨⟩, hs⟩

/-- An attempt that takes an element stays in front of a mark that does not fit. -/
theorem stays_take {choose : α → Option τ} (h : choose t = none) : Stays t (take choose) := by
  rintro s ⟨xs, hxs⟩
  cases xs with
  | nil =>
    rw [take_of_remaining hxs, h]
    exact ⟨by rintro _ ⟨⟩, [], hxs⟩
  | cons x xs =>
    rw [take_of_remaining hxs]
    cases choose x with
    | none => exact ⟨by rintro _ ⟨⟩, x :: xs, hxs⟩
    | some v => exact ⟨by rintro _ ⟨⟩, xs, Front.remaining_after x (xs ++ [t])⟩

/-! ## Each way to build attempts -/

/-- What becomes of a value may depend on the positions before and after. -/
theorem Stays.bindOutcome {a : Attempt α σ} (h : Stays t a) (next : Nat → Nat → σ → Outcome τ)
    (hnext : ∀ i j x stop, next i j x ≠ .ended stop) :
    Stays t fun s =>
      (a s).withOutcome ((a s).outcome.bind (next s.position (a s).scan.position)) := by
  intro s hs
  obtain ⟨hne, hbefore⟩ := h s hs
  refine ⟨fun stop => ?_, hbefore⟩
  show Outcome.bind _ _ ≠ _
  cases ho : (a s).outcome with
  | matched x => exact hnext _ _ x stop
  | ended past => exact absurd ho (hne past)
  | _ => rintro ⟨⟩

theorem Stays.select {a : Attempt α σ} (h : Stays t a) (f : Nat → Nat → σ → Option τ) :
    Stays t (a.select f) := by
  refine h.bindOutcome (fun i j x => .ofOption (f i j x)) fun i j x stop => ?_
  cases f i j x <;> rintro ⟨⟩

theorem Stays.map {a : Attempt α σ} (h : Stays t a) (f : σ → τ) : Stays t (a.map f) :=
  h.select fun _ _ x => some (f x)

theorem Stays.filterMap {a : Attempt α σ} (h : Stays t a) (f : σ → Option τ) :
    Stays t (a.filterMap f) :=
  h.select fun _ _ x => f x

theorem Stays.consuming {a : Attempt α τ} (h : Stays t a) : Stays t a.consuming := by
  rw [consuming_eq_select]
  exact h.select _

theorem Stays.andThen {a : Attempt α σ} {next : σ → Attempt α τ} (h : Stays t a)
    (k : ∀ x, Stays t (next x)) : Stays t (a.andThen next) := by
  intro s hs
  obtain ⟨hne, hbefore⟩ := h s hs
  simp only [Attempt.andThen]
  cases ho : (a s).outcome with
  | matched x => exact k x _ hbefore
  | ended past => exact absurd ho (hne past)
  | _ => exact ⟨by rintro _ ⟨⟩, hbefore⟩

theorem Stays.either {a b : Attempt α τ} (h : Stays t a) (k : Stays t b) :
    Stays t (a.either b) := by
  intro s hs
  obtain ⟨hne, hbefore⟩ := h s hs
  simp only [Attempt.either]
  cases ho : (a s).outcome with
  | failed => exact k _ hbefore
  | ended past => exact absurd ho (hne past)
  | _ => exact ⟨by rw [ho]; rintro _ ⟨⟩, hbefore⟩

theorem composes_stays (t : α) : Composes (Stays t) where
  succeed := stays_succeed
  fail := stays_fail
  map h f := h.map f
  andThen _ _ h k := h.andThen k
  either _ _ h k := h.either k

/-- Behind an attempt that stays in front of the mark there is something to read, be it the mark
    itself. -/
theorem Stays.both_ne_ended {a : Attempt α σ} {b : Attempt α τ} (h : Stays t a)
    (k : ∀ s, Before t s → ∀ stop, (b s).outcome ≠ .ended stop) {s : Scan α} (hs : Before t s)
    (stop : PastEnd) : (a.both b s).outcome ≠ .ended stop := by
  obtain ⟨hne, hbefore⟩ := h s hs
  simp only [Attempt.both, Attempt.andThen]
  cases ho : (a s).outcome with
  | matched x =>
    show Outcome.map _ (b (a s).scan).outcome ≠ _
    cases hout : (b (a s).scan).outcome with
    | ended past => exact absurd hout (k _ hbefore past)
    | _ => rintro ⟨⟩
  | ended past => exact absurd ho (hne past)
  | _ => rintro ⟨⟩

/-- Taking an element in front of a mark, or the mark itself, is no read past the end. -/
theorem take_ne_ended (choose : α → Option τ) {s : Scan α} (hs : Before t s) (stop : PastEnd) :
    (take choose s).outcome ≠ .ended stop := by
  obtain ⟨xs, hxs⟩ := hs
  obtain ⟨x, rest, hrem⟩ : ∃ x rest, s.cursor.remaining = x :: rest := by
    rw [hxs]
    cases xs <;> exact ⟨_, _, rfl⟩
  rw [take_of_remaining hrem]
  split <;> rintro ⟨⟩

/-- The rounds of a repetition, as an attempt of their own. -/
theorem Stays.gather {a : Attempt α τ} (h : Stays t a) {full : Outcome (List τ)}
    (hfull : ∀ stop, full ≠ .ended stop) (room : Nat) :
    Stays t fun s => (gather full a room s).run := by
  induction room with
  | zero => exact fun s hs => ⟨hfull, hs⟩
  | succ room ih =>
    -- one more round is the body and then the rounds after it
    intro s hs
    obtain ⟨hne, hbefore⟩ := h s hs
    simp only [Attempt.gather]
    cases ho : (a s).outcome with
    | matched x => exact ih.map (x :: ·) _ hbefore
    | ended past => exact absurd ho (hne past)
    | _ => exact ⟨by rintro _ ⟨⟩, hbefore⟩

theorem Stays.repeated {a : Attempt α τ} (h : Stays t a) (times : Repetition) (limit : Nat) :
    Stays t (a.repeated times limit) := by
  have hrounds : Stays t (a.gathered times limit) :=
    h.gather (full_ne_ended times) (room times limit)
  have hcounted := hrounds.bindOutcome (fun _ _ => counted times) fun i j values stop => by
    unfold counted
    split <;> rintro ⟨⟩
  intro s hs
  rw [outcome_repeated, scan_repeated]
  exact hcounted s hs

theorem Stays.optional {a : Attempt α τ} (h : Stays t a) : Stays t a.optional := by
  intro s hs
  obtain ⟨hne, hbefore⟩ := h s hs
  simp only [Attempt.optional]
  cases ho : (a s).outcome with
  | ended past => exact absurd ho (hne past)
  | _ => exact ⟨by rintro _ ⟨⟩, hbefore⟩

/-- A capture is written to the table of captures, and not to the stream. -/
theorem Stays.capture {a : Attempt α α} (h : Stays t a) (name : String) :
    Stays t (a.capture name) := by
  intro s hs
  obtain ⟨hne, hbefore⟩ := h s hs
  simp only [Attempt.capture]
  cases ho : (a s).outcome with
  | matched x => exact ⟨by rintro _ ⟨⟩, hbefore⟩
  | _ => exact ⟨hne, hbefore⟩

theorem Stays.spanned {a : Attempt α τ} (h : Stays t a) : Stays t a.spanned := by
  intro s hs
  obtain ⟨hne, hbefore⟩ := h s hs
  simp only [Attempt.spanned]
  cases ho : (a s).outcome with
  | ended past => exact absurd ho (hne past)
  | _ => exact ⟨by rintro _ ⟨⟩, hbefore⟩

theorem Stays.expansion {a : Attempt α τ} (h : Stays t a) : Stays t a.expansion := h

end Attempt

/-! ## Matchers that do not fit the mark -/

open Attempt

namespace Matcher

variable {ρ : Type → Type}

/-- If the matcher is for a single element, this is not `t`. -/
def Refuses (t : α) : {τ : Type} → Matcher α ρ τ → Prop
  | _, .satisfy p => p t = false
  | _, .symbol table => table t = none
  | _, .backreference _ => False
  | _, _ => True

variable [BEq α] {g : Grammar α ρ}

/-- Where the expansions of rules stay in front of the mark, every matcher does that does not fit
    it. -/
theorem run_stays_of_rules (bound : Nat)
    (rules : ∀ {σ : Type} (name : ρ σ), Stays t (g.expand bound σ name)) {m : Matcher α ρ τ}
    (h : m.Each (Refuses t)) : Stays t (m.run g bound) := by
  induction m with
  | satisfy p =>
    have hrefuses : p t = false := h
    exact stays_take (if_neg (by rw [hrefuses]; exact Bool.false_ne_true))
  | symbol table => exact stays_take h
  | peek => exact stays_look
  | pure value => exact stays_succeed value
  | inOrder parts ih =>
    apply (composes_stays t).inOrder
    · intro a ha
      obtain ⟨i, rfl⟩ := List.mem_ofFn.mp ha
      exact (parts i).run_onward g bound
    · intro a ha
      obtain ⟨i, rfl⟩ := List.mem_ofFn.mp ha
      exact ih i (h.2 i)
  | firstOf choices ih =>
    apply (composes_stays t).firstOf
    · intro a ha
      obtain ⟨i, rfl⟩ := List.mem_ofFn.mp ha
      exact (choices i).run_onward g bound
    · intro a ha
      obtain ⟨i, rfl⟩ := List.mem_ofFn.mp ha
      exact ih i (h.2 i)
  | both first second ihFirst ihSecond =>
    exact (composes_stays t).both (first.run_onward g bound) (second.run_onward g bound)
      (ihFirst h.2.1) (ihSecond h.2.2)
  | either first second ihFirst ihSecond => exact (ihFirst h.2.1).either (ihSecond h.2.2)
  | repeated times body ih => exact (ih h.2).repeated times bound
  | optional body ih => exact (ih h.2).optional
  | map f body ih => exact (ih h.2).map f
  | filterMap f body ih => exact (ih h.2).filterMap f
  | andThen first next ihFirst ihNext =>
    exact (ihFirst h.2.1).andThen fun x => ihNext x (h.2.2 x)
  | rule name => exact (rules name).expansion
  | capture name body ih => exact (ih h.2).capture name
  | backreference name => exact h.elim
  | spanned body ih => exact (ih h.2).spanned
  | consuming body ih => exact (ih h.2).consuming

/-- With any bound, a run leaves a mark where it is that neither the matcher nor the rules fit, and
    does not read past the end. -/
theorem run_stays (rules : ∀ {σ : Type} (name : ρ σ), (g σ name).Each (Refuses t))
    {m : Matcher α ρ τ} (h : m.Each (Refuses t)) (bound : Nat) : Stays t (m.run g bound) := by
  have hexpand : ∀ {σ : Type} (name : ρ σ), Stays t (g.expand bound σ name) := by
    induction bound with
    | zero => exact fun _ => stays_giveUp
    | succ bound ih =>
      -- a rule with one more bound is what it stands for, with the bound before
      exact fun name => run_stays_of_rules bound ih (rules name)
  exact run_stays_of_rules bound hexpand h

end Matcher

/-- So does everything that a match can come to. -/
theorem Reaches.stays [BEq α] {ρ : Type → Type} {g : Grammar α ρ}
    (rules : ∀ {σ : Type} (name : ρ σ), (g σ name).Each (Matcher.Refuses t)) {m : Matcher α ρ τ}
    (hm : m.Each (Matcher.Refuses t)) {k : Matcher α ρ σ} (h : Reaches g m k) (bound : Nat) :
    Stays t (k.run g bound) :=
  Matcher.run_stays rules (h.each rules hm) bound

end Forward
