/-
  The bound on a run: a run that is finished does not depend on it.

  An attempt lies `below` another one if the other gives the same run wherever the first one
  finishes.  Every way to build attempts preserves this in each of its parts, so it passes from
  the rules of a grammar to every matcher, and a larger bound only adds answers
  (`Matcher.run_of_le`).  Two finished runs with different bounds are therefore the same run
  (`Matcher.run_unique`).
-/
import Forward.Matcher

namespace Forward

variable {α σ τ : Type}

/-- Did the run come to an answer? -/
def Run.Finished (r : Run α τ) : Prop := r.outcome ≠ .unfinished

namespace Attempt

/-- Wherever `a` finishes, `b` gives the same run. -/
def Below (a b : Attempt α τ) : Prop := ∀ s, (a s).Finished → b s = a s

theorem Below.refl (a : Attempt α τ) : Below a a := fun _ _ => rfl

theorem giveUp_below (a : Attempt α τ) : Below giveUp a := fun _ finished => absurd rfl finished

/-! ## Each way to build attempts -/

/-- What only changes the outcome of a success keeps the order. -/
theorem Below.bindOutcome {a b : Attempt α σ} (h : Below a b)
    (next : Scan α → Run α σ → σ → Outcome τ) :
    Below (fun s => (a s).withOutcome ((a s).outcome.bind (next s (a s))))
      (fun s => (b s).withOutcome ((b s).outcome.bind (next s (b s)))) := by
  intro s finished
  have inner : (a s).Finished := by
    intro unfinished
    exact finished (by simp [Run.withOutcome, unfinished, Outcome.bind])
  simp only [h s inner]

theorem Below.map {a b : Attempt α σ} (h : Below a b) (f : σ → τ) : Below (a.map f) (b.map f) :=
  h.bindOutcome fun _ _ value => .matched (f value)

theorem Below.filterMap {a b : Attempt α σ} (h : Below a b) (f : σ → Option τ) :
    Below (a.filterMap f) (b.filterMap f) :=
  h.bindOutcome fun _ _ value => .ofOption (f value)

theorem Below.consuming {a b : Attempt α τ} (h : Below a b) : Below a.consuming b.consuming :=
  h.bindOutcome fun s r value => if s.position < r.scan.position then .matched value else .failed

theorem Below.andThen {a b : Attempt α σ} {next after : σ → Attempt α τ} (h : Below a b)
    (later : ∀ value, Below (next value) (after value)) :
    Below (a.andThen next) (b.andThen after) := by
  intro s finished
  have inner : (a s).Finished := by
    intro unfinished
    exact finished (by simp [Attempt.andThen, unfinished, Run.withOutcome])
  unfold Attempt.andThen at finished ⊢
  simp only [h s inner]
  cases outcome : (a s).outcome with
  | matched value =>
    simp only [outcome] at finished
    simp only
    rw [later value _ finished]
  | failed => rfl
  | ended stop => rfl
  | unfinished => exact absurd outcome inner

theorem Below.both {a b : Attempt α σ} {c d : Attempt α τ} (h : Below a b) (k : Below c d) :
    Below (a.both c) (b.both d) :=
  h.andThen fun _ => k.map _

theorem Below.either {a b c d : Attempt α τ} (h : Below a b) (k : Below c d) :
    Below (a.either c) (b.either d) := by
  intro s finished
  have inner : (a s).Finished := by
    intro unfinished
    exact finished (by simp [Attempt.either, unfinished])
  unfold Attempt.either at finished ⊢
  simp only [h s inner]
  cases outcome : (a s).outcome with
  | failed =>
    simp only [outcome] at finished
    simp only
    rw [k _ finished]
  | matched value => rfl
  | ended stop => rfl
  | unfinished => exact absurd outcome inner

/-- Two lists of attempts, each below its partner. -/
inductive AllBelow : List (Attempt α τ) → List (Attempt α τ) → Prop where
  | nil : AllBelow [] []
  | cons {a b : Attempt α τ} {as bs : List (Attempt α τ)} (first : Below a b)
      (later : AllBelow as bs) : AllBelow (a :: as) (b :: bs)

theorem AllBelow.inOrder {as bs : List (Attempt α τ)} (h : AllBelow as bs) :
    Below (inOrder as) (inOrder bs) := by
  induction h with
  | nil => exact Below.refl _
  | cons first _ ih => exact first.andThen fun value => ih.map _

theorem AllBelow.firstOf {as bs : List (Attempt α τ)} (h : AllBelow as bs) :
    Below (firstOf as) (firstOf bs) := by
  induction h with
  | nil => exact Below.refl _
  | cons first _ ih => exact first.either ih

theorem AllBelow.ofFn {n : Nat} {f g : Fin n → Attempt α τ} (h : ∀ i, Below (f i) (g i)) :
    AllBelow (List.ofFn f) (List.ofFn g) := by
  induction n with
  | zero => simpa using AllBelow.nil
  | succ n ih =>
    rw [List.ofFn_succ, List.ofFn_succ]
    exact .cons (h 0) (ih fun i => h i.succ)

/-- More room changes nothing where the repetition already came to an end. -/
theorem gather_of_le {full : Outcome (List τ)} {a b : Attempt α τ} (h : Below a b) {m n : Nat}
    (room : m = n ∨ (full = .unfinished ∧ m ≤ n)) (s : Scan α)
    (finished : (gather full a m s).run.Finished) : gather full b n s = gather full a m s := by
  induction m generalizing n s with
  | zero =>
    -- without room an unbounded repetition is unfinished, so only equal room is left
    rcases room with rfl | ⟨rfl, -⟩
    · rfl
    · exact absurd rfl finished
  | succ m ih =>
    obtain ⟨n, rfl⟩ : ∃ k, n = k + 1 := by
      rcases room with rfl | ⟨-, le⟩
      · exact ⟨m, rfl⟩
      · exact ⟨n - 1, by omega⟩
    have inner : (a s).Finished := by
      intro unfinished
      exact finished (by simp [gather, unfinished, Run.withOutcome])
    unfold gather at finished ⊢
    simp only [h s inner]
    cases outcome : (a s).outcome with
    | matched value =>
      -- the rounds after the first one are finished too, with one less room on both sides
      simp only [outcome] at finished
      have rest : (gather full a m (a s).scan).run.Finished := by
        intro unfinished
        exact finished (by simp [Run.after, Run.map, Run.withOutcome, Outcome.map, Outcome.bind,
          unfinished])
      have room' : m = n ∨ (full = .unfinished ∧ m ≤ n) := by
        rcases room with eq | ⟨eq, le⟩
        · exact Or.inl (by omega)
        · exact Or.inr ⟨eq, by omega⟩
      simp only [ih room' _ rest]
    | failed => rfl
    | ended stop => rfl
    | unfinished => exact absurd outcome inner

theorem Below.repeated {a b : Attempt α τ} (h : Below a b) (times : Repetition) {limit more : Nat}
    (le : limit ≤ more) : Below (a.repeated times limit) (b.repeated times more) := by
  intro s finished
  unfold Attempt.repeated at finished ⊢
  cases most : times.most with
  | none =>
    have inner : (gather .unfinished a limit s).run.Finished := by
      intro unfinished
      exact finished (by simp [most, Run.wrap, Run.withOutcome, unfinished, Outcome.bind])
    simp only [gather_of_le h (Or.inr ⟨rfl, le⟩) s inner]
  | some n =>
    have inner : (gather (.matched []) a n.toNat s).run.Finished := by
      intro unfinished
      exact finished (by simp [most, Run.withOutcome, unfinished, Outcome.bind])
    simp only [gather_of_le h (Or.inl rfl) s inner]

theorem Below.optional {a b : Attempt α τ} (h : Below a b) : Below a.optional b.optional := by
  intro s finished
  have inner : (a s).Finished := by
    intro unfinished
    exact finished (by simp [Attempt.optional, unfinished, Run.withOutcome])
  simp only [Attempt.optional, h s inner]

theorem Below.capture {a b : Attempt α α} (h : Below a b) (name : String) :
    Below (a.capture name) (b.capture name) := by
  intro s finished
  have inner : (a s).Finished := by
    intro unfinished
    exact finished (by simp [Attempt.capture, unfinished])
  simp only [Attempt.capture, h s inner]

theorem Below.spanned {a b : Attempt α τ} (h : Below a b) : Below a.spanned b.spanned := by
  intro s finished
  have inner : (a s).Finished := by
    intro unfinished
    exact finished (by simp [Attempt.spanned, unfinished, Run.withOutcome])
  simp only [Attempt.spanned, h s inner]

theorem Below.expansion {a b : Attempt α τ} (h : Below a b) : Below a.expansion b.expansion := by
  intro s finished
  simp only [Attempt.expansion, h s finished]

end Attempt

/-! ## Matchers and grammars -/

namespace Matcher

open Attempt

variable {ρ : Type → Type} [BEq α]

/-- The meaning of a matcher grows with the meaning of the rules and with the limit. -/
theorem attempt_below {expand more : (τ : Type) → ρ τ → Attempt α τ} {limit farther : Nat}
    (rules : ∀ τ name, Below (expand τ name) (more τ name)) (le : limit ≤ farther)
    (m : Matcher α ρ τ) : Below (m.attempt expand limit) (m.attempt more farther) := by
  induction m with
  | satisfy p => exact Below.refl _
  | symbol table => exact Below.refl _
  | peek => exact Below.refl _
  | pure value => exact Below.refl _
  | inOrder parts ih => exact (AllBelow.ofFn ih).inOrder
  | firstOf choices ih => exact (AllBelow.ofFn ih).firstOf
  | both first second ihFirst ihSecond => exact ihFirst.both ihSecond
  | either first second ihFirst ihSecond => exact ihFirst.either ihSecond
  | repeated times body ih => exact ih.repeated times le
  | optional body ih => exact ih.optional
  | map f body ih => exact ih.map f
  | filterMap f body ih => exact ih.filterMap f
  | andThen first next ihFirst ihNext => exact ihFirst.andThen ihNext
  | rule name => exact (rules _ name).expansion
  | capture name body ih => exact ih.capture name
  | backreference name => exact Below.refl _
  | spanned body ih => exact ih.spanned
  | consuming body ih => exact ih.consuming

end Matcher

theorem Grammar.expand_below {ρ : Type → Type} [BEq α] (g : Grammar α ρ) {m n : Nat}
    (le : m ≤ n) (τ : Type) (name : ρ τ) : Attempt.Below (g.expand m τ name) (g.expand n τ name) := by
  induction m generalizing n τ with
  | zero => exact Attempt.giveUp_below _
  | succ m ih =>
    obtain ⟨n, rfl⟩ : ∃ k, n = k + 1 := ⟨n - 1, by omega⟩
    exact Matcher.attempt_below (fun τ name => ih (by omega) τ name) (by omega) (g τ name)

namespace Matcher

variable {ρ : Type → Type} [BEq α] (g : Grammar α ρ) (p : Matcher α ρ τ)

/-- A larger bound gives the same run wherever the smaller one finishes. -/
theorem run_of_le {m n : Nat} (le : m ≤ n) (s : Scan α) (finished : (p.run g m s).Finished) :
    p.run g n s = p.run g m s :=
  attempt_below (fun τ name => g.expand_below le τ name) le p s finished

/-- A finished run is the same with every bound with which it finishes. -/
theorem run_unique {m n : Nat} {s : Scan α} (first : (p.run g m s).Finished)
    (second : (p.run g n s).Finished) : p.run g m s = p.run g n s := by
  rcases Nat.le_total m n with le | le
  · exact (run_of_le g p le s first).symm
  · exact run_of_le g p le s second

end Matcher
end Forward
