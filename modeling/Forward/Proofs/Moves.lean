/-
  What a whole run does to a scan, from what single steps do to it.

  A run touches its scan in two ways only: it consumes an element, or it captures a value.  A
  relation between scans that holds of these steps, of no step, and of two runs one after the
  other (`Kept`) therefore holds between the scan in front of any run and the scan behind it,
  whatever the matcher, the grammar and the outcome (`Matcher.run_moves`).

  The first use of it is that nothing moves backwards: behind a run stands what stood in front of
  it without the elements that were taken, and the position has grown by their number
  (`Matcher.run_onward`).

  Other properties of attempts are passed on in the same ways, but mostly for attempts only that do
  not go backwards.  `Composes` says this of a property, and that is enough for lists of attempts.
-/
import Forward.Matcher
import Forward.Proofs.Laws

namespace Forward

variable {α σ τ : Type}

/-- A relation between scans that every step of a run keeps. -/
structure Kept (R : Scan α → Scan α → Prop) : Prop where
  refl : ∀ s, R s s
  trans : ∀ {s t u}, R s t → R t u → R s u
  consume : ∀ s : Scan α, R s { s with cursor := s.cursor.consume.2 }
  capture : ∀ (s : Scan α) (name : String) (value : α),
    R s { s with captures := s.captures.capture name value }

namespace Attempt

/-- Every run of the attempt is kept by the relation. -/
def Moves (R : Scan α → Scan α → Prop) (a : Attempt α τ) : Prop := ∀ s, R s (a s).scan

variable {R : Scan α → Scan α → Prop} (kept : Kept R)

include kept

/-! ## Each way to build attempts -/

theorem moves_succeed (value : τ) : Moves R (succeed value) := fun s => kept.refl s

theorem moves_look : Moves R (look : Attempt α α) := by
  intro s
  unfold look
  split <;> exact kept.refl s

theorem moves_take (choose : α → Option τ) : Moves R (take choose) := by
  intro s
  have hconsume := kept.consume s
  unfold take
  split
  · exact kept.refl s
  · split
    · exact kept.refl s
    · -- consuming moves the scan in the same way whether or not there is an element
      split <;> rename_i heq <;> rw [heq] at hconsume <;> exact hconsume

theorem moves_backreference [BEq α] (name : String) :
    Moves R (backreference name : Attempt α α) := by
  intro s
  unfold backreference
  split
  · exact kept.refl s
  · exact moves_take kept _ s

theorem Moves.andThen {a : Attempt α σ} {next : σ → Attempt α τ} (h : Moves R a)
    (k : ∀ x, Moves R (next x)) : Moves R (a.andThen next) := by
  intro s
  have first := h s
  rcases a.andThen_cases next s with ⟨x, -, hrun⟩ | ⟨o, hrun, -⟩
  · rw [hrun]
    exact kept.trans first (k x _)
  · rw [hrun]
    exact first

omit kept in
theorem Moves.map {a : Attempt α σ} (h : Moves R a) (f : σ → τ) : Moves R (a.map f) := h

omit kept in
theorem Moves.filterMap {a : Attempt α σ} (h : Moves R a) (f : σ → Option τ) :
    Moves R (a.filterMap f) := h

omit kept in
theorem Moves.consuming {a : Attempt α τ} (h : Moves R a) : Moves R a.consuming := h

omit kept in
theorem Moves.expansion {a : Attempt α τ} (h : Moves R a) : Moves R a.expansion := h

theorem Moves.both {a : Attempt α σ} {b : Attempt α τ} (h : Moves R a) (k : Moves R b) :
    Moves R (a.both b) :=
  h.andThen kept fun _ => k.map _

theorem Moves.either {a b : Attempt α τ} (h : Moves R a) (k : Moves R b) :
    Moves R (a.either b) := by
  intro s
  have first := h s
  rcases a.either_cases b s with ⟨-, hrun⟩ | ⟨-, hrun⟩
  · rw [hrun]
    exact kept.trans first (k _)
  · rw [hrun]
    exact first

theorem moves_inOrder {as : List (Attempt α τ)} (h : ∀ a ∈ as, Moves R a) :
    Moves R (inOrder as) := by
  induction as with
  | nil => exact moves_succeed kept []
  | cons a as ih =>
    have hlater := ih fun b hb => h b (List.mem_cons_of_mem a hb)
    exact (h a List.mem_cons_self).andThen kept fun _ => hlater.map _

theorem moves_firstOf {as : List (Attempt α τ)} (h : ∀ a ∈ as, Moves R a) :
    Moves R (firstOf as) := by
  induction as with
  | nil => exact fun s => kept.refl s
  | cons a as ih =>
    exact (h a List.mem_cons_self).either kept (ih fun b hb => h b (List.mem_cons_of_mem a hb))

omit kept in
theorem Moves.optional {a : Attempt α τ} (h : Moves R a) : Moves R a.optional := by
  intro s
  have first := h s
  unfold Attempt.optional
  dsimp only
  split <;> exact first

theorem Moves.gather {a : Attempt α τ} (h : Moves R a) (full : Outcome (List τ)) (room : Nat)
    (s : Scan α) : R s (gather full a room s).run.scan := by
  induction room generalizing s with
  | zero => exact kept.refl s
  | succ room ih =>
    have first := h s
    rcases gather_cases full a room s with ⟨x, -, hrun⟩ | ⟨o, hrun, -⟩
    · rw [hrun]
      exact kept.trans first (ih _)
    · rw [hrun]
      exact first

theorem Moves.repeated {a : Attempt α τ} (h : Moves R a) (times : Repetition) (limit : Nat) :
    Moves R (a.repeated times limit) := by
  intro s
  rw [scan_repeated]
  exact h.gather kept (full times) (room times limit) s

theorem Moves.capture {a : Attempt α α} (h : Moves R a) (name : String) :
    Moves R (a.capture name) := by
  intro s
  have first := h s
  unfold Attempt.capture
  dsimp only
  split
  · exact kept.trans first (kept.capture _ _ _)
  all_goals exact first

omit kept in
theorem Moves.spanned {a : Attempt α τ} (h : Moves R a) : Moves R a.spanned := by
  intro s
  have first := h s
  unfold Attempt.spanned
  dsimp only
  split <;> exact first

end Attempt

/-! ## Onward -/

/-- From `s` some elements were taken, and what was behind them is left in `t`. -/
def Onward (s t : Scan α) : Prop :=
  ∃ taken, s.cursor.remaining = taken ++ t.cursor.remaining ∧
    t.position = s.position + taken.length

theorem onward_consume (s : Scan α) : Onward s { s with cursor := s.cursor.consume.2 } := by
  rcases s with ⟨⟨position, front⟩, captures⟩
  cases front with
  | ready current rest =>
    exact ⟨[current], congrArg (current :: ·) (Front.remaining_after current rest).symm, rfl⟩
  | pending last => exact ⟨[], rfl, rfl⟩
  | spent => exact ⟨[], rfl, rfl⟩

theorem kept_onward : Kept (Onward (α := α)) where
  refl s := ⟨[], rfl, rfl⟩
  trans := by
    rintro s t u ⟨xs, hst, hpos⟩ ⟨ys, htu, hpos'⟩
    refine ⟨xs ++ ys, ?_, ?_⟩
    · rw [hst, htu, List.append_assoc]
    · rw [hpos', hpos, List.length_append, Nat.add_assoc]
  consume := onward_consume
  capture _ _ _ := ⟨[], rfl, rfl⟩

/-! ## Places in a stream -/

/-- The elements `taken` were taken from `s`, one after the other, and `t` stands behind them. -/
structure Took (s : Scan α) (taken : List α) (t : Scan α) : Prop where
  remaining : s.cursor.remaining = taken ++ t.cursor.remaining
  position : t.position = s.position + taken.length

theorem Onward.took {s t : Scan α} (h : Onward s t) : ∃ taken, Took s taken t := by
  obtain ⟨taken, hrem, hpos⟩ := h
  exact ⟨taken, hrem, hpos⟩

theorem took_nil (s : Scan α) : Took s [] s := ⟨rfl, rfl⟩

theorem Took.trans {s t u : Scan α} {xs ys : List α} (h : Took s xs t) (k : Took t ys u) :
    Took s (xs ++ ys) u := by
  constructor
  · rw [h.remaining, k.remaining, List.append_assoc]
  · rw [k.position, h.position, List.length_append, Nat.add_assoc]

/-- The cursor is a place in the stream `xs`: it has counted the elements behind it, the others
    are in front of it, and behind all of them it shows the last one or nothing. -/
structure Cursor.Over (xs : List α) (c : Cursor α) : Prop where
  position_le : c.position ≤ xs.length
  remaining : c.remaining = xs.drop c.position
  last : ∀ x, c.front = .pending x → xs.getLast? = some x

theorem Cursor.over_ofList (xs : List α) : (Cursor.ofList xs).Over xs where
  position_le := Nat.zero_le _
  remaining := Cursor.remaining_ofList xs
  last := by
    intro x h
    cases xs <;> cases h

/-- What was taken between two places in a stream is what stands between them. -/
theorem Took.eq_extract {s t : Scan α} {xs taken : List α} (h : Took s taken t)
    (place : s.cursor.Over xs) : taken = xs.extract s.position t.position := by
  have hdrop : xs.drop s.position = taken ++ t.cursor.remaining :=
    place.remaining.symm.trans h.remaining
  have hlength : t.position - s.position = taken.length := by
    have := h.position
    omega
  rw [List.extract_eq_take_drop, hdrop, hlength, List.take_left]

/-- A run that starts at a place in a stream does not leave it. -/
theorem Took.position_le {s t : Scan α} {xs taken : List α} (h : Took s taken t)
    (place : s.cursor.Over xs) : t.position ≤ xs.length := by
  have hrem := congrArg List.length (place.remaining.symm.trans h.remaining)
  have hstart : s.position ≤ xs.length := place.position_le
  have hpos := h.position
  rw [List.length_drop, List.length_append] at hrem
  have hs : s.cursor.position = s.position := rfl
  omega

/-! ## Properties that attempts keep when they are put together -/

namespace Attempt

/-- The property holds of what is made of two attempts, one after the other or one instead of the
    other, if it holds of them.  Only attempts that do not go backwards are considered. -/
structure Composes (Q : {τ : Type} → Attempt α τ → Prop) : Prop where
  succeed : ∀ {τ : Type} (value : τ), Q (succeed value : Attempt α τ)
  fail : ∀ {τ : Type}, Q (fail : Attempt α τ)
  map : ∀ {σ τ : Type} {a : Attempt α σ}, Q a → ∀ f : σ → τ, Q (a.map f)
  andThen : ∀ {σ τ : Type} {a : Attempt α σ} {next : σ → Attempt α τ}, Moves Onward a →
    (∀ x, Moves Onward (next x)) → Q a → (∀ x, Q (next x)) → Q (a.andThen next)
  either : ∀ {τ : Type} {a b : Attempt α τ}, Moves Onward a → Moves Onward b → Q a → Q b →
    Q (a.either b)

variable {Q : {τ : Type} → Attempt α τ → Prop}

theorem Composes.both (composes : Composes Q) {a : Attempt α σ} {b : Attempt α τ}
    (onward : Moves Onward a) (later : Moves Onward b) (h : Q a) (k : Q b) : Q (a.both b) :=
  composes.andThen onward (fun _ => later.map _) h fun _ => composes.map k _

theorem Composes.inOrder (composes : Composes Q) {as : List (Attempt α τ)}
    (onward : ∀ a ∈ as, Moves Onward a) (h : ∀ a ∈ as, Q a) : Q (inOrder as) := by
  induction as with
  | nil => exact composes.succeed []
  | cons a as ih =>
    obtain ⟨hmoves, hmoveslater⟩ := List.forall_mem_cons.mp onward
    obtain ⟨hfirst, hall⟩ := List.forall_mem_cons.mp h
    have hlater := ih hmoveslater hall
    exact composes.andThen hmoves (fun _ => (moves_inOrder kept_onward hmoveslater).map _) hfirst
      fun _ => composes.map hlater _

theorem Composes.firstOf (composes : Composes Q) {as : List (Attempt α τ)}
    (onward : ∀ a ∈ as, Moves Onward a) (h : ∀ a ∈ as, Q a) : Q (firstOf as) := by
  induction as with
  | nil => exact composes.fail
  | cons a as ih =>
    obtain ⟨hmoves, hmoveslater⟩ := List.forall_mem_cons.mp onward
    obtain ⟨hfirst, hall⟩ := List.forall_mem_cons.mp h
    exact composes.either hmoves (moves_firstOf kept_onward hmoveslater) hfirst
      (ih hmoveslater hall)

end Attempt

/-! ## Matchers and grammars -/

open Attempt

variable {ρ : Type → Type} [BEq α] {R : Scan α → Scan α → Prop}

/-- Where the expansions of rules keep the relation, every matcher does. -/
theorem Matcher.attempt_moves (kept : Kept R) {expand : (τ : Type) → ρ τ → Attempt α τ}
    (rules : ∀ τ name, Moves R (expand τ name)) (limit : Nat) (m : Matcher α ρ τ) :
    Moves R (m.attempt expand limit) := by
  induction m with
  | satisfy p => exact moves_take kept _
  | symbol table => exact moves_take kept table
  | peek => exact moves_look kept
  | pure value => exact moves_succeed kept value
  | inOrder parts ih =>
    refine moves_inOrder kept fun a ha => ?_
    obtain ⟨i, rfl⟩ := List.mem_ofFn.mp ha
    exact ih i
  | firstOf choices ih =>
    refine moves_firstOf kept fun a ha => ?_
    obtain ⟨i, rfl⟩ := List.mem_ofFn.mp ha
    exact ih i
  | both first second ihFirst ihSecond => exact ihFirst.both kept ihSecond
  | either first second ihFirst ihSecond => exact ihFirst.either kept ihSecond
  | repeated times body ih => exact ih.repeated kept times limit
  | optional body ih => exact ih.optional
  | map f body ih => exact ih.map f
  | filterMap f body ih => exact ih.filterMap f
  | andThen first next ihFirst ihNext => exact ihFirst.andThen kept ihNext
  | rule name => exact (rules _ name).expansion
  | capture name body ih => exact ih.capture kept name
  | backreference name => exact moves_backreference kept name
  | spanned body ih => exact ih.spanned
  | consuming body ih => exact ih.consuming

theorem Grammar.expand_moves (kept : Kept R) (g : Grammar α ρ) (bound : Nat) (τ : Type)
    (name : ρ τ) : Moves R (g.expand bound τ name) := by
  induction bound generalizing τ with
  | zero => exact fun s => kept.refl s
  | succ bound ih => exact Matcher.attempt_moves kept ih bound (g τ name)

/-- What every step keeps, every run of a matcher keeps. -/
theorem Matcher.run_moves (kept : Kept R) (g : Grammar α ρ) (bound : Nat) (m : Matcher α ρ τ) :
    Moves R (m.run g bound) :=
  attempt_moves kept (g.expand_moves kept bound) bound m

/-- No run goes backwards: it takes elements from what remains, and counts them. -/
theorem Matcher.run_onward (g : Grammar α ρ) (bound : Nat) (m : Matcher α ρ τ) (s : Scan α) :
    Onward s (m.run g bound s).scan :=
  m.run_moves kept_onward g bound s

end Forward
