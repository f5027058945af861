/-
  Progress and termination of attempts.

  An attempt `Advances` if every success of it takes an element.  That is what a repetition
  without an upper bound needs of its body: each round takes one of the elements that remain, so
  that there cannot be more rounds than elements (`Finishes.repeated`).

  `Finishes limit a` says that the attempt `a` comes to an answer wherever less than `limit`
  elements remain.  Taking elements only helps, so that it passes from parts to the whole, given
  that no part goes backwards.
-/
import Forward.Matcher.Bound
import Forward.Proofs.Moves

namespace Forward

variable {α σ τ : Type}

theorem Onward.position_le {s t : Scan α} (h : Onward s t) : s.position ≤ t.position := by
  obtain ⟨taken, -, hpos⟩ := h
  omega

theorem Onward.length_add {s t : Scan α} (h : Onward s t) :
    t.cursor.remaining.length + t.position = s.cursor.remaining.length + s.position := by
  obtain ⟨taken, hrem, hpos⟩ := h
  rw [hrem, List.length_append, hpos]
  omega

theorem Onward.length_le {s t : Scan α} (h : Onward s t) :
    t.cursor.remaining.length ≤ s.cursor.remaining.length := by
  have := h.length_add
  have := h.position_le
  omega

theorem Onward.remaining_nil {s t : Scan α} (h : Onward s t) (hrem : s.cursor.remaining = []) :
    t.cursor.remaining = [] := by
  have hlength := h.length_le
  rw [hrem] at hlength
  exact List.eq_nil_of_length_eq_zero (Nat.le_zero.mp hlength)

namespace Attempt

/-- Every success of the attempt takes an element. -/
def Advances (a : Attempt α τ) : Prop :=
  ∀ s v, (a s).outcome = .matched v → s.position < (a s).scan.position

/-- With nothing left an attempt that takes an element with every success has none. -/
theorem Advances.ne_matched_of_exhausted {a : Attempt α τ} (h : Advances a)
    (onward : Moves Onward a) {s : Scan α} (hrem : s.cursor.remaining = []) (v : τ) :
    (a s).outcome ≠ .matched v := by
  intro hmatched
  have hlt := h s v hmatched
  have hlength := (onward s).length_add
  rw [hrem, List.length_nil] at hlength
  omega

/-! ## What advances -/

/-- A success has taken the next element. -/
theorem matched_of_take {choose : α → Option τ} {s : Scan α} {v : τ}
    (h : (take choose s).outcome = .matched v) :
    ∃ x xs, s.cursor.remaining = x :: xs ∧ choose x = some v ∧
      (take choose s).scan = ⟨⟨s.position + 1, .after x xs⟩, s.captures⟩ := by
  cases hrem : s.cursor.remaining with
  | nil =>
    -- the element on show has been taken before: if it fits, the read is past the end
    rw [take_of_exhausted hrem] at h
    cases hshown : s.cursor.shown with
    | none => rw [hshown] at h; cases h
    | some last =>
      rw [hshown] at h
      cases hlast : choose last <;> simp only [hlast, reduceCtorEq] at h
  | cons x xs =>
    rw [take_of_remaining hrem] at h ⊢
    cases hx : choose x with
    | none => rw [hx] at h; cases h
    | some w =>
      rw [hx] at h
      obtain rfl : w = v := Outcome.matched.inj h
      exact ⟨x, xs, rfl, hx, rfl⟩

/-- A success of a test has taken a single element, which passes it. -/
theorem took_of_satisfy {test : α → Bool} {s : Scan α} {x : α}
    (h : (satisfy test s).outcome = .matched x) :
    test x = true ∧ Took s [x] (satisfy test s).scan := by
  obtain ⟨y, ys, hrem, htest, hscan⟩ := matched_of_take h
  obtain ⟨hy, rfl⟩ : test y = true ∧ y = x := by
    split at htest
    · next hy => exact ⟨hy, Option.some.inj htest⟩
    · cases htest
  rw [satisfy, hscan]
  refine ⟨hy, ?_, rfl⟩
  rw [hrem]
  exact congrArg (y :: ·) (Front.remaining_after y ys).symm

theorem advances_take (choose : α → Option τ) : Advances (take choose) := by
  intro s v h
  obtain ⟨x, xs, -, -, hscan⟩ := matched_of_take h
  rw [hscan]
  exact Nat.lt_succ_self s.position

theorem matched_of_map {a : Attempt α σ} {f : σ → τ} {s : Scan α} {v : τ}
    (h : (a.map f s).outcome = .matched v) : ∃ x, (a s).outcome = .matched x ∧ f x = v := by
  unfold Attempt.map Run.map Run.withOutcome Outcome.map Outcome.bind at h
  cases hx : (a s).outcome with
  | matched x =>
    rw [hx] at h
    exact ⟨x, rfl, Outcome.matched.inj h⟩
  | _ => rw [hx] at h; cases h

/-- A success of two attempts one after the other is a success of each of them. -/
theorem matched_of_andThen {a : Attempt α σ} {next : σ → Attempt α τ} {s : Scan α} {v : τ}
    (h : (a.andThen next s).outcome = .matched v) :
    ∃ x, (a s).outcome = .matched x ∧ (next x (a s).scan).outcome = .matched v ∧
      (a.andThen next s).scan = (next x (a s).scan).scan := by
  rcases a.andThen_cases next s with ⟨x, hx, hrun⟩ | ⟨o, hrun, hnot, -⟩
  · rw [hrun] at h ⊢
    exact ⟨x, hx, h, rfl⟩
  · rw [hrun] at h
    exact absurd h (hnot v)

/-- A success that had to consume something is a success, and consumed something. -/
theorem matched_of_consuming {a : Attempt α τ} {s : Scan α} {v : τ}
    (h : (a.consuming s).outcome = .matched v) :
    (a s).outcome = .matched v ∧ s.position < (a s).scan.position := by
  unfold Attempt.consuming Run.withOutcome Outcome.bind at h
  cases hx : (a s).outcome with
  | matched x =>
    simp only [hx] at h
    split at h
    · next hlt => exact ⟨h, hlt⟩
    · cases h
  | _ => simp only [hx] at h; cases h

theorem Advances.map {a : Attempt α σ} (h : Advances a) (f : σ → τ) : Advances (a.map f) := by
  intro s v hv
  obtain ⟨x, hx, -⟩ := matched_of_map hv
  exact h s x hx

theorem Advances.andThen_left {a : Attempt α σ} {next : σ → Attempt α τ} (h : Advances a)
    (k : ∀ x, Moves Onward (next x)) : Advances (a.andThen next) := by
  intro s v hv
  obtain ⟨x, hx, -, hscan⟩ := matched_of_andThen hv
  rw [hscan]
  exact Nat.lt_of_lt_of_le (h s x hx) (k x _).position_le

theorem Advances.andThen_right {a : Attempt α σ} {next : σ → Attempt α τ} (h : Moves Onward a)
    (k : ∀ x, Advances (next x)) : Advances (a.andThen next) := by
  intro s v hv
  obtain ⟨x, -, hy, hscan⟩ := matched_of_andThen hv
  rw [hscan]
  exact Nat.lt_of_le_of_lt (h s).position_le (k x _ v hy)

/-- A sequence advances if one of its parts does. -/
theorem advances_inOrder {as : List (Attempt α τ)} (onward : ∀ a ∈ as, Moves Onward a)
    (h : ∃ a ∈ as, Advances a) : Advances (inOrder as) := by
  induction as with
  | nil => obtain ⟨a, ha, -⟩ := h; cases ha
  | cons a as ih =>
    have hlater : ∀ b ∈ as, Moves Onward b := fun b hb => onward b (List.mem_cons_of_mem a hb)
    obtain ⟨b, hb, hadv⟩ := h
    rcases List.mem_cons.mp hb with rfl | hb
    · exact hadv.andThen_left fun _ => (moves_inOrder kept_onward hlater).map _
    · exact .andThen_right (onward a List.mem_cons_self) fun _ => (ih hlater ⟨b, hb, hadv⟩).map _

theorem Advances.either {a b : Attempt α τ} (onward : Moves Onward a) (h : Advances a)
    (k : Advances b) : Advances (a.either b) := by
  intro s v hv
  rcases a.either_cases b s with ⟨-, hrun⟩ | ⟨-, hrun⟩
  · rw [hrun] at hv ⊢
    exact Nat.lt_of_le_of_lt (onward s).position_le (k _ v hv)
  · rw [hrun] at hv ⊢
    exact h s v hv

/-- A choice advances if each of its branches does. -/
theorem advances_firstOf {as : List (Attempt α τ)} (onward : ∀ a ∈ as, Moves Onward a)
    (h : ∀ a ∈ as, Advances a) : Advances (firstOf as) := by
  induction as with
  | nil => exact fun s v hv => by cases hv
  | cons a as ih =>
    exact .either (onward a List.mem_cons_self) (h a List.mem_cons_self)
      (ih (fun b hb => onward b (List.mem_cons_of_mem a hb))
        fun b hb => h b (List.mem_cons_of_mem a hb))

/-- Rounds that advance take an element, if there are any. -/
theorem Advances.gather {a : Attempt α τ} (onward : Moves Onward a) (h : Advances a)
    {full : Outcome (List τ)} (hfull : ∀ vs, full = .matched vs → vs = []) {room : Nat}
    {s : Scan α} {vs : List τ} (hv : (gather full a room s).run.outcome = .matched vs)
    (hvs : vs ≠ []) : s.position < (Attempt.gather full a room s).run.scan.position := by
  cases room with
  | zero => exact absurd (hfull vs hv) hvs
  | succ room =>
    rcases gather_cases full a room s with ⟨x, hx, hrun⟩ | ⟨o, hrun, hempty, -⟩
    · have hlater := onward.gather kept_onward full room (a s).scan
      rw [hrun]
      exact Nat.lt_of_lt_of_le (h s x hx) hlater.position_le
    · rw [hrun] at hv
      exact absurd (hempty vs hv) hvs

/-- A repetition that needs a round advances if its body does. -/
theorem Advances.repeated {a : Attempt α τ} (onward : Moves Onward a) (h : Advances a)
    {times : Repetition} (least : 0 < times.least.toNat) (limit : Nat) :
    Advances (a.repeated times limit) := by
  intro s values hvalues
  obtain ⟨hgathered, hadmits⟩ := matched_of_repeated hvalues
  have hsome : values ≠ [] := by
    rintro rfl
    -- no rounds at all are too few
    have hnot : ¬ times.least.toNat ≤ 0 := by omega
    rw [List.length_nil, Repetition.admits, decide_eq_false hnot, Bool.false_and] at hadmits
    cases hadmits
  rw [scan_repeated]
  exact h.gather onward (fun _ hfull => eq_nil_of_full hfull) hgathered hsome

theorem advances_consuming (a : Attempt α τ) : Advances a.consuming := by
  intro s v hv
  exact (matched_of_consuming hv).2

/-! ## What finishes -/

/-- The attempt comes to an answer wherever less than `limit` elements remain. -/
def Finishes (limit : Nat) (a : Attempt α τ) : Prop :=
  ∀ s : Scan α, s.cursor.remaining.length < limit → (a s).Finished

variable {limit : Nat}

theorem finishes_take (choose : α → Option τ) : Finishes limit (take choose) := by
  intro s _
  unfold take
  split
  · rintro ⟨⟩
  · split
    · rintro ⟨⟩
    · split <;> rintro ⟨⟩

theorem finishes_look : Finishes limit (look : Attempt α α) := by
  intro s _
  unfold look
  split <;> rintro ⟨⟩

theorem Finishes.bindOutcome {a : Attempt α σ} (h : Finishes limit a)
    (next : Scan α → Run α σ → σ → Outcome τ) (hnext : ∀ s r x, next s r x ≠ .unfinished) :
    Finishes limit fun s => (a s).withOutcome ((a s).outcome.bind (next s (a s))) := by
  intro s hs
  have first := h s hs
  show Outcome.bind _ _ ≠ _
  cases hx : (a s).outcome with
  | matched x => exact hnext s (a s) x
  | unfinished => exact absurd hx first
  | _ => rintro ⟨⟩

theorem Finishes.map {a : Attempt α σ} (h : Finishes limit a) (f : σ → τ) :
    Finishes limit (a.map f) :=
  h.bindOutcome (fun _ _ x => .matched (f x)) fun _ _ _ => by rintro ⟨⟩

theorem Finishes.consuming {a : Attempt α τ} (h : Finishes limit a) :
    Finishes limit a.consuming := by
  refine h.bindOutcome
    (fun s r x => if s.position < r.scan.position then .matched x else .failed) fun s r x => ?_
  split <;> rintro ⟨⟩

theorem Finishes.andThen {a : Attempt α σ} {next : σ → Attempt α τ} (onward : Moves Onward a)
    (h : Finishes limit a) (k : ∀ x, Finishes limit (next x)) : Finishes limit (a.andThen next) := by
  intro s hs
  have first := h s hs
  have hless := (onward s).length_le
  rcases a.andThen_cases next s with ⟨x, -, hrun⟩ | ⟨o, hrun, -, hstop⟩
  · rw [hrun]
    exact k x _ (by omega)
  · rw [hrun]
    intro hunfinished
    exact first (hstop hunfinished)

theorem Finishes.either {a b : Attempt α τ} (onward : Moves Onward a) (h : Finishes limit a)
    (k : Finishes limit b) : Finishes limit (a.either b) := by
  intro s hs
  have first := h s hs
  have hless := (onward s).length_le
  rcases a.either_cases b s with ⟨-, hrun⟩ | ⟨-, hrun⟩
  · rw [hrun]
    exact k _ (by omega)
  · rw [hrun]
    exact first

theorem Finishes.optional {a : Attempt α τ} (h : Finishes limit a) :
    Finishes limit a.optional := by
  intro s hs
  have first := h s hs
  simp only [Attempt.optional]
  cases ho : (a s).outcome with
  | unfinished => exact absurd ho first
  | _ => rintro ⟨⟩

theorem composes_finishes : Composes (α := α) (Finishes limit) where
  succeed _ := by rintro _ _ ⟨⟩
  fail := by rintro _ _ _ ⟨⟩
  map h f := h.map f
  andThen onward _ h k := h.andThen onward k
  either onward _ h k := h.either onward k

/-- Rounds finish if the room for them is an answer when it is used up, or if it cannot be used up
    because each round takes an element and there is room for one attempt more than that. -/
theorem Finishes.gather {a : Attempt α τ} (onward : Moves Onward a) (h : Finishes limit a)
    (full : Outcome (List τ)) {room : Nat} {s : Scan α}
    (hroom : full ≠ .unfinished ∨ Advances a ∧ s.cursor.remaining.length < room)
    (hs : s.cursor.remaining.length < limit) : (gather full a room s).run.Finished := by
  induction room generalizing s with
  | zero =>
    rcases hroom with hfull | ⟨-, hroom⟩
    · exact hfull
    · exact absurd hroom (Nat.not_lt_zero _)
  | succ room ih =>
    have first := h s hs
    have hless := (onward s).length_le
    rcases gather_cases full a room s with ⟨x, hx, hrun⟩ | ⟨o, hrun, -, hstop⟩
    · -- a round that takes an element leaves less of them, and less room
      have hlater : full ≠ .unfinished ∨ Advances a ∧ (a s).scan.cursor.remaining.length < room := by
        rcases hroom with hfull | ⟨adv, hroom⟩
        · exact Or.inl hfull
        · have hadd := (onward s).length_add
          have hlt := adv s x hx
          exact Or.inr ⟨adv, by omega⟩
      have later := ih hlater (by omega)
      rw [hrun]
      show Outcome.map _ _ ≠ .unfinished
      cases ho : (Attempt.gather full a room (a s).scan).run.outcome with
      | unfinished => exact absurd ho later
      | _ => rintro ⟨⟩
    · rw [hrun]
      intro hunfinished
      exact first (hstop hunfinished)

/-- A repetition finishes if it has an upper bound, or if its body advances. -/
theorem Finishes.repeated {a : Attempt α τ} (onward : Moves Onward a) (h : Finishes limit a)
    {times : Repetition} (hrounds : times.most ≠ none ∨ Advances a) :
    Finishes limit (a.repeated times limit) := by
  intro s hs
  have hroom : (full times : Outcome (List τ)) ≠ .unfinished ∨
      Advances a ∧ s.cursor.remaining.length < room times limit := by
    cases hmost : times.most with
    | some most => exact Or.inl (full_ne_unfinished (by rw [hmost]; rintro ⟨⟩))
    | none =>
      refine Or.inr ⟨hrounds.resolve_left fun bounded => bounded hmost, ?_⟩
      rw [room, hmost]
      exact hs
  have first : (a.gathered times limit s).Finished := h.gather onward _ hroom hs
  unfold Run.Finished at first ⊢
  rw [outcome_repeated]
  cases ho : (a.gathered times limit s).outcome with
  | matched vs =>
    show counted times vs ≠ .unfinished
    unfold counted
    split <;> rintro ⟨⟩
  | unfinished => exact absurd ho first
  | _ => rintro ⟨⟩

end Attempt
end Forward
