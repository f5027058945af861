/-
  Histories: what holds of a cursor whatever has been done with it.

  A `Use` is one thing that is done with a cursor: a look, a read, a run of reads, or a match.  Its
  `Effect` is what its reads returned, the read past the end that it reports, and the cursor that it
  leaves.  Uses in any number and order make a history.

  `Cursor.past n c` is the cursor behind `n` more elements.  A run of reads takes the longest prefix
  that passes its test, whatever is made of the elements, and leaves the cursor past it
  (`Cursor.pass_eq`).  So all uses move the cursor by single reads (`Use.kept`), and it stays a place
  in its stream.  A use reports a read past the end only from a front that is spent (`Use.spent_of_stop`), and a spent
  front stays as it is.  Together with the takings of a match this gives the account of any history
  in `Cursor.history`.
-/
import Forward.Proofs.Reach
import Forward.Proofs.Logs

namespace Forward

variable {α σ τ : Type}

/-! ## Reads past the end -/

theorem Cursor.front_of_not_shown {c : Cursor α} (h : c.shown = none) : c.front = .spent := by
  rcases c with ⟨position, front⟩
  cases front with
  | spent => rfl
  | _ => cases h

/-- If the outcome is a read past the end, the cursor stands at the reported position, and its
    front is spent. -/
def Outcome.EndsAt (c : Cursor α) : Outcome τ → Prop
  | .ended stop => stop = ⟨c.position⟩ ∧ c.front = .spent
  | .matched _ => True
  | .failed => True
  | .unfinished => True

theorem Outcome.EndsAt.bind {c : Cursor α} {o : Outcome σ} (h : o.EndsAt c) {next : σ → Outcome τ}
    (k : ∀ x, (next x).EndsAt c) : (o.bind next).EndsAt c := by
  cases o with
  | matched x => exact k x
  | ended stop => exact h
  | _ => trivial

theorem Outcome.endsAt_ofOption (c : Cursor α) (o : Option τ) : (Outcome.ofOption o).EndsAt c := by
  cases o <;> trivial

namespace Attempt

/-- Wherever the attempt ends past the end, it leaves a spent front there. -/
def Spends (a : Attempt α τ) : Prop := ∀ s, (a s).outcome.EndsAt (a s).scan.cursor

theorem spends_take (choose : α → Option τ) : Spends (take choose) := by
  intro s
  cases hrem : s.cursor.remaining with
  | cons x xs =>
    rw [take_of_remaining hrem]
    cases choose x <;> trivial
  | nil =>
    rw [take_of_exhausted hrem]
    cases hshown : s.cursor.shown with
    | none => exact ⟨rfl, Cursor.front_of_not_shown hshown⟩
    | some last =>
      dsimp only
      cases choose last with
      | none => trivial
      | some value => exact ⟨rfl, rfl⟩

theorem spends_look : Spends (look : Attempt α α) := by
  intro s
  cases hshown : s.cursor.shown with
  | none =>
    rw [look_of_not_shown hshown]
    exact ⟨rfl, Cursor.front_of_not_shown hshown⟩
  | some x =>
    rw [look_of_shown hshown]
    trivial

theorem spends_backreference [BEq α] (name : String) :
    Spends (backreference name : Attempt α α) := by
  intro s
  unfold backreference
  cases s.captures.get? name with
  | none => trivial
  | some value => exact spends_take _ s

theorem Spends.andThen {a : Attempt α σ} {next : σ → Attempt α τ} (h : Spends a)
    (k : ∀ s x, (a s).outcome = .matched x → Spends (next x)) : Spends (a.andThen next) := by
  intro s
  have hfirst := h s
  unfold Attempt.andThen
  cases hx : (a s).outcome with
  | matched x =>
    simp only [hx]
    exact k s x hx _
  | ended stop =>
    simp only [hx] at hfirst ⊢
    exact hfirst
  | _ =>
    simp only [hx]
    trivial

theorem Spends.either {a b : Attempt α τ} (h : Spends a) (k : Spends b) : Spends (a.either b) := by
  intro s
  rcases a.either_cases b s with ⟨-, hrun⟩ | ⟨-, hrun⟩
  · rw [hrun]
    exact k _
  · rw [hrun]
    exact h s

theorem Spends.gather {a : Attempt α τ} (h : Spends a) {full : Outcome (List τ)}
    (hfull : ∀ c : Cursor α, full.EndsAt c) (room : Nat) :
    Spends fun s => (gather full a room s).run := by
  induction room with
  | zero => exact fun s => hfull s.cursor
  | succ room ih =>
    intro s
    have hfirst := h s
    unfold Attempt.gather
    cases hx : (a s).outcome with
    | matched x =>
      simp only [hx]
      exact (ih (a s).scan).bind fun _ => trivial
    | ended stop =>
      simp only [hx] at hfirst ⊢
      exact hfirst
    | _ =>
      simp only [hx]
      trivial

theorem Spends.repeated {a : Attempt α τ} (h : Spends a) (times : Repetition) (limit : Nat) :
    Spends (a.repeated times limit) := by
  intro s
  have hfull : ∀ c : Cursor α, (full times : Outcome (List τ)).EndsAt c := by
    intro c
    unfold full
    split <;> trivial
  rw [outcome_repeated, scan_repeated]
  refine (h.gather hfull (room times limit) s).bind fun values => ?_
  unfold counted
  split <;> trivial

theorem Spends.optional {a : Attempt α τ} (h : Spends a) : Spends a.optional := by
  intro s
  have hbody := h s
  unfold Attempt.optional
  cases hx : (a s).outcome with
  | ended stop =>
    simp only [hx] at hbody ⊢
    exact hbody
  | _ =>
    simp only [hx]
    trivial

theorem Spends.capture {a : Attempt α α} (h : Spends a) (name : String) :
    Spends (a.capture name) := by
  intro s
  have hbody := h s
  unfold Attempt.capture
  cases hx : (a s).outcome with
  | matched x =>
    simp only [hx]
    trivial
  | _ =>
    simp only [hx] at hbody ⊢
    exact hbody

theorem Spends.spanned {a : Attempt α τ} (h : Spends a) : Spends a.spanned := by
  intro s
  have hbody := h s
  unfold Attempt.spanned
  cases hx : (a s).outcome with
  | ended stop =>
    simp only [hx] at hbody ⊢
    exact hbody
  | _ =>
    simp only [hx]
    trivial

theorem inherited_spends [BEq α] :
    Inherited (α := α) (fun _ => True) (fun _ => True) Spends where
  take := spends_take
  look := spends_look
  backreference name _ := spends_backreference name
  succeed _ _ := trivial
  fail _ := trivial
  giveUp _ := trivial
  select h _ s := (h s).bind fun _ => Outcome.endsAt_ofOption _ _
  andThen h k := h.andThen k
  either h k := h.either k
  repeated h := h.repeated
  optional h := h.optional
  capture h name _ := h.capture name
  spanned h := h.spanned
  expansion h := h

end Attempt

/-! ## Places that reads keep -/

/-- The element that is next at a place in a stream is the one with the number of that place. -/
theorem Cursor.Over.getElem?_position {xs rest : List α} {c : Cursor α} {x : α} (h : c.Over xs)
    (hrem : c.remaining = x :: rest) : xs[c.position]? = some x := by
  have hdrop : xs.drop c.position = x :: rest := h.remaining.symm.trans hrem
  have hhead : (xs.drop c.position)[0]? = some x := by
    rw [hdrop]
    rfl
  rwa [List.getElem?_drop] at hhead

theorem Cursor.Over.position_eq {xs : List α} {c : Cursor α} (h : c.Over xs)
    (hrem : c.remaining = []) : c.position = xs.length := by
  have hle : xs.length ≤ c.position := List.drop_eq_nil_iff.mp (h.remaining.symm.trans hrem)
  have := h.position_le
  omega

/-- The front is ready as long as there is a next element. -/
theorem Cursor.Over.ready_iff {xs : List α} {c : Cursor α} (h : c.Over xs) :
    (∃ x rest, c.front = .ready x rest) ↔ c.position < xs.length := by
  constructor
  · rintro ⟨x, rest, hfront⟩
    have hrem : c.remaining = x :: rest := congrArg Front.remaining hfront
    exact (List.getElem?_eq_some_iff.mp (h.getElem?_position hrem)).1
  · intro hlt
    cases hfront : c.front with
    | ready x rest => exact ⟨x, rest, rfl⟩
    | _ =>
      have hrem : c.remaining = [] := congrArg Front.remaining hfront
      have := h.position_eq hrem
      omega

/-- A read does not leave the stream. -/
theorem Cursor.Over.consume {xs : List α} {c : Cursor α} (h : c.Over xs) : c.consume.2.Over xs := by
  cases hrem : c.remaining with
  | cons x rest =>
    have hdrop : xs.drop c.position = x :: rest := h.remaining.symm.trans hrem
    have hlt := (List.getElem?_eq_some_iff.mp (h.getElem?_position hrem)).1
    have hrest : xs.drop (c.position + 1) = rest := by
      rw [← List.drop_drop, hdrop]
      rfl
    rw [Cursor.consume_of_remaining hrem]
    refine ⟨hlt, ?_, ?_⟩
    · exact (Front.remaining_after x rest).trans hrest.symm
    · -- if nothing follows, the element that was read is the last one of the stream
      intro last hlast
      cases rest with
      | cons next rest => cases hlast
      | nil =>
        obtain rfl : x = last := Front.pending.inj hlast
        rw [← List.take_append_drop c.position xs, hdrop, List.getLast?_concat]
  | nil =>
    rw [Cursor.consume_of_exhausted hrem]
    exact ⟨h.position_le, hrem.symm.trans h.remaining, fun _ hlast => by cases hlast⟩

theorem kept_over (xs : List α) :
    Kept fun s t : Scan α => s.cursor.Over xs → t.cursor.Over xs where
  refl _ h := h
  trans h k hover := k (h hover)
  consume _ h := h.consume
  capture _ _ _ h := h

/-- Nothing moves a cursor whose front is spent. -/
theorem kept_spent : Kept fun s t : Scan α => s.cursor.front = .spent → t.cursor = s.cursor where
  refl _ _ := rfl
  trans := by
    intro s t u hst htu hspent
    have hmiddle := hst hspent
    exact (htu (by rw [hmiddle, hspent])).trans hmiddle
  consume := by
    rintro ⟨⟨position, front⟩, captures⟩ rfl
    rfl
  capture _ _ _ _ := rfl

namespace Cursor

/-! ## Behind some elements -/

/-- The cursor behind `n` more elements. -/
def past : Nat → Cursor α → Cursor α
  | 0, c => c
  | n + 1, c => past n c.consume.2

theorem past_succ_of_remaining {c : Cursor α} {x : α} {xs : List α} (h : c.remaining = x :: xs)
    (n : Nat) : c.past (n + 1) = past n ⟨c.position + 1, .after x xs⟩ := by
  rw [past, consume_of_remaining h]

/-- Passing elements is a number of single reads. -/
theorem kept_past {R : Scan α → Scan α → Prop} (kept : Kept R) (n : Nat) (c : Cursor α)
    (captures : Captures α) : R ⟨c, captures⟩ ⟨c.past n, captures⟩ := by
  induction n generalizing c with
  | zero => exact kept.refl _
  | succ n ih => exact kept.trans (kept.consume ⟨c, captures⟩) (ih c.consume.2)

/-- Passing elements takes them. -/
theorem took_past {run rest : List α} {c : Cursor α} (h : c.remaining = run ++ rest)
    (captures : Captures α) : Took ⟨c, captures⟩ run ⟨c.past run.length, captures⟩ := by
  induction run generalizing c with
  | nil => exact took_nil _
  | cons x run ih =>
    have hbehind : (Front.after x (run ++ rest)).remaining = run ++ rest :=
      Front.remaining_after x (run ++ rest)
    have hread : Took ⟨c, captures⟩ [x] ⟨⟨c.position + 1, .after x (run ++ rest)⟩, captures⟩ :=
      ⟨h.trans (congrArg (x :: ·) hbehind.symm), rfl⟩
    rw [List.length_cons, past_succ_of_remaining h]
    exact hread.trans (ih hbehind)

/-! ## Runs of elements -/

/-- A run reads the longest prefix that passes the test, whatever is made of it.  It has tested the
    elements of this prefix, and the one behind it if there is one, and leaves the cursor past the
    prefix. -/
theorem pass_eq {β : Type} (p : α → Bool) (note : β → α → β) (made : β) (c : Cursor α) :
    c.pass p note made =
      ⟨(c.remaining.takeWhile p).foldl note made, c.remaining.takeWhile p,
        (c.remaining.takeWhile p).length + (if c.remaining.dropWhile p = [] then 0 else 1),
        c.past (c.remaining.takeWhile p).length⟩ := by
  induction hrem : c.remaining generalizing c made with
  | nil => exact pass_of_exhausted hrem note made
  | cons x xs ih =>
    cases hx : p x with
    | false =>
      have hfails : ¬ p x = true := by rw [hx]; exact Bool.false_ne_true
      rw [pass_of_fails hrem hx, List.takeWhile_cons_of_neg hfails,
        List.dropWhile_cons_of_neg hfails]
      rfl
    | true =>
      have hlater := ih (note made x) ⟨c.position + 1, .after x xs⟩ (Front.remaining_after x xs)
      rw [pass_of_passes hrem hx, hlater, List.takeWhile_cons_of_pos hx,
        List.dropWhile_cons_of_pos hx, List.length_cons, past_succ_of_remaining hrem,
        Nat.add_right_comm]
      rfl

theorem takeWhile_eq (p : α → Bool) (c : Cursor α) :
    c.takeWhile p =
      ⟨c.remaining.takeWhile p,
        (c.remaining.takeWhile p).length + (if c.remaining.dropWhile p = [] then 0 else 1),
        c.past (c.remaining.takeWhile p).length⟩ := by
  have hlisted : (c.remaining.takeWhile p).foldl (fun taken x => taken ++ [x]) [] =
      c.remaining.takeWhile p := by
    rw [List.foldl_append_eq_append, ← List.flatMap_def, List.flatMap_singleton', List.nil_append]
  simp only [takeWhile, taking, pass_eq, hlisted]

/-- Passing over elements is taking them and keeping only their number. -/
theorem skipWhile_eq (p : α → Bool) (c : Cursor α) :
    c.skipWhile p =
      ⟨(c.takeWhile p).taken.length, (c.takeWhile p).tests, (c.takeWhile p).cursor⟩ := by
  have hcounted : (c.remaining.takeWhile p).foldl (fun skipped _ => skipped + 1) 0 =
      (c.remaining.takeWhile p).length := by
    rw [List.foldl_add_const, Nat.one_mul, Nat.zero_add]
  simp only [takeWhile_eq, skipWhile, skipping, pass_eq, hcounted]

/-- Taking elements moves the cursor by single reads. -/
theorem kept_takeWhile {R : Scan α → Scan α → Prop} (kept : Kept R) (p : α → Bool) (c : Cursor α)
    (captures : Captures α) : R ⟨c, captures⟩ ⟨(c.takeWhile p).cursor, captures⟩ := by
  rw [takeWhile_eq]
  exact kept_past kept _ c captures

theorem took_takeWhile (p : α → Bool) (c : Cursor α) (captures : Captures α) :
    Took ⟨c, captures⟩ (c.takeWhile p).taken ⟨(c.takeWhile p).cursor, captures⟩ := by
  rw [takeWhile_eq]
  exact took_past List.takeWhile_append_dropWhile.symm captures

end Cursor

/-! ## Uses of a cursor -/

/-- Something that is done with a cursor. -/
inductive Use (α : Type) : Type 1 where
  | peek
  | consume
  | takeWhile (p : α → Bool)
  | skipWhile (p : α → Bool)
  /-- A match from where the cursor stands, with anything captured before. -/
  | run {ρ : Type → Type} {τ : Type} (g : Grammar α ρ) (bound : Nat) (m : Matcher α ρ τ)
      (captures : Captures α)

/-- What came of a use: what its successful reads returned, the read past the end that it reports,
    and the cursor that it leaves. -/
structure Effect (α : Type) where
  returned : List α
  stop : Option PastEnd
  cursor : Cursor α

/-- The read past the end that an outcome is. -/
def Outcome.stop? : Outcome τ → Option PastEnd
  | .ended stop => some stop
  | .matched _ => none
  | .failed => none
  | .unfinished => none

namespace Use

variable [BEq α]

/-- What comes of a use of the cursor `c`. -/
def effect (c : Cursor α) : Use α → Effect α
  | .peek =>
    match c.peek with
    | .ok _ => ⟨[], none, c⟩
    | .error stop => ⟨[], some stop, c⟩
  | .consume =>
    match c.consume with
    | (.ok x, after) => ⟨[x], none, after⟩
    | (.error stop, after) => ⟨[], some stop, after⟩
  | .takeWhile p => ⟨(c.takeWhile p).taken, none, (c.takeWhile p).cursor⟩
  | .skipWhile p => ⟨(c.skipping p).elements, none, (c.skipWhile p).cursor⟩
  | .run g bound m captures =>
    let r := m.run g bound ⟨c, captures⟩
    ⟨m.takings g bound ⟨c, captures⟩, r.outcome.stop?, r.scan.cursor⟩

/-- Passing over elements reads what taking them reads. -/
theorem effect_skipWhile (c : Cursor α) (p : α → Bool) :
    (skipWhile p).effect c = (takeWhile p).effect c := by
  simp only [effect, Cursor.skipWhile, Cursor.skipping, Cursor.takeWhile_eq, Cursor.pass_eq]

/-- Every use moves the cursor by single reads. -/
theorem kept {R : Cursor α → Cursor α → Prop} (kept : Kept fun s t : Scan α => R s.cursor t.cursor)
    (c : Cursor α) (u : Use α) : R c (u.effect c).cursor := by
  cases u with
  | peek =>
    unfold effect
    dsimp only
    split <;> exact kept.refl ⟨c, .empty⟩
  | consume =>
    have hread := kept.consume ⟨c, .empty⟩
    unfold effect
    dsimp only
    split <;> next heq => rw [heq] at hread; exact hread
  | takeWhile p => exact Cursor.kept_takeWhile kept p c .empty
  | skipWhile p =>
    rw [effect_skipWhile]
    exact Cursor.kept_takeWhile kept p c .empty
  | run g bound m captures => exact m.run_moves kept g bound ⟨c, captures⟩

/-- The reads of a use return what stands between its two ends, each element once. -/
theorem took (c : Cursor α) (u : Use α) (captures : Captures α) :
    Took ⟨c, captures⟩ (u.effect c).returned ⟨(u.effect c).cursor, captures⟩ := by
  cases u with
  | peek =>
    unfold effect
    dsimp only
    split <;> exact took_nil _
  | consume =>
    unfold effect
    cases hrem : c.remaining with
    | cons x xs =>
      rw [Cursor.consume_of_remaining hrem]
      refine ⟨?_, rfl⟩
      show c.remaining = x :: (Front.after x xs).remaining
      rw [hrem, Front.remaining_after]
    | nil =>
      rw [Cursor.consume_of_exhausted hrem]
      exact ⟨hrem, rfl⟩
  | takeWhile p => exact Cursor.took_takeWhile p c captures
  | skipWhile p =>
    rw [effect_skipWhile]
    exact Cursor.took_takeWhile p c captures
  | run g bound m captured =>
    have hrun := m.took_takings g bound ⟨c, captured⟩
    exact ⟨hrun.remaining, hrun.position⟩

/-- A use reports a read past the end only where it leaves a spent front. -/
theorem spent_of_stop {c : Cursor α} {u : Use α} {stop : PastEnd}
    (h : (u.effect c).stop = some stop) :
    stop = ⟨(u.effect c).cursor.position⟩ ∧ (u.effect c).cursor.front = .spent := by
  cases u with
  | peek =>
    unfold effect Cursor.peek at h ⊢
    cases hshown : c.shown with
    | some x => rw [hshown] at h; cases h
    | none =>
      rw [hshown] at h
      exact ⟨(Option.some.inj h).symm, Cursor.front_of_not_shown hshown⟩
  | consume =>
    unfold effect at h ⊢
    cases hrem : c.remaining with
    | cons x xs => rw [Cursor.consume_of_remaining hrem] at h; cases h
    | nil =>
      rw [Cursor.consume_of_exhausted hrem] at h ⊢
      exact ⟨(Option.some.inj h).symm, rfl⟩
  | takeWhile p => cases h
  | skipWhile p => cases h
  | run g bound m captures =>
    have hends := m.run_of_inherited Attempt.inherited_spends g (fun _ _ _ => trivial)
      (fun _ _ => trivial) bound ⟨c, captures⟩
    have hstop : (m.run g bound ⟨c, captures⟩).outcome.stop? = some stop := h
    cases hx : (m.run g bound ⟨c, captures⟩).outcome with
    | ended stop' =>
      rw [hx] at hends hstop
      obtain rfl : stop' = stop := Option.some.inj hstop
      exact hends
    | _ => rw [hx] at hstop; cases hstop

end Use

/-! ## Histories -/

namespace Cursor

variable [BEq α]

/-- The cursor after some uses of it. -/
def after (c : Cursor α) : List (Use α) → Cursor α
  | [] => c
  | u :: later => (u.effect c).cursor.after later

/-- What the reads of some uses returned. -/
def returned (c : Cursor α) : List (Use α) → List α
  | [] => []
  | u :: later => (u.effect c).returned ++ (u.effect c).cursor.returned later

theorem kept_after {R : Cursor α → Cursor α → Prop}
    (kept : Kept fun s t : Scan α => R s.cursor t.cursor) (c : Cursor α) (uses : List (Use α)) :
    R c (c.after uses) := by
  induction uses generalizing c with
  | nil => exact kept.refl ⟨c, .empty⟩
  | cons u later ih =>
    have hfirst := u.kept kept c
    have hlater := ih (u.effect c).cursor
    exact kept.trans (s := ⟨c, .empty⟩) (t := ⟨_, .empty⟩) (u := ⟨_, .empty⟩) hfirst hlater

theorem took_after (c : Cursor α) (uses : List (Use α)) (captures : Captures α) :
    Took ⟨c, captures⟩ (c.returned uses) ⟨c.after uses, captures⟩ := by
  induction uses generalizing c with
  | nil => exact took_nil _
  | cons u later ih => exact (u.took c captures).trans (ih _)

/-- Whatever has been done with the cursor of a stream of `n` elements, what is done next does not
    move it backwards, and it never stands behind the end.  All that has been returned are the
    elements in front of it, in order and each of them once.  The front is ready, with the next
    element, as long as there is one, and otherwise it shows the last element or nothing.  A read
    that fails does not move the cursor.  Whatever reports a read past the end reports `n` and
    leaves a spent front at `n`; after that the cursor stays as it is, and every read of it fails
    with the same report. -/
theorem history (xs : List α) (uses : List (Use α)) (u : Use α) :
    let n := xs.length
    let c := (ofList xs).after uses
    let e := u.effect c
    (c.position ≤ e.cursor.position ∧ e.cursor.position ≤ n) ∧
    (ofList xs).returned uses = xs.take c.position ∧
    ((∃ x rest, c.front = .ready x rest) ↔ c.position < n) ∧
    (∀ x rest, c.front = .ready x rest → xs[c.position]? = some x) ∧
    (∀ x, c.front = .pending x → xs[n - 1]? = some x) ∧
    (∀ stop, c.consume.1 = .error stop → c.consume.2.position = c.position) ∧
    ∀ stop, e.stop = some stop → stop = ⟨n⟩ ∧ e.cursor = ⟨n, .spent⟩ ∧
      ∀ later, e.cursor.after later = e.cursor ∧ e.cursor.peek = .error stop ∧
        e.cursor.consume = (.error stop, e.cursor) := by
  intro n c e
  have hplace : c.Over xs :=
    kept_after (R := fun c d => c.Over xs → d.Over xs) (kept_over xs) (ofList xs) uses
      (over_ofList xs)
  have hplace' : e.cursor.Over xs :=
    u.kept (R := fun c d => c.Over xs → d.Over xs) (kept_over xs) c hplace
  have hposition : e.cursor.position = c.position + e.returned.length :=
    (u.took c Captures.empty).position
  refine ⟨⟨by omega, hplace'.position_le⟩, ?_, hplace.ready_iff, ?_, ?_, ?_, ?_⟩
  · have htook := took_after (ofList xs) uses Captures.empty
    rw [htook.eq_extract (over_ofList xs)]
    exact List.extract_eq_take_drop
  · intro x rest hfront
    have hrem : c.remaining = x :: rest := congrArg Front.remaining hfront
    exact hplace.getElem?_position hrem
  · intro x hfront
    rw [← List.getLast?_eq_getElem?]
    exact hplace.last x hfront
  · intro stop hstop
    cases hrem : c.remaining with
    | cons x rest =>
      rw [consume_of_remaining hrem] at hstop
      cases hstop
    | nil => rw [consume_of_exhausted hrem]
  · intro stop hstop
    obtain ⟨rfl, hspent⟩ := Use.spent_of_stop hstop
    -- a spent front has everything behind it
    have hrem : e.cursor.remaining = [] := congrArg Front.remaining hspent
    have hn : e.cursor.position = n := hplace'.position_eq hrem
    have hcursor : e.cursor = ⟨n, .spent⟩ := by
      rw [← hn, ← hspent]
    refine ⟨by rw [hn], hcursor, fun later => ⟨?_, ?_, ?_⟩⟩
    · exact kept_after (R := fun c d => c.front = .spent → d = c) kept_spent e.cursor later hspent
    · rw [hcursor]
      rfl
    · rw [hcursor]
      rfl

/-- A repetition that accepts the last element asks for it once more: it reports the end of the
    stream, and nothing that is done afterwards changes that. -/
theorem history_repetition :
    let b : Matcher Char NoRule (List Char) := .zeroOrMore (.item 'b')
    let c := (ofList ['a', 'b']).after [.takeWhile (· == 'a')]
    let e := (Use.run .empty 4 b .empty).effect c
    c.position = 1 ∧ (ofList ['a', 'b']).returned [.takeWhile (· == 'a')] = ['a'] ∧
      e.stop = some ⟨2⟩ ∧ e.cursor = ⟨2, .spent⟩ ∧
      ∀ later, e.cursor.after later = e.cursor ∧ e.cursor.peek = .error ⟨2⟩ := by
  have hplace : (ofList ['a', 'b']).after [.takeWhile (· == 'a')] = ⟨1, .ready 'b' []⟩ := by cbv
  intro b c e
  have hc : c = ⟨1, .ready 'b' []⟩ := hplace
  have hstop : e.stop = some ⟨2⟩ := by
    show ((Use.run .empty 4 b .empty).effect c).stop = some ⟨2⟩
    rw [hc]
    rfl
  have hposition : c.position = 1 := congrArg position hc
  obtain ⟨-, hreturned, -, -, -, -, hend⟩ :=
    history ['a', 'b'] [.takeWhile (· == 'a')] (.run .empty 4 b .empty)
  obtain ⟨-, hcursor, hlater⟩ := hend ⟨2⟩ hstop
  rw [hplace] at hreturned
  exact ⟨hposition, hreturned, hstop, hcursor, fun later => ⟨(hlater later).1, (hlater later).2.1⟩⟩

end Cursor
end Forward
