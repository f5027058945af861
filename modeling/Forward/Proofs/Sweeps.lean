/-
  Sweeps: taking elements as long as they pass a test, in one go and one by one.

  A run takes the longest prefix that passes its test and leaves the cursor past it
  (`Cursor.takeWhile_eq`); the last element of a stream, once taken, is not looked at again.  The
  repetition of the same test takes the same elements to the same place (`Attempt.rounds_satisfy`),
  but there it makes one more attempt.

  So the two agree if this attempt fails: on an element that is left, or, with nothing left, on the
  element that is still on show.  `Cursor.Stops` is the condition for it in terms of where they begin.
  If elements were taken and none is left, the one on show has just passed the test, and taking it
  again is a read past the end.
-/
import Mathlib.Data.List.TakeWhile
import Forward.Proofs.History
import Forward.Proofs.Progress
import Forward.Proofs.Yields

namespace Forward

variable {α τ : Type} {ρ : Type → Type}

/-! ## Behind some elements -/

namespace Cursor

theorem past_add (m n : Nat) (c : Cursor α) : c.past (m + n) = (c.past m).past n := by
  induction m generalizing c with
  | zero => rw [Nat.zero_add, past]
  | succ m ih => rw [Nat.add_right_comm, past, past, ih]

theorem remaining_past_one {c : Cursor α} {x : α} {xs : List α} (h : c.remaining = x :: xs) :
    (c.past 1).remaining = xs := by
  rw [past_succ_of_remaining h]
  exact Front.remaining_after x xs

theorem remaining_past {run rest : List α} {c : Cursor α} (h : c.remaining = run ++ rest) :
    (c.past run.length).remaining = rest := by
  have htook : c.remaining = run ++ (c.past run.length).remaining := (took_past h .empty).remaining
  exact List.append_cancel_left (htook.symm.trans h)

theorem position_past {run rest : List α} {c : Cursor α} (h : c.remaining = run ++ rest) :
    (c.past run.length).position = c.position + run.length := (took_past h .empty).position

/-- Behind the last one of some elements the front is the one that taking it leaves. -/
theorem front_past {run rest : List α} {last : α} {c : Cursor α}
    (h : c.remaining = run ++ last :: rest) :
    (c.past (run.length + 1)).front = .after last rest := by
  induction run generalizing c with
  | nil => rw [List.length_nil, past_succ_of_remaining h, past]
  | cons x run ih =>
    rw [List.length_cons, past_succ_of_remaining h]
    exact ih (Front.remaining_after x (run ++ last :: rest))

/-- A front is not spent by reads that return an element. -/
theorem spent_of_past {run rest : List α} {c : Cursor α} (h : c.remaining = run ++ rest)
    (spent : (c.past run.length).front = .spent) : c.front = .spent := by
  induction run generalizing c with
  | nil => exact spent
  | cons x run ih =>
    rw [List.length_cons, past_succ_of_remaining h] at spent
    have hafter : Front.after x (run ++ rest) = .spent :=
      ih (c := ⟨c.position + 1, .after x (run ++ rest)⟩) (Front.remaining_after x _) spent
    cases hrest : run ++ rest with
    | nil => rw [hrest] at hafter; cases hafter
    | cons y ys => rw [hrest] at hafter; cases hafter

/-- With nothing left, an element on show is one that has been taken before. -/
theorem front_of_shown {c : Cursor α} {x : α} (exhausted : c.remaining = [])
    (shown : c.shown = some x) : c.front = .pending x := by
  rcases c with ⟨position, front⟩
  cases front with
  | ready current rest => cases exhausted
  | pending last => exact congrArg Front.pending (Option.some.inj shown)
  | spent => cases shown

/-- Past all that remains of a stream, its last element is on show, unless the cursor was spent
    before. -/
theorem Over.shown_past {xs run : List α} {c : Cursor α} (place : c.Over xs)
    (h : c.remaining = run) (y : α) :
    (c.past run.length).shown = some y ↔ c.front ≠ .spent ∧ xs.getLast? = some y := by
  have hsplit : c.remaining = run ++ [] := by rw [h, List.append_nil]
  have hpast : (c.past run.length).Over xs := kept_past (kept_over xs) _ c .empty place
  have hexhausted := remaining_past hsplit
  constructor
  · intro hshown
    refine ⟨fun spent => ?_, hpast.last y (front_of_shown hexhausted hshown)⟩
    have hkept : c.past run.length = c := kept_past kept_spent _ c .empty spent
    rw [hkept, Cursor.shown, spent] at hshown
    cases hshown
  · rintro ⟨unspent, hlast⟩
    cases hfront : (c.past run.length).front with
    | ready x rest =>
      rw [Cursor.remaining, hfront] at hexhausted
      cases hexhausted
    | pending last =>
      have hy : some last = some y := (hpast.last last hfront).symm.trans hlast
      rw [Cursor.shown, hfront]
      exact hy
    | spent => exact absurd (spent_of_past hsplit hfront) unspent

theorem Over.position_past {xs run : List α} {c : Cursor α} (place : c.Over xs)
    (h : c.remaining = run) : (c.past run.length).position = xs.length := by
  have hsplit : c.remaining = run ++ [] := by rw [h, List.append_nil]
  have hpast : (c.past run.length).Over xs := kept_past (kept_over xs) _ c .empty place
  exact hpast.position_eq (remaining_past hsplit)

/-- A repetition of the test comes to an element that fails it: one of those that are left, or, with
    none left, the one that is still on show. -/
def Stops (p : α → Bool) (c : Cursor α) : Prop :=
  (∃ x ∈ c.remaining, p x = false) ∨
    (c.remaining = [] ∧ ∃ x, c.front = .pending x ∧ p x = false)

end Cursor

/-! ## Repetitions of a test -/

namespace Attempt

open Cursor

/-- An element that is next and passes the test is passed. -/
theorem yields_satisfy_past {p : α → Bool} {c : Cursor α} (captures : Captures α) {x : α}
    {xs : List α} (next : c.remaining = x :: xs) (passes : p x = true) :
    Yields (satisfy p) ⟨c, captures⟩ (.matched x) ⟨c.past 1, captures⟩ := by
  rw [past_succ_of_remaining next]
  exact yields_satisfy next passes

/-- Elements that pass the test are taken one after the other. -/
theorem rounds_satisfy {p : α → Bool} {run rest : List α} {c : Cursor α} (captures : Captures α)
    (h : c.remaining = run ++ rest) (passes : ∀ x ∈ run, p x = true) :
    Rounds (satisfy p) ⟨c, captures⟩ run ⟨c.past run.length, captures⟩ := by
  induction run generalizing c with
  | nil => exact .done _
  | cons x run ih =>
    obtain ⟨hx, hrun⟩ := List.forall_mem_cons.mp passes
    exact .round (yields_satisfy_past captures h hx) (ih (remaining_past_one h) hrun)

theorem fails_of_dropWhile {p : α → Bool} {xs ys : List α} {y : α}
    (h : xs.dropWhile p = y :: ys) : p y = false := by
  have hhead := List.head?_dropWhile_not p xs
  rw [h] at hhead
  exact hhead

/-- Where the test comes to an element that fails it, its repetition takes the longest prefix that
    passes it, and stops behind that. -/
theorem yields_of_stops {p : α → Bool} {c : Cursor α} (captures : Captures α)
    (stops : c.Stops p) {times : Repetition} (unbounded : times.most = none) {limit : Nat}
    (enough : c.remaining.length < limit) :
    Yields ((satisfy p).repeated times limit) ⟨c, captures⟩
      (counted times (c.remaining.takeWhile p))
      ⟨c.past (c.remaining.takeWhile p).length, captures⟩ := by
  have hsplit : c.remaining = c.remaining.takeWhile p ++ c.remaining.dropWhile p :=
    List.takeWhile_append_dropWhile.symm
  have hrounds := rounds_satisfy captures hsplit fun x hx => List.mem_takeWhile_imp hx
  have hfew : (c.remaining.takeWhile p).length < limit :=
    Nat.lt_of_le_of_lt (List.takeWhile_sublist p).length_le enough
  refine hrounds.yields_repeated ?_ unbounded hfew
  cases hrest : c.remaining.dropWhile p with
  | cons y ys =>
    rw [hrest] at hsplit
    exact yields_satisfy_failed (shown_of_remaining (remaining_past hsplit))
      (fails_of_dropWhile hrest)
  | nil =>
    rcases stops with ⟨x, hx, hfails⟩ | ⟨hnone, x, hpending, hfails⟩
    · have hpasses := List.dropWhile_eq_nil_iff.mp hrest x hx
      rw [hfails] at hpasses
      cases hpasses
    · -- nothing is taken, and the element on show is the one from before
      rw [hnone]
      exact yields_satisfy_failed (congrArg Front.shown hpending) hfails

/-- Otherwise its repetition takes all elements, and then reads past the end. -/
theorem yields_of_not_stops {p : α → Bool} {c : Cursor α} (captures : Captures α)
    (goes : ¬ c.Stops p) {times : Repetition} (unbounded : times.most = none) {limit : Nat}
    (enough : c.remaining.length < limit) :
    Yields ((satisfy p).repeated times limit) ⟨c, captures⟩
      (.ended ⟨c.position + c.remaining.length⟩)
      ⟨⟨c.position + c.remaining.length, .spent⟩, captures⟩ := by
  have hall : ∀ x ∈ c.remaining, p x = true := by
    intro x hx
    cases hpx : p x with
    | true => rfl
    | false => exact absurd (Or.inl ⟨x, hx, hpx⟩) goes
  have hsplit : c.remaining = c.remaining ++ [] := (List.append_nil _).symm
  have hrounds := rounds_satisfy captures hsplit hall
  have hposition := position_past hsplit
  refine hrounds.yields_repeated_ended ?_ unbounded enough
  rw [← hposition]
  refine yields_satisfy_ended (remaining_past hsplit) fun x hshown => ?_
  rcases List.eq_nil_or_concat c.remaining with hnone | ⟨run, last, hrun⟩
  · -- nothing was taken, and the element on show is the one from before
    rw [hnone] at hshown
    cases hpx : p x with
    | true => rfl
    | false => exact absurd (Or.inr ⟨hnone, x, front_of_shown hnone hshown, hpx⟩) goes
  · -- the element on show is the last one that was taken
    rw [List.concat_eq_append] at hrun
    have hfront := front_past hrun
    have hlength : c.remaining.length = run.length + 1 := by
      rw [hrun, List.length_append, List.length_singleton]
    rw [hlength, Cursor.shown, hfront] at hshown
    obtain rfl : last = x := Option.some.inj hshown
    exact hall last (by rw [hrun]; exact List.mem_append_right run List.mem_cons_self)

end Attempt

/-! ## Runs and repetitions -/

open Attempt Cursor

variable [BEq α]

/-- A sweep and the repetition of its test, from any cursor.  The sweep takes the longest prefix that
    passes, in as many tests as it takes elements and one more if it stops before the end.  It leaves
    the cursor past this prefix: a pending cursor as it was, and none spent that was not.  Skipping
    does the same and counts.  The repetition agrees with it just where it `Stops`, and reads past
    the end everywhere else. -/
theorem Matcher.run_zeroOrMore_satisfy (g : Grammar α ρ) (p : α → Bool) (c : Cursor α)
    (captures : Captures α) {bound : Nat} (enough : c.remaining.length < bound) :
    let sweep := c.takeWhile p
    let r := (zeroOrMore (satisfy p)).run g bound ⟨c, captures⟩
    sweep.taken = c.remaining.takeWhile p ∧
    sweep.cursor.remaining = c.remaining.dropWhile p ∧
    sweep.cursor.position = c.position + sweep.taken.length ∧
    (sweep.cursor.front = .spent → c.front = .spent) ∧
    (∀ x, c.front = .pending x → sweep.cursor = c) ∧
    sweep.tests = sweep.taken.length + (if sweep.cursor.atEnd then 0 else 1) ∧
    c.skipWhile p = ⟨sweep.taken.length, sweep.tests, sweep.cursor⟩ ∧
    ((r.outcome = .matched sweep.taken ∧ r.scan = ⟨sweep.cursor, captures⟩) ↔ c.Stops p) ∧
    (¬ c.Stops p → r.outcome = .ended ⟨c.position + c.remaining.length⟩ ∧
      r.scan = ⟨⟨c.position + c.remaining.length, .spent⟩, captures⟩) := by
  intro sweep r
  have hsweep : sweep = ⟨c.remaining.takeWhile p,
      (c.remaining.takeWhile p).length + (if c.remaining.dropWhile p = [] then 0 else 1),
      c.past (c.remaining.takeWhile p).length⟩ := c.takeWhile_eq p
  have hsplit : c.remaining = c.remaining.takeWhile p ++ c.remaining.dropWhile p :=
    List.takeWhile_append_dropWhile.symm
  have hremaining := remaining_past hsplit
  have unbounded : Repetition.zeroOrMore.most = none := rfl
  rw [hsweep]
  refine ⟨rfl, hremaining, position_past hsplit, spent_of_past hsplit, fun x hpending => ?_, ?_,
    ?_, ⟨fun h => ?_, fun stops => ?_⟩, fun goes => ?_⟩
  · have hnone : c.remaining = [] := congrArg Front.remaining hpending
    show c.past (c.remaining.takeWhile p).length = c
    rw [hnone]
    rfl
  · have hatEnd := (c.past (c.remaining.takeWhile p).length).atEnd_iff
    rw [hremaining] at hatEnd
    simp only [hatEnd]
  · rw [c.skipWhile_eq p, c.takeWhile_eq p]
  · -- a repetition that reads past the end does not match
    refine Classical.not_not.mp fun goes => ?_
    have hended : r.outcome = _ := (yields_of_not_stops captures goes unbounded enough).outcome
    rw [h.1] at hended
    cases hended
  · have hmatched := yields_of_stops captures stops unbounded enough
    exact ⟨hmatched.outcome, hmatched.scan⟩
  · have hended := yields_of_not_stops captures goes unbounded enough
    exact ⟨hended.outcome, hended.scan⟩

/-- Two elements that pass, and nothing behind them: both are swept up, and the repetition ends past
    them.  Where the second one is on show, it is not swept up again, but a test that it fails is
    repeated no times. -/
theorem Matcher.run_zeroOrMore_satisfy_to_the_end :
    ((Cursor.ofList [1, 1]).takeWhile (· == 1)).taken = [1, 1] ∧
    ((zeroOrMore (satisfy (· == 1))).run Grammar.empty 3 (Scan.ofList [1, 1])).outcome =
      .ended ⟨2⟩ ∧
    ((⟨2, .pending 1⟩ : Cursor Nat).takeWhile (· == 1)).cursor = ⟨2, .pending 1⟩ ∧
    ((zeroOrMore (satisfy (· == 2))).run Grammar.empty 1 ⟨⟨2, .pending 1⟩, .empty⟩).outcome =
      .matched ([] : List Nat) := by
  have hpass := run_zeroOrMore_satisfy Grammar.empty (· == 1) (Cursor.ofList [1, 1]) .empty
    (show 2 < 3 by decide)
  have hshow := run_zeroOrMore_satisfy Grammar.empty (· == 1) (⟨2, .pending 1⟩ : Cursor Nat) .empty
    (show 0 < 1 by decide)
  have hagain := run_zeroOrMore_satisfy Grammar.empty (· == 2) (⟨2, .pending 1⟩ : Cursor Nat) .empty
    (show 0 < 1 by decide)
  obtain ⟨htaken, -, -, -, -, -, -, -, hended⟩ := hpass
  obtain ⟨-, -, -, -, hkept, -⟩ := hshow
  obtain ⟨hnone, -, -, -, -, -, -, hagrees, -⟩ := hagain
  have hmatched := (hagrees.mpr (.inr ⟨rfl, 1, rfl, rfl⟩)).1
  refine ⟨htaken, (hended ?_).1, hkept 1 rfl, hmatched.trans (congrArg Outcome.matched hnone)⟩
  rintro (⟨x, hx, hfails⟩ | ⟨hnone, -⟩)
  · revert x
    decide
  · cases hnone

end Forward
