/-
  Laws of attempts: which ways of putting attempts together are the same attempt.

  Two attempts are the same if they come out alike, leave the same scan behind and report the same
  trace, wherever they are made.  Since nothing is ever put back, the brackets in a chain of
  attempts do not matter: going on from a value is associative, with `succeed` as its unit, and
  so is falling through to another attempt, with `fail` as its unit.

  Attempts whose values are lists are mostly wanted with all their values in one list.
  `Attempt.series` is the form for that, and the laws say that a series may be cut anywhere
  (`series_append`) and that the choices of a list may be cut anywhere (`firstOf_append`).

  A repetition is its rounds, counted (`outcome_repeated`, `scan_repeated`): what holds of rounds
  in whatever room, and of counting, holds of repetitions with and without an upper bound.  Only
  what they report is different.

  In front of the laws it is said once which ways a run can go (`andThen_cases`, `either_cases`,
  `gather_cases`): what is to be shown of every run is shown for each of these ways.
-/
import Forward.Attempt

namespace Forward

namespace Run

variable {α τ : Type}

theorem after_nil (r : Run α τ) : r.after [] = r := rfl

theorem after_after (first second : Trace α) (r : Run α τ) :
    (r.after second).after first = r.after (first ++ second) := by
  show Run.mk r.outcome r.scan (first ++ (second ++ r.trace)) = r.after (first ++ second)
  rw [← List.append_assoc]
  rfl

end Run

namespace Attempt

variable {α ρ σ τ : Type}

/-! ## Attempts that read at most one element -/

/-- Taking an element reports nothing and leaves what is captured alone. -/
theorem take_touches (choose : α → Option τ) (s : Scan α) :
    (take choose s).trace = [] ∧ (take choose s).scan.captures = s.captures := by
  unfold take
  split
  · exact ⟨rfl, rfl⟩
  · split
    · exact ⟨rfl, rfl⟩
    · split <;> exact ⟨rfl, rfl⟩

theorem trace_look (s : Scan α) : (look s).trace = [] := by
  unfold look
  split <;> rfl

/-! ## Which ways a run can go -/

/-- Two attempts one after the other go the way of both, or stop with the first one and without a
    value. -/
theorem andThen_cases (a : Attempt α σ) (next : σ → Attempt α τ) (s : Scan α) :
    (∃ x, (a s).outcome = .matched x ∧
        a.andThen next s = (next x (a s).scan).after (a s).trace) ∨
      ∃ o, a.andThen next s = (a s).withOutcome o ∧ (∀ v, o ≠ .matched v) ∧
        (o = .unfinished → (a s).outcome = .unfinished) := by
  simp only [Attempt.andThen]
  cases (a s).outcome with
  | matched x => exact Or.inl ⟨x, rfl, rfl⟩
  | failed => exact Or.inr ⟨.failed, rfl, by rintro _ ⟨⟩, by rintro ⟨⟩⟩
  | ended stop => exact Or.inr ⟨.ended stop, rfl, by rintro _ ⟨⟩, by rintro ⟨⟩⟩
  | unfinished => exact Or.inr ⟨.unfinished, rfl, by rintro _ ⟨⟩, fun _ => rfl⟩

/-- Of two attempts one of which has to do, the second one is made where the first one failed. -/
theorem either_cases (a b : Attempt α τ) (s : Scan α) :
    ((a s).outcome = .failed ∧ a.either b s = (b (a s).scan).after (a s).trace) ∨
      ((a s).outcome ≠ .failed ∧ a.either b s = a s) := by
  simp only [Attempt.either]
  cases hx : (a s).outcome with
  | failed => exact Or.inl ⟨rfl, rfl⟩
  | _ => exact Or.inr ⟨by rintro ⟨⟩, rfl⟩

/-- Where there is room for a round it is made.  If it succeeds the others follow, and otherwise
    it is the last one and adds no value. -/
theorem gather_cases (full : Outcome (List τ)) (a : Attempt α τ) (room : Nat) (s : Scan α) :
    (∃ x, (a s).outcome = .matched x ∧ gather full a (room + 1) s =
        ⟨((gather full a room (a s).scan).run.map (x :: ·)).after (a s).trace,
          (gather full a room (a s).scan).attempts + 1⟩) ∨
      ∃ o, gather full a (room + 1) s = ⟨(a s).withOutcome o, 1⟩ ∧
        (∀ values, o = .matched values → values = []) ∧
        (o = .unfinished → (a s).outcome = .unfinished) := by
  simp only [Attempt.gather]
  cases (a s).outcome with
  | matched x => exact Or.inl ⟨x, rfl, rfl⟩
  | failed =>
    refine Or.inr ⟨.matched [], rfl, ?_, by rintro ⟨⟩⟩
    intro values hvalues
    exact (Outcome.matched.inj hvalues).symm
  | ended stop => exact Or.inr ⟨.ended stop, rfl, by rintro _ ⟨⟩, by rintro ⟨⟩⟩
  | unfinished => exact Or.inr ⟨.unfinished, rfl, by rintro _ ⟨⟩, fun _ => rfl⟩

/-- Of two things the trace is that of the first one, if the second one reports nothing. -/
theorem trace_both_of_silent (a : Attempt α σ) {b : Attempt α τ} (h : ∀ s, (b s).trace = [])
    (s : Scan α) : (a.both b s).trace = (a s).trace := by
  rcases a.andThen_cases (fun x => b.map fun y => (x, y)) s with ⟨x, -, hrun⟩ | ⟨o, hrun, -⟩
  · rw [both, hrun]
    show (a s).trace ++ (b (a s).scan).trace = (a s).trace
    rw [h, List.append_nil]
  · rw [both, hrun]
    rfl

/-! ## Going on from a value -/

/-- Making something of a value is going on with it without looking. -/
theorem map_eq_andThen (f : σ → τ) (a : Attempt α σ) :
    a.map f = a.andThen fun value => succeed (f value) := by
  funext s
  simp only [Attempt.map, Attempt.andThen]
  obtain ⟨outcome, s', trace⟩ := a s
  cases outcome with
  | matched value =>
    show Run.mk (.matched (f value)) s' trace = Run.mk (.matched (f value)) s' (trace ++ [])
    rw [List.append_nil]
  | _ => rfl

theorem succeed_andThen (value : σ) (next : σ → Attempt α τ) :
    (succeed value).andThen next = next value := by
  funext s
  show (next value s).after [] = next value s
  exact Run.after_nil _

theorem map_id (a : Attempt α τ) : a.map (fun value => value) = a := by
  funext s
  show (a s).map (fun value => value) = a s
  obtain ⟨outcome, s', trace⟩ := a s
  cases outcome <;> rfl

theorem andThen_succeed (a : Attempt α τ) : (a.andThen fun value => succeed value) = a := by
  rw [← map_eq_andThen fun value => value]
  exact map_id a

/-- A chain of attempts may be bracketed in any way. -/
theorem andThen_assoc (a : Attempt α ρ) (next : ρ → Attempt α σ) (last : σ → Attempt α τ) :
    (a.andThen next).andThen last = a.andThen fun value => (next value).andThen last := by
  funext s
  simp only [Attempt.andThen]
  obtain ⟨outcome, s₁, trace⟩ := a s
  cases outcome with
  | matched value =>
    -- the second attempt decides whether the third one is made
    simp only [Run.after]
    obtain ⟨outcome, s₂, trace'⟩ := next value s₁
    cases outcome with
    | matched value => exact (Run.after_after trace trace' (last value s₂)).symm
    | _ => rfl
  | _ => rfl

theorem map_andThen (f : ρ → σ) (a : Attempt α ρ) (next : σ → Attempt α τ) :
    (a.map f).andThen next = a.andThen fun value => next (f value) := by
  rw [map_eq_andThen, andThen_assoc]
  exact congrArg a.andThen (funext fun value => succeed_andThen (f value) next)

theorem andThen_map (f : σ → τ) (a : Attempt α ρ) (next : ρ → Attempt α σ) :
    (a.andThen next).map f = a.andThen fun value => (next value).map f := by
  rw [map_eq_andThen, andThen_assoc]
  exact congrArg a.andThen (funext fun value => (map_eq_andThen f (next value)).symm)

theorem map_map (f : ρ → σ) (g : σ → τ) (a : Attempt α ρ) :
    (a.map f).map g = a.map fun value => g (f value) := by
  rw [map_eq_andThen g, map_andThen, map_eq_andThen]

/-- Making something of two values is going on with both of them. -/
theorem both_map (a : Attempt α ρ) (b : Attempt α σ) (f : ρ × σ → τ) :
    (a.both b).map f = a.andThen fun x => b.map fun y => f (x, y) := by
  rw [both, andThen_map]
  exact congrArg a.andThen (funext fun x => map_map (x, ·) f b)

theorem map_both (f : ρ → σ) (a : Attempt α ρ) (b : Attempt α τ) :
    (a.map f).both b = (a.both b).map fun taken => (f taken.1, taken.2) := by
  rw [both_map, both, map_andThen]

/-! ## All of a list -/

theorem inOrder_singleton (a : Attempt α τ) : inOrder [a] = a.map fun value => [value] :=
  (map_eq_andThen (fun value => [value]) a).symm

/-- The attempts of two lists, one after the other, are those of the first list and then those of
    the second. -/
theorem inOrder_append (as bs : List (Attempt α τ)) :
    inOrder (as ++ bs) = (inOrder as).andThen fun xs => (inOrder bs).map (xs ++ ·) := by
  induction as with
  | nil =>
    show inOrder bs = (succeed []).andThen fun xs => (inOrder bs).map (xs ++ ·)
    rw [succeed_andThen]
    exact (map_id (inOrder bs)).symm
  | cons a as ih =>
    rw [List.cons_append, inOrder, inOrder, ih, andThen_assoc]
    refine congrArg a.andThen (funext fun x => ?_)
    rw [andThen_map, map_andThen]
    refine congrArg (inOrder as).andThen (funext fun xs => ?_)
    rw [map_map]
    rfl

/-- Attempts whose values are lists, one after the other, with all values in one list. -/
def series (as : List (Attempt α (List τ))) : Attempt α (List τ) := (inOrder as).map List.flatten

theorem series_append (as bs : List (Attempt α (List τ))) :
    series (as ++ bs) = (series as).andThen fun xs => (series bs).map (xs ++ ·) := by
  rw [series, inOrder_append, andThen_map, series, map_andThen]
  refine congrArg (inOrder as).andThen (funext fun xs => ?_)
  rw [series, map_map, map_map]
  exact congrArg (Attempt.map · (inOrder bs)) (funext fun ys => List.flatten_append)

theorem series_singleton (a : Attempt α (List τ)) : series [a] = a := by
  rw [series, inOrder_singleton, map_map]
  simp only [List.flatten_singleton]
  exact map_id a

/-- A first attempt and then a series. -/
theorem series_cons (a : Attempt α (List τ)) (as : List (Attempt α (List τ))) :
    series (a :: as) = a.andThen fun xs => (series as).map (xs ++ ·) := by
  rw [← List.singleton_append, series_append, series_singleton]

/-! ## One of a list -/

theorem either_assoc (a b c : Attempt α τ) : (a.either b).either c = a.either (b.either c) := by
  funext s
  simp only [Attempt.either]
  obtain ⟨outcome, s₁, trace⟩ := a s
  cases outcome with
  | failed =>
    simp only [Run.after]
    obtain ⟨outcome, s₂, trace'⟩ := b s₁
    cases outcome with
    | failed => exact (Run.after_after trace trace' (c s₂)).symm
    | _ => rfl
  | _ => rfl

theorem fail_either (a : Attempt α τ) : fail.either a = a := by
  funext s
  show (a s).after [] = a s
  exact Run.after_nil _

theorem either_fail (a : Attempt α τ) : a.either fail = a := by
  funext s
  simp only [Attempt.either]
  obtain ⟨outcome, s', trace⟩ := a s
  cases outcome with
  | failed =>
    show Run.mk .failed s' (trace ++ []) = Run.mk .failed s' trace
    rw [List.append_nil]
  | _ => rfl

theorem firstOf_singleton (a : Attempt α τ) : firstOf [a] = a := either_fail a

/-- The choices of two lists are those of the first list, and those of the second if all of the
    first fail. -/
theorem firstOf_append (as bs : List (Attempt α τ)) :
    firstOf (as ++ bs) = (firstOf as).either (firstOf bs) := by
  induction as with
  | nil => exact (fail_either (firstOf bs)).symm
  | cons a as ih =>
    rw [List.cons_append, firstOf, firstOf, ih, either_assoc]

/-! ## Again and again

  With and without an upper bound, a repetition gathers rounds and then counts them.  The two kinds
  differ in the room for rounds, and in what comes of it that the room is used up. -/

/-- How many rounds there is room for. -/
def room (times : Repetition) (limit : Nat) : Nat :=
  match times.most with
  | some most => most.toNat
  | none => limit

/-- What comes of a repetition whose room is used up. -/
def full (times : Repetition) : Outcome (List τ) :=
  match times.most with
  | some _ => .matched []
  | none => .unfinished

theorem eq_nil_of_full {times : Repetition} {values : List τ} (h : full times = .matched values) :
    values = [] := by
  unfold full at h
  split at h
  · exact (Outcome.matched.inj h).symm
  · cases h

theorem full_ne_ended (times : Repetition) (stop : PastEnd) :
    (full times : Outcome (List τ)) ≠ .ended stop := by
  unfold full
  split <;> rintro ⟨⟩

theorem full_ne_unfinished {times : Repetition} (bounded : times.most ≠ none) :
    (full times : Outcome (List τ)) ≠ .unfinished := by
  unfold full
  split
  · rintro ⟨⟩
  · next unbounded => exact absurd unbounded bounded

/-- The rounds of a repetition, before they are counted. -/
def gathered (times : Repetition) (limit : Nat) (a : Attempt α τ) : Attempt α (List τ) :=
  fun s => (gather (full times) a (room times limit) s).run

/-- What comes of some rounds once they are counted. -/
def counted (times : Repetition) (values : List τ) : Outcome (List τ) :=
  if times.admits values.length then .matched values else .failed

theorem outcome_repeated (times : Repetition) (limit : Nat) (a : Attempt α τ) (s : Scan α) :
    (a.repeated times limit s).outcome = (a.gathered times limit s).outcome.bind (counted times) := by
  unfold repeated gathered full room
  cases times.most <;> rfl

theorem scan_repeated (times : Repetition) (limit : Nat) (a : Attempt α τ) (s : Scan α) :
    (a.repeated times limit s).scan = (a.gathered times limit s).scan := by
  unfold repeated gathered full room
  cases times.most <;> rfl

/-- A repetition succeeds with the values of its rounds, if their number is admitted. -/
theorem matched_of_repeated {a : Attempt α τ} {times : Repetition} {limit : Nat} {s : Scan α}
    {values : List τ} (h : (a.repeated times limit s).outcome = .matched values) :
    (a.gathered times limit s).outcome = .matched values ∧ times.admits values.length = true := by
  rw [outcome_repeated] at h
  cases ho : (a.gathered times limit s).outcome with
  | matched all =>
    rw [ho] at h
    have hcount : counted times all = .matched values := h
    unfold counted at hcount
    split at hcount
    · next hadmits =>
      obtain rfl := Outcome.matched.inj hcount
      exact ⟨rfl, hadmits⟩
    · cases hcount
  | _ => rw [ho] at h; cases h

/-- A repetition with an upper bound reports what its rounds report. -/
theorem trace_repeated_of_bounded {times : Repetition} (bounded : times.most ≠ none) (limit : Nat)
    (a : Attempt α τ) (s : Scan α) :
    (a.repeated times limit s).trace = (a.gathered times limit s).trace := by
  unfold repeated gathered full room
  cases hmost : times.most with
  | none => exact absurd hmost bounded
  | some most => rfl

/-- A repetition without an upper bound reports a loop, with what its rounds report inside. -/
theorem trace_repeated_of_unbounded {times : Repetition} (unbounded : times.most = none)
    (limit : Nat) (a : Attempt α τ) (s : Scan α) :
    (a.repeated times limit s).trace = [.repeated s.position
      (gather (full times) a (room times limit) s).attempts (a.gathered times limit s).trace] := by
  unfold repeated gathered full room
  rw [unbounded]
  rfl

end Attempt
end Forward
