/-
  Agreement: different ways to put the same match together.

  Lists of matchers are attempted one after the other, or one instead of the other, by a loop that
  stops early.  Pairs of matchers do the same in a single step.  The laws of this file say that the
  loops are nothing but their steps: a list is a chain of pairs, however it is cut, a repetition of
  a fixed length is a list of copies, and what may be missing is a repetition of at most one round.
  A partial function of a value is a continuation that may be nothing that fits.

  All laws are equations between runs.  So the two sides come out alike at every scan, also where a
  part fails or reads past the end in the middle, and they leave the same cursor and the same
  captures behind and report the same in the same order.  Where the values are not the same they
  have another shape only: different values stay different (`Nested.toList_inj`).

  The laws are shown of attempts, as equations between ways to build them.  For matchers they are
  put together in `Matcher.combinators_agree`.
-/
import Forward.Matcher
import Forward.Proofs.Laws

namespace Forward

variable {α π σ τ : Type} {ρ : Type → Type}

/-! ## Nested pairs -/

/-- The values of `n + 1` things, each of them paired with those of all things before it. -/
def Nested (τ : Type) : Nat → Type
  | 0 => τ
  | n + 1 => Nested τ n × τ

namespace Nested

/-- The values one after the other. -/
def toList : {n : Nat} → Nested τ n → List τ
  | 0, value => [value]
  | _ + 1, (earlier, value) => toList earlier ++ [value]

/-- Nested pairs are known from their values. -/
theorem toList_inj {n : Nat} {xs ys : Nested τ n} : xs.toList = ys.toList ↔ xs = ys := by
  refine ⟨fun h => ?_, congrArg toList⟩
  induction n with
  | zero => exact List.singleton_inj.mp h
  | succ n ih =>
    obtain ⟨hearlier, hlast⟩ := List.append_inj' h rfl
    exact Prod.ext (ih hearlier) (List.singleton_inj.mp hlast)

end Nested

/-- The values of something that may be missing, of which there are none or one. -/
def Occurrence.toList (o : Occurrence τ) : List τ := o.toOption.toList

theorem Occurrence.toList_inj {o o' : Occurrence τ} : o.toList = o'.toList ↔ o = o' := by
  refine ⟨fun h => ?_, congrArg toList⟩
  have hoption : o.toOption = o'.toOption := by
    rw [← Option.head?_toList (o := o.toOption), ← Option.head?_toList (o := o'.toOption)]
    exact congrArg List.head? h
  rw [← ofOption_toOption o, hoption, ofOption_toOption]

namespace Attempt

/-! ## All of a list, as pairs -/

/-- The attempts of two lists are a pair. -/
theorem inOrder_append_both (as bs : List (Attempt α τ)) :
    inOrder (as ++ bs) = ((inOrder as).both (inOrder bs)).map fun taken => taken.1 ++ taken.2 := by
  rw [inOrder_append, both_map]

/-- The attempts of a list and one behind them are a pair. -/
theorem inOrder_concat (as : List (Attempt α τ)) (a : Attempt α τ) :
    inOrder (as ++ [a]) = ((inOrder as).both a).map fun taken => taken.1 ++ [taken.2] := by
  rw [inOrder_append, inOrder_singleton, both_map]
  exact congrArg (inOrder as).andThen (funext fun xs => map_map (fun x => [x]) (xs ++ ·) a)

/-! ## One of a list, as pairs -/

/-- Choices bracketed from the left. -/
theorem firstOf_cons_eq_foldl (a : Attempt α τ) (later : List (Attempt α τ)) :
    firstOf (a :: later) = later.foldl either a := by
  induction later generalizing a with
  | nil => exact firstOf_singleton a
  | cons b later ih =>
    calc firstOf (a :: b :: later)
      _ = (a.either b).either (firstOf later) := (either_assoc a b (firstOf later)).symm
      _ = later.foldl either (a.either b) := ih (a.either b)

/-- Choices bracketed from the right. -/
theorem firstOf_concat_eq_foldr (earlier : List (Attempt α τ)) (a : Attempt α τ) :
    firstOf (earlier ++ [a]) = earlier.foldr either a := by
  induction earlier with
  | nil => exact firstOf_singleton a
  | cons b earlier ih => exact congrArg b.either ih

/-! ## A fixed number of rounds -/

/-- Rounds of which there have to be as many as there is room for are attempts in order. -/
theorem gather_all (a : Attempt α τ) (n : Nat) (s : Scan α) :
    let r := (gather (.matched []) a n s).run
    r.withOutcome (r.outcome.bind fun values =>
      if values.length = n then .matched values else .failed) = inOrder (List.replicate n a) s := by
  induction n generalizing s with
  | zero => rfl
  | succ n ih =>
    have hlater := ih (a s).scan
    simp only [List.replicate_succ, gather, inOrder, andThen]
    cases (a s).outcome with
    | matched x =>
      -- one value more on both sides, in front of the values of the later rounds
      show _ = ((inOrder (List.replicate n a) (a s).scan).map (x :: ·)).after (a s).trace
      rw [← hlater]
      obtain ⟨⟨outcome, t, trace⟩, attempts⟩ := gather (.matched []) a n (a s).scan
      cases outcome with
      | matched values =>
        show Run.mk (if values.length + 1 = n + 1 then .matched (x :: values) else .failed) _ _ =
          Run.mk (Outcome.map (x :: ·) (if values.length = n then .matched values else .failed)) _ _
        by_cases hlength : values.length = n
        · rw [if_pos hlength, if_pos (congrArg (· + 1) hlength)]
          rfl
        · rw [if_neg hlength, if_neg fun h => hlength (Nat.succ.inj h)]
          rfl
      | _ => rfl
    | _ => rfl

theorem admits_exactly (n : UInt64) (count : Nat) :
    (Repetition.exactly n).admits count = decide (count = n.toNat) := by
  show (decide (n.toNat ≤ count) && decide (count ≤ n.toNat)) = _
  rw [← Bool.decide_and]
  exact decide_eq_decide.mpr (by omega)

/-- A repetition of a fixed length is a list of copies, whatever the bound on other repetitions. -/
theorem repeated_exactly (a : Attempt α τ) (n : UInt64) (limit : Nat) :
    a.repeated (.exactly n) limit = inOrder (List.replicate n.toNat a) := by
  funext s
  have hmost : (Repetition.exactly n).most = some n := rfl
  rw [← gather_all]
  simp only [repeated, hmost, admits_exactly, decide_eq_true_eq]

/-- At most one round is the attempt, which may fail. -/
theorem repeated_atMost_one (a : Attempt α τ) (limit : Nat) :
    a.repeated (.atMost 1) limit = a.optional.map Occurrence.toList := by
  funext s
  have hmost : (Repetition.atMost 1).most = some 1 := rfl
  have hroom : (1 : UInt64).toNat = 0 + 1 := rfl
  unfold Attempt.map Attempt.repeated Attempt.optional
  simp only [hmost, hroom, Attempt.gather]
  obtain ⟨outcome, s', trace⟩ := a s
  cases outcome with
  | matched x =>
    show Run.mk (.matched [x]) s' (trace ++ []) = Run.mk (.matched [x]) s' trace
    rw [List.append_nil]
  | _ => rfl

/-! ## Partial functions -/

/-- What a partial function makes of a value is a continuation, and where it makes nothing of it
    the continuation fails. -/
theorem filterMap_eq_andThen (f : σ → Option τ) (a : Attempt α σ) :
    a.filterMap f = a.andThen fun x => match f x with
      | some y => succeed y
      | none => fail := by
  funext s
  simp only [Attempt.filterMap, Attempt.andThen]
  obtain ⟨outcome, s', trace⟩ := a s
  cases outcome with
  | matched x =>
    cases hx : f x with
    | some y =>
      simp only [Outcome.bind, hx]
      show Run.mk (.matched y) s' trace = Run.mk (.matched y) s' (trace ++ [])
      rw [List.append_nil]
    | none =>
      simp only [Outcome.bind, hx]
      show Run.mk .failed s' trace = Run.mk .failed s' (trace ++ [])
      rw [List.append_nil]
  | _ => rfl

end Attempt

/-! ## Matchers -/

namespace Matcher

open Attempt

/-- The parts in pairs: the first two, these and the third, all of these and the fourth. -/
def chained : {n : Nat} → (Fin (n + 1) → Matcher α ρ τ) → Matcher α ρ (Nested τ n)
  | 0, parts => parts 0
  | n + 1, parts => both (chained fun i : Fin (n + 1) => parts i.castSucc) (parts (Fin.last (n + 1)))

variable [BEq α] (g : Grammar α ρ) (bound : Nat)

/-- All parts in order are the parts in pairs. -/
theorem run_inOrder_eq_chained {n : Nat} (parts : Fin (n + 1) → Matcher α ρ τ) :
    (inOrder parts).run g bound = ((chained parts).run g bound).map Nested.toList := by
  induction n with
  | zero => exact inOrder_singleton ((parts 0).run g bound)
  | succ n ih =>
    have hearlier := ih fun i => parts i.castSucc
    show Attempt.inOrder (List.ofFn fun i => (parts i).run g bound) = _
    rw [List.ofFn_succ_last, inOrder_concat]
    show (((inOrder fun i : Fin (n + 1) => parts i.castSucc).run g bound).both _).map _ = _
    rw [hearlier, map_both, map_map]
    rfl

theorem run_foldl_either (first : Matcher α ρ τ) (later : List (Matcher α ρ τ)) :
    (later.foldl either first).run g bound =
      (later.map fun m => m.run g bound).foldl Attempt.either (first.run g bound) := by
  rw [List.foldl_map]
  exact (List.foldl_hom (fun m : Matcher α ρ τ => m.run g bound) fun _ _ => rfl).symm

theorem run_foldr_either (earlier : List (Matcher α ρ τ)) (last : Matcher α ρ τ) :
    (earlier.foldr either last).run g bound =
      (earlier.map fun m => m.run g bound).foldr Attempt.either (last.run g bound) := by
  rw [List.foldr_map]
  exact (List.foldr_hom (fun m : Matcher α ρ τ => m.run g bound) fun _ _ => rfl).symm

/-- The forms for lists, the forms for pairs and the forms for special cases agree, in every grammar
    and with every bound.

    * A sequence is the chain of its parts in pairs, and pairs are known from their values.
    * A choice is the chain of its branches in pairs, bracketed from the left or from the right.
    * A sequence or a choice may be cut anywhere.
    * Exactly `n` rounds are a sequence of `n` copies, and at most one round is something that may be
      missing, which is known from its values.
    * A partial function of a value is a continuation with its value, or with nothing that fits.
    * Continuations may be bracketed in any way, and `pure` is their unit on both sides. -/
theorem combinators_agree :
    (∀ {τ : Type} (first : Matcher α ρ τ) (later : List (Matcher α ρ τ)),
      (sequence (first :: later)).run g bound =
        (map Nested.toList (chained (first :: later).get)).run g bound) ∧
    (∀ {τ : Type} {n : Nat} (xs ys : Nested τ n), xs.toList = ys.toList ↔ xs = ys) ∧
    (∀ {τ : Type} (first : Matcher α ρ τ) (later : List (Matcher α ρ τ)),
      (choice (first :: later)).run g bound = (later.foldl either first).run g bound) ∧
    (∀ {τ : Type} (earlier : List (Matcher α ρ τ)) (last : Matcher α ρ τ),
      (choice (earlier ++ [last])).run g bound = (earlier.foldr either last).run g bound) ∧
    (∀ {τ : Type} (xs ys : List (Matcher α ρ τ)),
      (sequence (xs ++ ys)).run g bound =
        (map (fun taken => taken.1 ++ taken.2) (both (sequence xs) (sequence ys))).run g bound) ∧
    (∀ {τ : Type} (xs ys : List (Matcher α ρ τ)),
      (choice (xs ++ ys)).run g bound = (either (choice xs) (choice ys)).run g bound) ∧
    (∀ {τ : Type} (m : Matcher α ρ τ) (n : UInt64),
      (repeated (.exactly n) m).run g bound =
        (sequence (List.replicate n.toNat m)).run g bound) ∧
    (∀ {τ : Type} (m : Matcher α ρ τ),
      (atMost 1 m).run g bound = (map Occurrence.toList (optional m)).run g bound) ∧
    (∀ {τ : Type} (o o' : Occurrence τ), o.toList = o'.toList ↔ o = o') ∧
    (∀ {σ τ : Type} (f : σ → Option τ) (m : Matcher α ρ σ),
      (filterMap f m).run g bound = (andThen m fun x => match f x with
        | some y => pure y
        | none => never).run g bound) ∧
    (∀ {π σ τ : Type} (m : Matcher α ρ π) (next : π → Matcher α ρ σ)
      (last : σ → Matcher α ρ τ),
      (andThen (andThen m next) last).run g bound =
        (andThen m fun x => andThen (next x) last).run g bound) ∧
    (∀ {σ τ : Type} (value : σ) (next : σ → Matcher α ρ τ),
      (andThen (pure value) next).run g bound = (next value).run g bound) ∧
    (∀ {τ : Type} (m : Matcher α ρ τ), (andThen m pure).run g bound = m.run g bound) := by
  refine ⟨fun first later => run_inOrder_eq_chained g bound (first :: later).get,
    fun _ _ => Nested.toList_inj, fun first later => ?_, fun earlier last => ?_, fun xs ys => ?_,
    fun xs ys => ?_, fun m n => ?_, fun m => repeated_atMost_one (m.run g bound) bound,
    fun _ _ => Occurrence.toList_inj, fun f m => ?_,
    fun m next last => andThen_assoc (m.run g bound) (fun x => (next x).run g bound)
      fun y => (last y).run g bound,
    fun value next => succeed_andThen value fun x => (next x).run g bound,
    fun m => andThen_succeed (m.run g bound)⟩
  · rw [run_choice, run_foldl_either]
    exact firstOf_cons_eq_foldl _ _
  · rw [run_choice, run_foldr_either, List.map_append]
    exact firstOf_concat_eq_foldr _ _
  · rw [run_sequence, List.map_append, inOrder_append_both, ← run_sequence, ← run_sequence]
    rfl
  · rw [run_choice, List.map_append, firstOf_append, ← run_choice, ← run_choice]
    rfl
  · rw [run_sequence, List.map_replicate]
    exact repeated_exactly (m.run g bound) n bound
  · refine (filterMap_eq_andThen f (m.run g bound)).trans ?_
    refine congrArg (m.run g bound).andThen (funext fun x => ?_)
    show _ = run g bound (match f x with | some y => pure y | none => never)
    cases f x with
    | some y => rfl
    | none => exact (run_never g bound).symm

end Matcher
end Forward
