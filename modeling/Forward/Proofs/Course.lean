/-
  The course of a repetition: which attempts it makes, and what comes of them.

  A repetition makes one attempt after the other, each where the one before it stopped.
  `successive a s n` is the scan behind the first `n` of them, and `reported a s n` what they
  report.  A `Course` says how many there are: the first ones match, and they end with the one that
  brings their number to the upper end, or with one that fails or reads past the end.

  Every repetition that comes to an answer has a course (`exists_course`), and a course decides the
  whole run: the outcome, the scan and the report.  The attempts are those of the course
  (`Course.gather_eq`), and whether there were enough of them is a question to the range
  (`admits_between_iff`).  Both together are `Matcher.run_repeated_between`.

  The two ends of the range are normalised in machine words.  Seen as numbers the normal form is
  what one would write down without regard to the word size, but for a lower end that excludes the
  largest word, and the count would have to be that large to tell (`least_toNat`, `most_between`).
-/
import Forward.Matcher.Bound
import Forward.Proofs.Yields

namespace Forward

variable {α τ : Type}

/-! ## Ends of a range -/

namespace Bound

/-- A range with this lower end starts at the count or before it. -/
def StartsBy : Bound → Nat → Prop
  | .included n, count => n.toNat ≤ count
  | .excluded n, count => n.toNat < count
  | .unbounded, _ => True

/-- A range with this upper end reaches as far as the count. -/
def ReachesTo : Bound → Nat → Prop
  | .included n, count => count ≤ n.toNat
  | .excluded n, count => count < n.toNat
  | .unbounded, _ => True

/-- The range between the two ends contains the count. -/
def Contains (lower upper : Bound) (count : Nat) : Prop :=
  lower.StartsBy count ∧ upper.ReachesTo count

instance : (lower : Bound) → (count : Nat) → Decidable (lower.StartsBy count)
  | .included n, count => inferInstanceAs (Decidable (n.toNat ≤ count))
  | .excluded n, count => inferInstanceAs (Decidable (n.toNat < count))
  | .unbounded, _ => inferInstanceAs (Decidable True)

instance : (upper : Bound) → (count : Nat) → Decidable (upper.ReachesTo count)
  | .included n, count => inferInstanceAs (Decidable (count ≤ n.toNat))
  | .excluded n, count => inferInstanceAs (Decidable (count < n.toNat))
  | .unbounded, _ => inferInstanceAs (Decidable True)

instance (lower upper : Bound) (count : Nat) : Decidable (Contains lower upper count) :=
  inferInstanceAs (Decidable (_ ∧ _))

/-- The first count that a lower end lets through, whatever the size of a word. -/
def floor : Bound → Nat
  | .included n => n.toNat
  | .excluded n => n.toNat + 1
  | .unbounded => 0

/-- The number of matches at which an upper end stops a repetition.  In front of an end that
    excludes zero there is none to be made. -/
def ceiling : Bound → Option Nat
  | .included n => some n.toNat
  | .excluded n => some (n.toNat - 1)
  | .unbounded => none

theorem startsBy_iff (lower : Bound) (count : Nat) :
    lower.StartsBy count ↔ lower.floor ≤ count := by
  cases lower with
  | included n => exact Iff.rfl
  | excluded n => exact Iff.rfl
  | unbounded => exact ⟨fun _ => Nat.zero_le count, fun _ => trivial⟩

/-- The lower end is normalised without an overflow: it stays at the largest word. -/
theorem least_toNat (lower : Bound) : lower.least.toNat = min lower.floor (UInt64.size - 1) := by
  have hsize : UInt64.size = 18446744073709551616 := rfl
  cases lower with
  | included n =>
    have hlt := n.toNat_lt_size
    show n.toNat = min n.toNat (UInt64.size - 1)
    omega
  | excluded n =>
    have hlt := n.toNat_lt_size
    show (if n = 18446744073709551615 then n else n + 1).toNat =
      min (n.toNat + 1) (UInt64.size - 1)
    split
    · next largest =>
      subst largest
      rfl
    · next smaller =>
      have hne : n.toNat ≠ 18446744073709551615 := fun h => smaller (UInt64.toNat_inj.mp h)
      have hadd : (n + 1).toNat = (n.toNat + 1) % UInt64.size := UInt64.toNat_add n 1
      rw [hsize] at hadd
      omega
  | unbounded => rfl

theorem between_excluded (lower : Bound) {n : UInt64} (hn : n ≠ 0) :
    Repetition.between lower (.excluded n) = ⟨lower.least, some (n - 1)⟩ := if_neg hn

/-- The upper end is normalised without an underflow: nothing is taken away from zero. -/
theorem most_between (lower upper : Bound) :
    (Repetition.between lower upper).most.map UInt64.toNat = upper.ceiling := by
  cases upper with
  | included n => rfl
  | excluded n =>
    by_cases hzero : n = 0
    · subst hzero
      rfl
    · have hne : n.toNat ≠ 0 := fun h => hzero (UInt64.toNat_inj.mp h)
      have hpos : 1 ≤ n := by
        rw [UInt64.le_iff_toNat_le]
        exact Nat.pos_of_ne_zero hne
      rw [between_excluded lower hzero]
      exact congrArg some (UInt64.toNat_sub_of_le n 1 hpos)
  | unbounded => rfl

theorem admits_iff (times : Repetition) (count : Nat) :
    times.admits count = true ↔
      times.least.toNat ≤ count ∧
        ∀ most, times.most.map UInt64.toNat = some most → count ≤ most := by
  unfold Repetition.admits
  cases times.most <;> simp

/-- Short of the largest word, the normalised ends admit the counts that the range contains. -/
theorem admits_between_iff (lower upper : Bound) {count : Nat} (small : count < UInt64.size - 1) :
    (Repetition.between lower upper).admits count = true ↔ Contains lower upper count := by
  have hleast : lower.least.toNat ≤ count ↔ lower.StartsBy count := by
    rw [least_toNat, startsBy_iff]
    omega
  cases upper with
  | included n =>
    rw [admits_iff, most_between]
    exact and_congr hleast ⟨fun h => h n.toNat rfl, fun h most hmost => by cases hmost; exact h⟩
  | excluded n =>
    by_cases hzero : n = 0
    · -- the ends are rewritten here, since no count is below zero
      subst hzero
      rw [Repetition.admits_excluded_zero]
      exact ⟨by rintro ⟨⟩, fun h => absurd h.2 (Nat.not_lt_zero count)⟩
    · have hpos : n.toNat ≠ 0 := fun h => hzero (UInt64.toNat_inj.mp h)
      have hreaches : count ≤ n.toNat - 1 ↔ count < n.toNat := by omega
      rw [admits_iff, most_between, between_excluded lower hzero]
      refine and_congr hleast ⟨fun h => hreaches.mp (h _ rfl), fun h most hmost => ?_⟩
      cases hmost
      exact hreaches.mpr h
  | unbounded =>
    rw [admits_iff, most_between]
    exact and_congr hleast ⟨fun _ => trivial, fun _ most hmost => by cases hmost⟩

end Bound

namespace Attempt

/-! ## Rounds and their values -/

theorem Rounds.matched {a : Attempt α τ} {s t : Scan α} {values : List τ}
    (h : Rounds a s values t) (i : Nat) (v : τ) (hv : values[i]? = some v) :
    (a (a.successive s i)).outcome = .matched v := by
  induction h generalizing i with
  | done s => cases hv
  | @round s s₁ s₂ x values first later ih =>
    cases i with
    | zero =>
      obtain rfl : x = v := Option.some.inj hv
      exact first.outcome
    | succ i =>
      rw [successive_succ, first.scan]
      exact ih i hv

theorem rounds_of_matched {a : Attempt α τ} {s : Scan α} {values : List τ}
    (h : ∀ i v, values[i]? = some v → (a (a.successive s i)).outcome = .matched v) :
    Rounds a s values (a.successive s values.length) := by
  induction values generalizing s with
  | nil => exact .done s
  | cons x values ih =>
    have hlater : ∀ i v, values[i]? = some v →
        (a (a.successive (a s).scan i)).outcome = .matched v := by
      intro i v hv
      rw [← successive_succ]
      exact h (i + 1) v hv
    rw [List.length_cons, successive_succ]
    exact .round ⟨h 0 x rfl, rfl⟩ (ih hlater)

/-- Rounds that use up the room. -/
theorem Rounds.gather_capped {a : Attempt α τ} {s t : Scan α} {values : List τ}
    (h : Rounds a s values t) (full : Outcome (List τ)) :
    Attempt.gather full a values.length s =
      ⟨⟨full.map (values ++ ·), t, a.reported s values.length⟩, values.length⟩ := by
  have hall := h.gather_eq full 0
  rw [Nat.add_zero] at hall
  rw [hall]
  simp [Attempt.gather, Run.map, Run.after, Run.withOutcome]

/-! ## The course of a repetition -/

/-- Attempts are made one after the other, from `s` on, and `made` of them in all.  The first ones
    match with these values, and there are no more of them than the upper end lets through.  They
    are all that is made if their number reaches that end.  Otherwise there is one more, which fails
    or reads past the end. -/
structure Course (a : Attempt α τ) (upper : Bound) (s : Scan α) (values : List τ) (made : Nat) :
    Prop where
  matched : ∀ i v, values[i]? = some v → (a (a.successive s i)).outcome = .matched v
  within : ∀ most, upper.ceiling = some most → values.length ≤ most
  stops : (upper.ceiling = some values.length ∧ made = values.length) ∨
    (upper.ceiling ≠ some values.length ∧ made = values.length + 1 ∧
      ((a (a.successive s values.length)).outcome = .failed ∨
        ∃ stop, (a (a.successive s values.length)).outcome = .ended stop))

/-- What the attempts of a course give: the read past the end, if there is one, and otherwise the
    values of those that match. -/
structure Course.Gives (a : Attempt α τ) (s : Scan α) (values : List τ) (made : Nat)
    (o : Outcome (List τ)) : Prop where
  ended : ∀ i stop, i < made → (a (a.successive s i)).outcome = .ended stop → o = .ended stop
  matched : (∀ i stop, i < made → (a (a.successive s i)).outcome ≠ .ended stop) →
    o = .matched values

section

variable {a : Attempt α τ} {upper : Bound} {s : Scan α} {values : List τ} {made : Nat}
  {times : Repetition} {limit : Nat}

theorem Course.Gives.ne_unfinished {o : Outcome (List τ)} (h : Gives a s values made o) :
    o ≠ .unfinished := by
  by_cases hended : ∃ i stop, i < made ∧ (a (a.successive s i)).outcome = .ended stop
  · obtain ⟨i, stop, hi, hstop⟩ := hended
    rw [h.ended i stop hi hstop]
    rintro ⟨⟩
  · rw [h.matched fun i stop hi hstop => hended ⟨i, stop, hi, hstop⟩]
    rintro ⟨⟩

/-- In front of an upper end of zero no attempt is made. -/
theorem course_nil (hzero : upper.ceiling = some 0) : Course a upper s [] 0 where
  matched := by rintro i v ⟨⟩
  within most hmost := Nat.zero_le most
  stops := Or.inl ⟨hzero, rfl⟩

/-- The attempts that match do not read past the end. -/
theorem Course.not_ended (h : Course a upper s values made) {i : Nat} (hi : i < values.length)
    (stop : PastEnd) : (a (a.successive s i)).outcome ≠ .ended stop := by
  rw [h.matched i values[i] (List.getElem?_eq_getElem hi)]
  rintro ⟨⟩

/-- A last attempt decides: if it fails it leaves the values, and if it reads past the end nothing
    else. -/
theorem Course.gives_of_last (h : Course a upper s values made)
    (last : (a (a.successive s values.length)).outcome = .failed ∨
      ∃ stop, (a (a.successive s values.length)).outcome = .ended stop) :
    Gives a s values (values.length + 1)
      (closing values (a (a.successive s values.length)).outcome) where
  ended i stop hi hstop := by
    rcases Nat.lt_succ_iff_lt_or_eq.mp hi with hlt | rfl
    · exact absurd hstop (h.not_ended hlt stop)
    · rw [hstop]
      rfl
  matched hnone := by
    rcases last with hfailed | ⟨stop, hended⟩
    · rw [hfailed]
      rfl
    · exact absurd hended (hnone _ stop (Nat.lt_succ_self _))

/-- There is room for one more attempt behind those that match, short of the upper end. -/
theorem Course.exists_room (h : Course a upper s values made)
    (hmost : times.most.map UInt64.toNat = upper.ceiling)
    (hopen : upper.ceiling ≠ some values.length)
    (enough : times.most = none → values.length + 1 ≤ limit) :
    ∃ more, room times limit = values.length + (more + 1) := by
  have hlt : values.length < room times limit := by
    unfold room
    cases htimes : times.most with
    | none => exact enough htimes
    | some most =>
      rw [htimes] at hmost
      have hle : values.length ≤ most.toNat := h.within _ hmost.symm
      have hne : most.toNat ≠ values.length := fun heq => hopen (by rw [← hmost, ← heq]; rfl)
      exact Nat.lt_of_le_of_ne hle hne.symm
  exact ⟨room times limit - values.length - 1, by omega⟩

/-- A course decides the attempts of a repetition that has the room for it. -/
theorem Course.gather_eq (h : Course a upper s values made)
    (hmost : times.most.map UInt64.toNat = upper.ceiling)
    (enough : times.most = none → made ≤ limit) :
    ∃ o, Gives a s values made o ∧ a.gathered times limit s =
      ⟨o, a.successive s made, a.reported s made⟩ ∧
      (gather (full times) a (room times limit) s).attempts = made := by
  have hrounds := rounds_of_matched h.matched
  unfold gathered
  rcases h.stops with ⟨hcapped, rfl⟩ | ⟨hopen, rfl, hlast⟩
  · rw [← hmost] at hcapped
    obtain ⟨most, htimes, hlength⟩ := Option.map_eq_some_iff.mp hcapped
    have hroom : room times limit = values.length := by
      rw [room, htimes]
      exact hlength
    have hfull : (full times : Outcome (List τ)) = .matched [] := by rw [full, htimes]
    rw [hroom, hfull, hrounds.gather_capped]
    refine ⟨.matched values, ⟨fun i stop hi hstop => absurd hstop (h.not_ended hi stop),
      fun _ => rfl⟩, ?_, rfl⟩
    show Run.mk (.matched (values ++ [])) _ _ = _
    rw [List.append_nil]
  · obtain ⟨more, hroom⟩ := h.exists_room hmost hopen enough
    rw [hroom, hrounds.gather_last (ne_matched_of_last hlast)]
    exact ⟨_, h.gives_of_last hlast, rfl, rfl⟩

/-- A repetition that comes to an answer has a course. -/
theorem exists_course (hmost : times.most.map UInt64.toNat = upper.ceiling)
    (h : (a.gathered times limit s).Finished) :
    ∃ values made, Course a upper s values made ∧ (times.most = none → made ≤ limit) := by
  obtain ⟨values, t, hrounds, hstops⟩ := exists_rounds_of_gather h
  obtain rfl := hrounds.eq_successive
  have hceiling : ∀ n, upper.ceiling = some n → room times limit = n := by
    intro n hn
    rw [← hmost] at hn
    obtain ⟨most, htimes, rfl⟩ := Option.map_eq_some_iff.mp hn
    rw [room, htimes]
  rcases hstops with ⟨hlength, hfull⟩ | ⟨hlt, hlast⟩
  · -- the room is used up, so that there is an upper end
    cases htimes : times.most with
    | none =>
      rw [full, htimes] at hfull
      exact absurd rfl hfull
    | some most =>
      rw [htimes] at hmost
      have hcapped : upper.ceiling = some values.length := by
        rw [← hmost, hlength, hceiling _ hmost.symm]
        rfl
      refine ⟨values, values.length, ⟨hrounds.matched, fun n hn => ?_, Or.inl ⟨hcapped, rfl⟩⟩,
        by rintro ⟨⟩⟩
      rw [hcapped] at hn
      exact Nat.le_of_eq (Option.some.inj hn)
  · refine ⟨values, values.length + 1, ⟨hrounds.matched, fun n hn => ?_, Or.inr ⟨?_, rfl, hlast⟩⟩,
      fun hnone => ?_⟩
    · rw [← hceiling n hn]
      exact Nat.le_of_lt hlt
    · intro hcapped
      rw [hceiling _ hcapped] at hlt
      exact Nat.lt_irrefl _ hlt
    · rw [room, hnone] at hlt
      exact hlt

end

end Attempt

/-! ## Repetitions between two ends -/

open Attempt

theorem Bound.most_eq_none_iff (lower upper : Bound) :
    (Repetition.between lower upper).most = none ↔ upper = .unbounded := by
  rw [← Option.map_eq_none_iff (f := UInt64.toNat), most_between]
  cases upper with
  | included n => exact ⟨by rintro ⟨⟩, by rintro ⟨⟩⟩
  | excluded n => exact ⟨by rintro ⟨⟩, by rintro ⟨⟩⟩
  | unbounded => exact ⟨fun _ => rfl, fun _ => rfl⟩

/-- Counting the rounds of a repetition changes nothing about whether it comes to an answer. -/
theorem Attempt.finished_repeated_iff (a : Attempt α τ) (times : Repetition) (limit : Nat)
    (s : Scan α) : (a.repeated times limit s).Finished ↔ (a.gathered times limit s).Finished := by
  unfold Run.Finished
  rw [outcome_repeated]
  cases (a.gathered times limit s).outcome with
  | matched values =>
    show counted times values ≠ .unfinished ↔ _
    unfold counted
    split <;> simp
  | _ => simp [Outcome.bind]

/-- A course decides a repetition between two ends. -/
theorem Attempt.Course.repeated_between {a : Attempt α τ} {upper : Bound} {s : Scan α}
    {values : List τ} {made limit : Nat} (h : Course a upper s values made) (lower : Bound)
    (enough : upper = .unbounded → made ≤ limit) (few : values.length < UInt64.size - 1) :
    let r := a.repeated (.between lower upper) limit s
    (∀ i stop, i < made → (a (a.successive s i)).outcome = .ended stop → r.outcome = .ended stop) ∧
    ((∀ i stop, i < made → (a (a.successive s i)).outcome ≠ .ended stop) →
      r.outcome = if Bound.Contains lower upper values.length then .matched values else .failed) ∧
    r.scan = a.successive s made ∧
    r.trace = if upper = .unbounded then [.repeated s.position made (a.reported s made)]
      else a.reported s made := by
  intro r
  have hmost := Bound.most_between lower upper
  have hnone := Bound.most_eq_none_iff lower upper
  have hroom : (Repetition.between lower upper).most = none → made ≤ limit :=
    fun hn => enough (hnone.mp hn)
  obtain ⟨o, hgives, hrun, hmade⟩ := h.gather_eq hmost hroom
  have houtcome : r.outcome = o.bind (counted (.between lower upper)) := by
    show (a.repeated _ _ _).outcome = _
    rw [outcome_repeated, hrun]
  refine ⟨fun i stop hi hstop => ?_, fun hclean => ?_, ?_, ?_⟩
  · rw [houtcome, hgives.ended i stop hi hstop]
    rfl
  · rw [houtcome, hgives.matched hclean]
    show (if (Repetition.between lower upper).admits values.length then _ else _) = _
    have hadmits := Bound.admits_between_iff lower upper few
    by_cases hin : Bound.Contains lower upper values.length
    · rw [if_pos hin, if_pos (hadmits.mpr hin)]
    · rw [if_neg hin, if_neg fun hyes => hin (hadmits.mp hyes)]
  · show (a.repeated _ _ _).scan = _
    rw [scan_repeated, hrun]
  · show (a.repeated _ _ _).trace = _
    by_cases hopen : upper = .unbounded
    · rw [trace_repeated_of_unbounded (hnone.mpr hopen), hrun, hmade, if_pos hopen]
    · rw [trace_repeated_of_bounded (fun hn => hopen (hnone.mp hn)), hrun, if_neg hopen]

namespace Matcher

variable {ρ : Type → Type} [BEq α]

/-- Bounded repetition of a matcher, with ends of every kind.

    * It comes to an answer exactly if its attempts have a course: they are made one after the
      other, each where the one before it stopped, until one fails or reads past the end, or until
      as many have matched as the upper end lets through.  Without an upper end the bound on the
      run has to leave room for them.
    * Short of `2 ^ 64 - 1` matches, an attempt that reads past the end decides the outcome.
      Otherwise the repetition matches with the values in their order if the range contains their
      number, and fails if it does not.  It leaves the scan that the last attempt left and reports
      what the attempts reported, in their order and no others.
    * In front of an upper end of zero nothing is attempted.
    * The ends are normalised without overflow or underflow. -/
theorem run_repeated_between (g : Grammar α ρ) (bound : Nat) (m : Matcher α ρ τ)
    (lower upper : Bound) (s : Scan α) :
    let a := m.run g bound
    let r := (repeated (.between lower upper) m).run g bound s
    (r.Finished ↔
      ∃ values made, a.Course upper s values made ∧ (upper = .unbounded → made ≤ bound)) ∧
    (∀ values made, a.Course upper s values made → (upper = .unbounded → made ≤ bound) →
      values.length < UInt64.size - 1 →
      (∀ i stop, i < made → (a (a.successive s i)).outcome = .ended stop →
        r.outcome = .ended stop) ∧
      ((∀ i stop, i < made → (a (a.successive s i)).outcome ≠ .ended stop) →
        r.outcome = if Bound.Contains lower upper values.length then .matched values
          else .failed) ∧
      r.scan = a.successive s made ∧
      r.trace = if upper = .unbounded then [.repeated s.position made (a.reported s made)]
        else a.reported s made) ∧
    (upper = .included 0 ∨ upper = .excluded 0 →
      r = ⟨if Bound.Contains lower upper 0 then .matched [] else .failed, s, []⟩) ∧
    lower.least.toNat = min lower.floor (UInt64.size - 1) ∧
    (Repetition.between lower upper).most.map UInt64.toNat = upper.ceiling := by
  intro a r
  have hmost := Bound.most_between lower upper
  have hnone := Bound.most_eq_none_iff lower upper
  refine ⟨⟨fun h => ?_, ?_⟩, fun values made h enough few => h.repeated_between lower enough few,
    fun hzero => ?_, Bound.least_toNat lower, hmost⟩
  · obtain ⟨values, made, hcourse, enough⟩ :=
      exists_course hmost ((finished_repeated_iff a _ bound s).mp h)
    exact ⟨values, made, hcourse, fun hopen => enough (hnone.mpr hopen)⟩
  · rintro ⟨values, made, hcourse, enough⟩
    have hroom : (Repetition.between lower upper).most = none → made ≤ bound :=
      fun hn => enough (hnone.mp hn)
    obtain ⟨o, hgives, hrun, -⟩ := hcourse.gather_eq hmost hroom
    refine (finished_repeated_iff a _ bound s).mpr ?_
    rw [hrun]
    exact hgives.ne_unfinished
  · have hceiling : upper.ceiling = some 0 := by rcases hzero with rfl | rfl <;> rfl
    have hopen : upper ≠ .unbounded := by rcases hzero with rfl | rfl <;> rintro ⟨⟩
    have hcourse : a.Course upper s [] 0 := course_nil hceiling
    have hroom : upper = .unbounded → 0 ≤ bound := fun h => absurd h hopen
    have few : ([] : List τ).length < UInt64.size - 1 := Nat.zero_lt_succ _
    obtain ⟨-, houtcome, hscan, htrace⟩ := hcourse.repeated_between lower hroom few
    rw [if_neg hopen] at htrace
    have hout := houtcome fun i stop hi => absurd hi (Nat.not_lt_zero i)
    show Run.mk r.outcome r.scan r.trace = _
    exact congr (congr (congrArg Run.mk hout) hscan) htrace

/-- From three to one is an empty range.  One letter is taken for it, and then it fails. -/
theorem run_repeated_between_reversed :
    let m : Matcher Char NoRule Char := item 'a'
    let s := Scan.ofList ['a', 'a', 'b']
    let r := (repeated (.between (.included 3) (.included 1)) m).run .empty 0 s
    (m.run .empty 0).Course (.included 1) s ['a'] 1 ∧ r.outcome = .failed ∧
      r.scan.position = 1 := by
  intro m s r
  have hcourse : (m.run .empty 0).Course (.included 1) s ['a'] 1 := by
    refine ⟨fun i v hv => ?_, fun most hmost => ?_, Or.inl ⟨rfl, rfl⟩⟩
    · obtain ⟨hi, rfl⟩ := List.getElem?_eq_some_iff.mp hv
      obtain rfl : i = 0 := Nat.lt_one_iff.mp hi
      rfl
    · cases hmost
      exact Nat.le_refl _
  obtain ⟨-, hdecided, -⟩ := run_repeated_between .empty 0 m (.included 3) (.included 1) s
  obtain ⟨-, hout, hscan, -⟩ := hdecided ['a'] 1 hcourse (by rintro ⟨⟩) (by decide)
  refine ⟨hcourse, ?_, ?_⟩
  · refine (hout fun i stop hi hstop => ?_).trans (if_neg (by decide))
    obtain rfl : i = 0 := Nat.lt_one_iff.mp hi
    cases hstop
  · show Scan.position (Run.scan _) = 1
    rw [hscan]
    rfl

end Matcher
end Forward
