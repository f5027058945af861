/-
  Sets of code points, written as ranges.

  A character class of Unicode is given by a list of ranges, both ends included, in ascending
  order, so that a search can stop at the first range that begins behind the character.  The type
  says that the order is kept, and with it the search finds what there is (`CodePoints.holds_iff`).
-/

namespace Forward.Text

namespace Ranges

/-- Is every range in order, and behind the one before it? -/
def ascending : List (Nat × Nat) → Bool
  | [] => true
  | [(first, last)] => decide (first ≤ last)
  | (first, last) :: (next, limit) :: later =>
    decide (first ≤ last) && decide (last < next) && ascending ((next, limit) :: later)

/-- Does one of the ranges hold `n`?  A range that begins behind `n` ends the search. -/
def holds : List (Nat × Nat) → Nat → Bool
  | [], _ => false
  | (first, last) :: later, n =>
    if n < first then false else if n ≤ last then true else holds later n

variable {first last : Nat} {later : List (Nat × Nat)}

theorem le_of_ascending (h : ascending ((first, last) :: later) = true) : first ≤ last := by
  cases later with
  | nil => simpa [ascending] using h
  | cons _ _ =>
    simp only [ascending, Bool.and_eq_true, decide_eq_true_eq] at h
    exact h.1.1

theorem ascending_of_cons (h : ascending ((first, last) :: later) = true) :
    ascending later = true := by
  cases later with
  | nil => rfl
  | cons _ _ =>
    simp only [ascending, Bool.and_eq_true, decide_eq_true_eq] at h
    exact h.2

/-- All later ranges begin behind the first one. -/
theorem lt_of_ascending (h : ascending ((first, last) :: later) = true) :
    ∀ range ∈ later, last < range.1 := by
  induction later generalizing first last with
  | nil => simp
  | cons next later ih =>
    obtain ⟨start, limit⟩ := next
    intro range inside
    have hnext := ascending_of_cons h
    simp only [ascending, Bool.and_eq_true, decide_eq_true_eq] at h
    rcases List.mem_cons.mp inside with rfl | inside
    · exact h.1.2
    · -- the next range ends behind its own start, and later ranges begin behind that
      have start_le := le_of_ascending hnext
      have := ih hnext range inside
      omega

/-- Where the ranges ascend, stopping the search early loses nothing. -/
theorem holds_iff {ranges : List (Nat × Nat)} (h : ascending ranges = true) (n : Nat) :
    holds ranges n = true ↔ ∃ range ∈ ranges, range.1 ≤ n ∧ n ≤ range.2 := by
  induction ranges with
  | nil => simp [holds]
  | cons range later ih =>
    obtain ⟨first, last⟩ := range
    have le := le_of_ascending h
    simp only [holds, List.mem_cons, exists_eq_or_imp]
    by_cases small : n < first
    · have none_later : ¬ ∃ range ∈ later, range.1 ≤ n ∧ n ≤ range.2 := by
        rintro ⟨range, inside, start_le, -⟩
        have := lt_of_ascending h range inside
        omega
      simp only [small, if_true, none_later, or_false, Bool.false_eq_true, false_iff]
      omega
    · by_cases large : n ≤ last
      · simp only [small, large, if_false, if_true, true_iff]
        exact Or.inl ⟨Nat.not_lt.mp small, trivial⟩
      · simp only [small, large, if_false, ih (ascending_of_cons h), and_false, false_or]

end Ranges

/-- Ranges of code points, both ends included, each behind the one before it. -/
structure CodePoints where
  ranges : List (Nat × Nat)
  ascending : Ranges.ascending ranges = true

namespace CodePoints

/-- Is `n` one of the code points? -/
def holds (points : CodePoints) (n : Nat) : Bool := Ranges.holds points.ranges n

theorem holds_iff (points : CodePoints) (n : Nat) :
    points.holds n = true ↔ ∃ range ∈ points.ranges, range.1 ≤ n ∧ n ≤ range.2 :=
  Ranges.holds_iff points.ascending n

end CodePoints
end Forward.Text
