/-
  Repetitions: how often something has to occur.

  A repetition is described by two bounds, each included, excluded or missing, and normalised
  once into the least and the most number of occurrences.  The numbers are machine words, and
  the normal form is computed without ever leaving them: the lower bound saturates, and an
  upper bound that excludes zero, which no count can meet, becomes the range from one to zero.
-/

namespace Forward

/-- One end of a range of counts. -/
inductive Bound where
  | included (n : UInt64)
  | excluded (n : UInt64)
  | unbounded
  deriving DecidableEq, Repr

/-- The smallest count that a lower end lets through, saturating at the largest word. -/
def Bound.least : Bound → UInt64
  | .included n => n
  | .excluded n => if n = 18446744073709551615 then n else n + 1
  | .unbounded => 0

/-- The least and, if there is one, the most number of occurrences. -/
structure Repetition where
  least : UInt64
  most : Option UInt64
  deriving DecidableEq, Repr

namespace Repetition

/-- The counts between two ends. -/
def between (lower upper : Bound) : Repetition :=
  match upper with
  | .included n => ⟨lower.least, some n⟩
  | .excluded n => if n = 0 then ⟨1, some 0⟩ else ⟨lower.least, some (n - 1)⟩
  | .unbounded => ⟨lower.least, none⟩

/-- Any number of times. -/
def zeroOrMore : Repetition := between (.included 0) .unbounded

/-- Once or oftener. -/
def oneOrMore : Repetition := between (.included 1) .unbounded

/-- Once or not at all. -/
def zeroOrOne : Repetition := between (.included 0) (.included 1)

/-- At most `n` times. -/
def atMost (n : UInt64) : Repetition := between (.included 0) (.included n)

/-- Exactly `n` times. -/
def exactly (n : UInt64) : Repetition := between (.included n) (.included n)

/-- Is `count` in the range? -/
def admits (r : Repetition) (count : Nat) : Bool :=
  decide (r.least.toNat ≤ count) &&
    match r.most with
    | some most => decide (count ≤ most.toNat)
    | none => true

/-- No count is below zero, so a range that excludes zero at its upper end admits nothing. -/
theorem admits_excluded_zero (lower : Bound) (count : Nat) :
    (between lower (.excluded 0)).admits count = false := by
  have least : (between lower (.excluded 0)).least.toNat = 1 := rfl
  have most : (between lower (.excluded 0)).most = some 0 := rfl
  simp only [admits, least, most, Bool.and_eq_false_imp, decide_eq_true_eq, decide_eq_false_iff_not]
  intro h
  have : (0 : UInt64).toNat = 0 := rfl
  omega

end Repetition
end Forward
