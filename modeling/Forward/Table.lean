/-
  Tables: what each key of a finite list of pairs stands for.

  A key that is listed more than once stands for the value of its last pair.
-/

namespace Forward

/-- Pairs of a key and what it stands for; of two pairs with one key the later counts. -/
abbrev Table (κ ν : Type) := List (κ × ν)

namespace Table

variable {κ ν : Type} [DecidableEq κ]

/-- What `key` stands for. -/
def lookup : Table κ ν → κ → Option ν
  | [], _ => none
  | (other, value) :: later, key =>
    match lookup later key with
    | some found => some found
    | none => if other = key then some value else none

/-- Is `key` a key of the table? -/
def contains (t : Table κ ν) (key : κ) : Bool := (t.lookup key).isSome

theorem contains_iff (t : Table κ ν) (key : κ) :
    t.contains key = true ↔ key ∈ t.map Prod.fst := by
  simp only [contains]
  induction t with
  | nil => simp [lookup]
  | cons pair later ih =>
    simp only [lookup, List.map_cons, List.mem_cons, ← ih]
    cases lookup later key with
    | some found => simp
    | none =>
      by_cases same : pair.1 = key
      · simp [same]
      · have other : ¬ key = pair.1 := fun h => same h.symm
        simp [same, other]

end Table
end Forward
