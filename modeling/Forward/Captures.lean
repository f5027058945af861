/-
  Captures: what the names of a match stand for.

  A `Captures` holds the last value captured under each name, in the order in which the names
  were first captured.  No name stands in it twice, and the type says so, which makes `size`
  the number of captured names.

  The lemmas of this file say what capturing a value does to the view `get?`.
-/

namespace Forward

/-- The last value captured under each name. -/
structure Captures (α : Type) where
  entries : List (String × α)
  distinct : (entries.map Prod.fst).Nodup
  deriving DecidableEq

namespace Captures

variable {α : Type}

/-- Nothing is captured yet. -/
def empty : Captures α := ⟨[], List.nodup_nil⟩

instance : Inhabited (Captures α) := ⟨empty⟩

/-! ## Looking a name up -/

/-- The last value captured under `name`. -/
def get? (c : Captures α) (name : String) : Option α := c.entries.lookup name

/-- Has anything been captured under `name`? -/
def contains (c : Captures α) (name : String) : Bool := (c.get? name).isSome

/-- How many names have a value. -/
def size (c : Captures α) : Nat := c.entries.length

/-- Has nothing been captured? -/
def isEmpty (c : Captures α) : Bool := c.entries.isEmpty

/-! ## Capturing a value -/

/-- The entries with `value` under `name`: in the place of the earlier value, or at the end. -/
def replace (name : String) (value : α) : List (String × α) → List (String × α)
  | [] => [(name, value)]
  | (other, old) :: rest =>
    if other = name then (name, value) :: rest else (other, old) :: replace name value rest

/-- Capturing adds at most its own name. -/
theorem mem_names_replace {name other : String} {value : α} {entries : List (String × α)}
    (h : other ∈ (replace name value entries).map Prod.fst) :
    other = name ∨ other ∈ entries.map Prod.fst := by
  induction entries with
  | nil => simpa [replace] using h
  | cons entry rest ih =>
    simp only [replace] at h
    split at h
    · simp only [List.map_cons, List.mem_cons] at h ⊢
      exact h.imp_right Or.inr
    · simp only [List.map_cons, List.mem_cons] at h ⊢
      rcases h with h | h
      · exact Or.inr (Or.inl h)
      · exact (ih h).imp_right Or.inr

/-- Capturing keeps the names distinct. -/
theorem nodup_replace (name : String) (value : α) {entries : List (String × α)}
    (h : (entries.map Prod.fst).Nodup) : ((replace name value entries).map Prod.fst).Nodup := by
  induction entries with
  | nil => simp [replace]
  | cons entry rest ih =>
    simp only [List.map_cons, List.nodup_cons] at h
    simp only [replace]
    split
    · next same => simpa [← same] using h
    · next differs =>
      -- a name among the replaced entries is the new one or one of the old ones
      simp only [List.map_cons, List.nodup_cons]
      refine ⟨fun inside => ?_, ih h.2⟩
      rcases mem_names_replace inside with same | inside
      · exact differs same
      · exact h.1 inside

/-- Capture `value` under `name`; an earlier value under that name is forgotten. -/
def capture (c : Captures α) (name : String) (value : α) : Captures α :=
  ⟨replace name value c.entries, nodup_replace name value c.distinct⟩

/-- An entry in front of others is found under its own name. -/
theorem lookup_entry (name other : String) (value : α) (rest : List (String × α)) :
    ((name, value) :: rest).lookup other = if name = other then some value else rest.lookup other := by
  by_cases h : name = other
  · rw [if_pos h, h, List.lookup_cons_self]
  · have test : (other == name) = false := beq_eq_false_iff_ne.mpr (Ne.symm h)
    rw [if_neg h, List.lookup_cons, test]

theorem lookup_replace (name other : String) (value : α) (entries : List (String × α)) :
    (replace name value entries).lookup other =
      if name = other then some value else entries.lookup other := by
  induction entries with
  | nil => exact lookup_entry name other value []
  | cons entry rest ih =>
    rcases entry with ⟨key, old⟩
    rw [replace, lookup_entry]
    split
    · next same =>
      rw [lookup_entry, same]
      split <;> rfl
    · next differs =>
      rw [lookup_entry, ih]
      by_cases h : key = other
      · rw [if_pos h, if_pos h, if_neg fun same => differs (h.trans same.symm)]
      · rw [if_neg h, if_neg h]

/-- A capture is seen under its own name and leaves every other name as it was. -/
theorem get?_capture (c : Captures α) (name other : String) (value : α) :
    (c.capture name value).get? other = if name = other then some value else c.get? other :=
  lookup_replace name other value c.entries

/-! ## Comparing -/

/-- Do the same names stand for the same values?  The order of the entries plays no part. -/
def agrees [BEq α] (c d : Captures α) : Bool :=
  c.size == d.size && c.entries.all fun entry => d.get? entry.1 == some entry.2

example : ((empty.capture "a" 1).capture "b" 2).agrees ((empty.capture "b" 2).capture "a" 1) :=
  by decide

end Captures
end Forward
