/-
  Patterns: what a stream of records is expected to look like.

  A pattern is built from leaves that stand for one record, from a leaf that looks at the next
  record without taking it, and from sequences, alternations and repetitions.
-/
import Forward.Pattern.Record

namespace Forward

/-- How often a repeated pattern occurs. -/
inductive Quantifier where
  | oneOrMore
  | zeroOrMore
  | zeroOrOne
  deriving DecidableEq, Repr

/-- A pattern over records. -/
inductive Pattern where
  /-- One record that holds this atom. -/
  | atom (letter : Atom)
  /-- One record that is not nil. -/
  | any
  /-- One nil record. -/
  | nil
  /-- A look at the next record, which stays where it is. -/
  | boundary
  /-- One record that holds one of these atoms. -/
  | oneOf (letters : List Atom)
  /-- One item after the other. -/
  | sequence (items : List Pattern)
  /-- The first branch that fits; later branches are not tried again. -/
  | alternation (branches : List Pattern)
  /-- The body again and again. -/
  | repeated (body : Pattern) (times : Quantifier)

namespace Pattern

/-! ## Induction

  The items of a sequence and the branches of an alternation are patterns themselves.  A proof
  about every pattern may assume its statement for each of them. -/

/-- A statement holds of every pattern if it passes from items, branches and bodies to the whole. -/
@[elab_as_elim, induction_eliminator]
theorem induction {motive : Pattern → Prop}
    (atom : ∀ letter, motive (.atom letter)) (any : motive .any) (nil : motive .nil)
    (boundary : motive .boundary) (oneOf : ∀ letters, motive (.oneOf letters))
    (sequence : ∀ items, (∀ item ∈ items, motive item) → motive (.sequence items))
    (alternation : ∀ branches, (∀ branch ∈ branches, motive branch) →
      motive (.alternation branches))
    (repeated : ∀ body times, motive body → motive (.repeated body times)) :
    ∀ p, motive p
  | .atom letter => atom letter
  | .any => any
  | .nil => nil
  | .boundary => boundary
  | .oneOf letters => oneOf letters
  | .sequence items => sequence items fun item _ =>
    induction atom any nil boundary oneOf sequence alternation repeated item
  | .alternation branches => alternation branches fun branch _ =>
    induction atom any nil boundary oneOf sequence alternation repeated branch
  | .repeated body times => repeated body times
    (induction atom any nil boundary oneOf sequence alternation repeated body)

/-! ## Equality -/

mutual

/-- Are two patterns built alike? -/
def same : Pattern → Pattern → Bool
  | .atom letter, .atom other => decide (letter = other)
  | .any, .any => true
  | .nil, .nil => true
  | .boundary, .boundary => true
  | .oneOf letters, .oneOf others => decide (letters = others)
  | .sequence ps, .sequence qs => sameAll ps qs
  | .alternation ps, .alternation qs => sameAll ps qs
  | .repeated p m, .repeated q n => same p q && decide (m = n)
  | _, _ => false

/-- Are two lists of patterns built alike? -/
def sameAll : List Pattern → List Pattern → Bool
  | [], [] => true
  | p :: ps, q :: qs => same p q && sameAll ps qs
  | _, _ => false

end

mutual

theorem same_iff : ∀ p q : Pattern, same p q = true ↔ p = q
  | .atom _, q => by cases q <;> simp [same]
  | .any, q => by cases q <;> simp [same]
  | .nil, q => by cases q <;> simp [same]
  | .boundary, q => by cases q <;> simp [same]
  | .oneOf _, q => by cases q <;> simp [same]
  | .sequence ps, q => by cases q <;> simp [same, sameAll_iff ps]
  | .alternation ps, q => by cases q <;> simp [same, sameAll_iff ps]
  | .repeated p m, q => by cases q <;> simp [same, same_iff p]

theorem sameAll_iff : ∀ ps qs : List Pattern, sameAll ps qs = true ↔ ps = qs
  | [], qs => by cases qs <;> simp [sameAll]
  | p :: ps, qs => by cases qs <;> simp [sameAll, same_iff p, sameAll_iff ps]

end

instance : DecidableEq Pattern := fun p q => decidable_of_iff _ (same_iff p q)

/-! ## Building and asking -/

/-- The pattern for a list of items: a single item is not wrapped up. -/
def ofItems : List Pattern → Pattern
  | [item] => item
  | items => .sequence items

/-- Is the pattern an alternation, so that it needs parentheses inside a sequence? -/
def isAlternation : Pattern → Bool
  | .alternation _ => true
  | _ => false

/-- Is the pattern made of parts, so that a repetition of it needs parentheses? -/
def isComposite : Pattern → Bool
  | .sequence _ => true
  | .alternation _ => true
  | .repeated _ _ => true
  | _ => false

mutual

/-- Can the pattern match without taking a record? -/
def isNullable : Pattern → Bool
  | .atom _ => false
  | .any => false
  | .nil => false
  | .boundary => true
  | .oneOf _ => false
  | .sequence items => allNullable items
  | .alternation branches => someNullable branches
  | .repeated body .oneOrMore => isNullable body
  | .repeated _ .zeroOrMore => true
  | .repeated _ .zeroOrOne => true

/-- Can every pattern of a list match without taking a record? -/
def allNullable : List Pattern → Bool
  | [] => true
  | p :: ps => isNullable p && allNullable ps

/-- Can some pattern of a list match without taking a record? -/
def someNullable : List Pattern → Bool
  | [] => false
  | p :: ps => isNullable p || someNullable ps

end

theorem allNullable_eq (ps : List Pattern) : allNullable ps = ps.all isNullable := by
  induction ps with
  | nil => rfl
  | cons p ps ih => simp [allNullable, ih]

theorem someNullable_eq (ps : List Pattern) : someNullable ps = ps.any isNullable := by
  induction ps with
  | nil => rfl
  | cons p ps ih => simp [someNullable, ih]

end Pattern
end Forward
