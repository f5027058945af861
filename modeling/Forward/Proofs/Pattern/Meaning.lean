/-
  The meaning of patterns: what matching a pattern does, one equation per kind of pattern.

  `Pattern.meaning limit p` is the attempt that the matcher of `p` makes with `limit` as the bound
  of its repetitions.  Matching a pattern where a scan stands is its meaning with any limit that
  exceeds the number of records left (`attempt_eq_meaning`): a repetition always comes to its
  end.  For that, every round has to take a record, which is where nullability comes in.  A
  pattern that is not nullable takes a record whenever it succeeds (`advances_meaning`), and the
  rounds of one that is nullable are made to.

  What is to be shown of all patterns is mostly a property that attempts keep when they are put
  together (`Closed`).  Such a property needs to be shown of the leaves only (`Closed.meaning`).
-/
import Forward.Pattern.Recognizer
import Forward.Proofs.Progress

namespace Forward.Pattern

open Attempt

/-- The attempt that a pattern makes, with a limit on its repetitions. -/
def meaning (limit : Nat) (p : Pattern) : Attempt Record (List Record) :=
  p.matcher.run .empty limit

variable {limit : Nat}

/-! ## One equation per kind of pattern -/

/-- Is the pattern a leaf that stands for a single record? -/
def isLeaf : Pattern → Bool
  | .atom _ => true
  | .any => true
  | .nil => true
  | .oneOf _ => true
  | _ => false

/-- Does the leaf stand for the record? -/
def accepts : Pattern → Record → Bool
  | .atom letter, record => decide (record = some letter)
  | .any, record => record.isSome
  | .nil, record => decide (record = none)
  | .oneOf letters, record => letters.any fun letter => decide (record = some letter)
  | _, _ => false

theorem meaning_leaf {p : Pattern} (h : p.isLeaf = true) :
    meaning limit p = (satisfy p.accepts).map fun record => [record] := by
  cases p with
  | oneOf letters =>
    have htest : (fun record => decide (record ∈ letters.map some)) = accepts (.oneOf letters) := by
      funext record
      rw [accepts, Bool.eq_iff_iff, decide_eq_true_eq, List.mem_map, List.any_eq_true]
      refine exists_congr fun letter => and_congr_right fun _ => ?_
      rw [decide_eq_true_eq, eq_comm]
    show (satisfy fun record => decide (record ∈ letters.map some)).map _ = _
    rw [htest]
  | boundary => cases h
  | sequence items => cases h
  | alternation branches => cases h
  | repeated body times => cases h
  | _ => rfl

theorem meaning_boundary : meaning limit .boundary = look.map fun _ => [] := rfl

theorem meaning_sequence (items : List Pattern) :
    meaning limit (.sequence items) = (inOrder (items.map (meaning limit))).map List.flatten := by
  show (Attempt.map _ ((Matcher.sequence (matchers items)).run _ _)) = _
  rw [Matcher.run_sequence, matchers_eq, List.map_map]
  rfl

theorem meaning_alternation (branches : List Pattern) :
    meaning limit (.alternation branches) = firstOf (branches.map (meaning limit)) := by
  show (Matcher.choice (matchers branches)).run _ _ = _
  rw [Matcher.run_choice, matchers_eq, List.map_map]
  rfl

/-- What a repetition does with the attempt of its body. -/
def repetition (nullable : Bool) (times : Quantifier) (limit : Nat)
    (body : Attempt Record (List Record)) : Attempt Record (List Record) :=
  match nullable, times with
  | true, .oneOrMore =>
    (body.both (body.consuming.repeated .zeroOrMore limit)).map
      fun taken => (taken.1 :: taken.2).flatten
  | true, .zeroOrMore => (body.consuming.repeated .zeroOrMore limit).map List.flatten
  | true, .zeroOrOne => (body.repeated .zeroOrOne limit).map List.flatten
  | false, times => (body.repeated times.times limit).map List.flatten

theorem meaning_repeated (body : Pattern) (times : Quantifier) :
    meaning limit (.repeated body times) =
      repetition body.isNullable times limit (meaning limit body) := by
  rw [meaning, matcher]
  cases body.isNullable with
  | false => rfl
  | true => cases times <;> rfl

/-- Rounds of a body that cannot be empty. -/
theorem meaning_rounds {body : Pattern} (h : body.isNullable = false) (times : Quantifier) :
    meaning limit (.repeated body times) =
      ((meaning limit body).repeated times.times limit).map List.flatten := by
  rw [meaning_repeated, h]
  rfl

/-- At most one round is not made to take a record. -/
theorem meaning_zeroOrOne (body : Pattern) :
    meaning limit (.repeated body .zeroOrOne) =
      ((meaning limit body).repeated .zeroOrOne limit).map List.flatten := by
  rw [meaning_repeated]
  cases body.isNullable <;> rfl

/-- One or more rounds of a nullable body are a series: the body, and rounds of it. -/
theorem repetition_oneOrMore (a : Attempt Record (List Record)) :
    repetition true .oneOrMore limit a = series [a, repetition true .zeroOrMore limit a] := by
  rw [series_cons, series_singleton]
  simp only [repetition, both_map, map_map, List.flatten_cons]

/-! ## What takes a record -/

theorem onward_meaning (p : Pattern) : Moves Onward (meaning limit p) :=
  Matcher.run_moves kept_onward .empty limit p.matcher

theorem onward_of_mem_map {ps : List Pattern} {a : Attempt Record (List Record)}
    (h : a ∈ ps.map (meaning limit)) : Moves Onward a := by
  obtain ⟨p, -, rfl⟩ := List.mem_map.mp h
  exact onward_meaning p

/-- A pattern that is not nullable takes a record whenever it succeeds. -/
theorem advances_meaning {p : Pattern} (h : p.isNullable = false) :
    Advances (meaning limit p) := by
  induction p with
  | atom letter => exact (advances_take _).map _
  | any => exact (advances_take _).map _
  | nil => exact (advances_take _).map _
  | boundary => exact absurd h (by decide)
  | oneOf letters => exact (advances_take _).map _
  | sequence items ih =>
    rw [isNullable, allNullable_eq, List.all_eq_false] at h
    obtain ⟨item, hitem, hnot⟩ := h
    rw [Bool.not_eq_true] at hnot
    rw [meaning_sequence]
    exact (advances_inOrder (fun _ ha => onward_of_mem_map ha)
      ⟨_, List.mem_map_of_mem hitem, ih item hitem hnot⟩).map _
  | alternation branches ih =>
    rw [isNullable, someNullable_eq, List.any_eq_false] at h
    rw [meaning_alternation]
    refine advances_firstOf (fun _ ha => onward_of_mem_map ha) fun a ha => ?_
    obtain ⟨branch, hbranch, rfl⟩ := List.mem_map.mp ha
    exact ih branch hbranch (Bool.not_eq_true _ ▸ h branch hbranch)
  | repeated body times ih =>
    cases times with
    | oneOrMore =>
      rw [isNullable] at h
      rw [meaning_rounds h]
      have hleast : 0 < (Quantifier.times .oneOrMore).least.toNat := by decide
      exact ((ih h).repeated (onward_meaning body) hleast limit).map _
    | zeroOrMore => rw [isNullable] at h; cases h
    | zeroOrOne => rw [isNullable] at h; cases h

/-! ## What a pattern has from its leaves

  A property of attempts that passes through each way in which patterns put attempts together holds
  of a pattern if it holds of its leaves.  The induction over patterns is made here once.
-/

mutual

/-- The single-record leaves of a pattern. -/
def leaves : Pattern → List Pattern
  | .atom letter => [.atom letter]
  | .any => [.any]
  | .nil => [.nil]
  | .boundary => []
  | .oneOf letters => [.oneOf letters]
  | .sequence items => leavesOf items
  | .alternation branches => leavesOf branches
  | .repeated body _ => leaves body

/-- The single-record leaves of the patterns of a list. -/
def leavesOf : List Pattern → List Pattern
  | [] => []
  | p :: ps => leaves p ++ leavesOf ps

end

theorem mem_leavesOf {ps : List Pattern} {p leaf : Pattern} (hp : p ∈ ps) (h : leaf ∈ p.leaves) :
    leaf ∈ leavesOf ps := by
  induction ps with
  | nil => cases hp
  | cons q ps ih =>
    rw [leavesOf, List.mem_append]
    rcases List.mem_cons.mp hp with rfl | hp
    · exact Or.inl h
    · exact Or.inr (ih hp)

/-- The property passes through each way in which patterns put attempts together. -/
structure Closed (limit : Nat) (Q : {τ : Type} → Attempt Record τ → Prop) : Prop
    extends Composes Q where
  boundary : Q (look.map fun _ => ([] : List Record))
  consuming : ∀ {τ : Type} {a : Attempt Record τ}, Q a → Q a.consuming
  repeated : ∀ {a : Attempt Record (List Record)} {times : Repetition}, Moves Onward a →
    times.most ≠ none ∨ Advances a → Q a → Q (a.repeated times limit)

variable {Q : {τ : Type} → Attempt Record τ → Prop}

theorem Closed.repetition (closed : Closed limit Q) {a : Attempt Record (List Record)}
    (onward : Moves Onward a) {nullable : Bool} (adv : nullable = false → Advances a) (h : Q a)
    (times : Quantifier) : Q (repetition nullable times limit a) := by
  cases nullable with
  | false => exact closed.map (closed.repeated onward (Or.inr (adv rfl)) h) _
  | true =>
    have hrest : Q (a.consuming.repeated .zeroOrMore limit) :=
      closed.repeated onward.consuming (Or.inr (advances_consuming a)) (closed.consuming h)
    cases times with
    | oneOrMore =>
      have hmoves := onward.consuming.repeated kept_onward .zeroOrMore limit
      exact closed.map (closed.toComposes.both onward hmoves h hrest) _
    | zeroOrMore => exact closed.map hrest _
    | zeroOrOne =>
      have hbounded : Repetition.zeroOrOne.most ≠ none := by decide
      exact closed.map (closed.repeated onward (Or.inl hbounded) h) _

theorem Closed.leaf (closed : Closed limit Q) {p : Pattern} (leaf : p.isLeaf = true)
    (h : Q (satisfy p.accepts)) : Q (meaning limit p) := by
  rw [meaning_leaf leaf]
  exact closed.map h _

theorem Closed.meaning (closed : Closed limit Q) {p : Pattern}
    (h : ∀ leaf ∈ p.leaves, Q (satisfy leaf.accepts)) : Q (meaning limit p) := by
  induction p with
  | atom letter => exact closed.leaf rfl (h _ List.mem_cons_self)
  | any => exact closed.leaf rfl (h _ List.mem_cons_self)
  | nil => exact closed.leaf rfl (h _ List.mem_cons_self)
  | boundary => exact closed.boundary
  | oneOf letters => exact closed.leaf rfl (h _ List.mem_cons_self)
  | sequence items ih =>
    rw [meaning_sequence]
    refine closed.map (closed.toComposes.inOrder (fun _ ha => onward_of_mem_map ha) fun a ha => ?_) _
    obtain ⟨item, hitem, rfl⟩ := List.mem_map.mp ha
    exact ih item hitem fun leaf hleaf => h leaf (mem_leavesOf hitem hleaf)
  | alternation branches ih =>
    rw [meaning_alternation]
    refine closed.toComposes.firstOf (fun _ ha => onward_of_mem_map ha) fun a ha => ?_
    obtain ⟨branch, hbranch, rfl⟩ := List.mem_map.mp ha
    exact ih branch hbranch fun leaf hleaf => h leaf (mem_leavesOf hbranch hleaf)
  | repeated body times ih =>
    rw [meaning_repeated]
    exact closed.repetition (onward_meaning body) advances_meaning (ih h) times

/-! ## Every match comes to an answer -/

theorem closed_finishes : Closed limit (Finishes limit) where
  toComposes := composes_finishes
  boundary := finishes_look.map _
  consuming h := h.consuming
  repeated onward hrounds h := h.repeated onward hrounds

/-- A pattern comes to an answer wherever less records are left than the limit. -/
theorem finishes_meaning (p : Pattern) : Finishes limit (meaning limit p) :=
  closed_finishes.meaning fun _ _ => finishes_take _

/-- Matching comes to an answer. -/
theorem finished_attempt (p : Pattern) (s : Scan Record) : (p.attempt s).Finished :=
  finishes_meaning p s (by omega)

/-- Matching a pattern is its meaning with any limit that exceeds the number of records left. -/
theorem attempt_eq_meaning (p : Pattern) {s : Scan Record}
    (h : s.cursor.remaining.length < limit) : p.attempt s = meaning limit p s :=
  Matcher.run_unique .empty p.matcher (finished_attempt p s) (finishes_meaning p s h)

end Forward.Pattern
