/-
  The language of a pattern: which words a match can give.

  `Pattern.language p` is the regular language that the pattern is written for: the words of one
  record for a leaf, the empty word for a look at the front, and concatenation, union and closure
  for sequences, alternations and repetitions.  Matching never goes back, so not every word of the
  language is found, and records that a failed branch or round took are lost.  But what is found
  is right: the records that a match gives are a word of the language, and it took them where it
  stood, each of them once and in their order.

  `Spells L a` says this of an attempt.  It passes through every way in which the meaning of a
  pattern is built.  What failed has taken something, too, and only adds to what was taken; so the
  two halves are kept together, the word and the elements among which it was found.
-/
import Mathlib.Computability.Language
import Forward.Proofs.Pattern.Meaning

namespace Forward

open scoped Computability

variable {α β : Type} {L M : Language α}

/-! ## Words -/

/-- The words of one element that passes the test. -/
def singles (test : α → Bool) : Language α := {word | ∃ x, test x = true ∧ word = [x]}

/-- As many words of the language, one after the other, as the repetition admits. -/
def iterated (L : Language α) (times : Repetition) : Language α :=
  {word | ∃ words : List (List α), word = words.flatten ∧ (∀ part ∈ words, part ∈ L) ∧
    times.admits words.length = true}

theorem mem_of_iterated_zeroOrMore {word : List α} (h : word ∈ iterated L .zeroOrMore) :
    word ∈ L∗ := by
  obtain ⟨words, rfl, hall, -⟩ := h
  exact Language.join_mem_kstar hall

theorem mem_of_iterated_oneOrMore {word : List α} (h : word ∈ iterated L .oneOrMore) :
    word ∈ L * L∗ := by
  obtain ⟨words, rfl, hall, hadmits⟩ := h
  cases words with
  | nil =>
    have hnone : Repetition.oneOrMore.admits 0 = false := by decide
    rw [List.length_nil, hnone] at hadmits
    cases hadmits
  | cons first later =>
    obtain ⟨hfirst, hlater⟩ := List.forall_mem_cons.mp hall
    exact Language.append_mem_mul hfirst (Language.join_mem_kstar hlater)

theorem mem_of_iterated_zeroOrOne {word : List α} (h : word ∈ iterated L .zeroOrOne) :
    word ∈ 1 + L := by
  obtain ⟨words, rfl, hall, hadmits⟩ := h
  have hcount : words.length ≤ 1 := by
    have hmost := (Bool.and_eq_true_iff.mp hadmits).2
    exact of_decide_eq_true hmost
  rcases words with _ | ⟨only, _ | ⟨next, later⟩⟩
  · exact Or.inl Language.nil_mem_one
  · rw [List.flatten_singleton]
    exact Or.inr (hall only List.mem_cons_self)
  · rw [List.length_cons, List.length_cons] at hcount
    omega

namespace Attempt

/-- Every success of the attempt gives a word of the language, made of elements that it took. -/
def Spells (L : Language α) (a : Attempt α (List α)) : Prop :=
  ∀ s word, (a s).outcome = .matched word →
    word ∈ L ∧ ∃ taken, Took s taken (a s).scan ∧ word.Sublist taken

/-- Every success of the attempt gives words of the language, made one after the other of elements
    that it took. -/
def SpellsAll (L : Language α) (a : Attempt α (List (List α))) : Prop :=
  ∀ s words, (a s).outcome = .matched words →
    (∀ word ∈ words, word ∈ L) ∧ ∃ taken, Took s taken (a s).scan ∧ words.flatten.Sublist taken

theorem Spells.mono {a : Attempt α (List α)} (h : Spells L a) (le : ∀ word ∈ L, word ∈ M) :
    Spells M a := by
  intro s word hword
  obtain ⟨hmem, htaken⟩ := h s word hword
  exact ⟨le word hmem, htaken⟩

/-! ## Single elements -/

theorem spells_satisfy (test : α → Bool) :
    Spells (singles test) ((satisfy test).map fun x => [x]) := by
  intro s word hword
  obtain ⟨x, hx, rfl⟩ := matched_of_map hword
  obtain ⟨htest, htook⟩ := took_of_satisfy hx
  exact ⟨⟨x, htest, rfl⟩, [x], htook, List.Sublist.refl [x]⟩

theorem spells_look : Spells 1 ((look : Attempt α α).map fun _ => []) := by
  intro s word hword
  obtain ⟨x, -, rfl⟩ := matched_of_map hword
  obtain ⟨taken, htaken⟩ := (moves_look kept_onward s).took
  exact ⟨Language.nil_mem_one, taken, htaken, List.nil_sublist taken⟩

/-! ## One after the other, one or the other -/

theorem spells_succeed : Spells 1 (succeed ([] : List α)) := by
  intro s word hword
  cases hword
  exact ⟨Language.nil_mem_one, [], took_nil s, List.Sublist.refl _⟩

theorem Spells.andThen {a b : Attempt α (List α)} (h : Spells L a) (k : Spells M b) :
    Spells (L * M) (a.andThen fun xs => b.map (xs ++ ·)) := by
  intro s word hword
  obtain ⟨xs, hx, hnext, hscan⟩ := matched_of_andThen hword
  obtain ⟨ys, hy, rfl⟩ := matched_of_map hnext
  obtain ⟨hxs, taken, htook, hsub⟩ := h s xs hx
  obtain ⟨hys, taken', htook', hsub'⟩ := k (a s).scan ys hy
  rw [hscan]
  exact ⟨Language.append_mem_mul hxs hys, taken ++ taken', htook.trans htook', hsub.append hsub'⟩

/-- A series spells the concatenation of what its parts spell. -/
theorem spells_series {items : List β} {lang : β → Language α} {a : β → Attempt α (List α)}
    (h : ∀ item ∈ items, Spells (lang item) (a item)) :
    Spells (items.map lang).prod (series (items.map a)) := by
  induction items with
  | nil => exact spells_succeed
  | cons item later ih =>
    have hitem := h item List.mem_cons_self
    have hlater := ih fun other hother => h other (List.mem_cons_of_mem item hother)
    rw [List.map_cons, List.map_cons, List.prod_cons, series_cons]
    exact hitem.andThen hlater

/-- What a failed attempt took stays taken, in front of what the next one takes. -/
theorem Spells.either {a b : Attempt α (List α)} (onward : Moves Onward a) (h : Spells L a)
    (k : Spells M b) : Spells (L + M) (a.either b) := by
  intro s word hword
  rcases a.either_cases b s with ⟨-, hrun⟩ | ⟨-, hrun⟩
  · rw [hrun] at hword ⊢
    obtain ⟨lost, hlost⟩ := (onward s).took
    obtain ⟨hmem, taken, htook, hsub⟩ := k _ word hword
    refine ⟨Or.inr hmem, lost ++ taken, hlost.trans htook, ?_⟩
    exact hsub.trans (List.sublist_append_right lost taken)
  · rw [hrun] at hword ⊢
    obtain ⟨hmem, htaken⟩ := h s word hword
    exact ⟨Or.inl hmem, htaken⟩

theorem spells_firstOf {branches : List β} {lang : β → Language α} {a : β → Attempt α (List α)}
    (onward : ∀ branch, Moves Onward (a branch))
    (h : ∀ branch ∈ branches, Spells (lang branch) (a branch)) :
    Spells (branches.map lang).sum (firstOf (branches.map a)) := by
  induction branches with
  | nil =>
    intro s word hword
    cases hword
  | cons branch later ih =>
    have hbranch := h branch List.mem_cons_self
    have hlater := ih fun other hother => h other (List.mem_cons_of_mem branch hother)
    rw [List.map_cons, List.map_cons, List.sum_cons]
    exact hbranch.either (onward branch) hlater

/-! ## Again and again -/

theorem Spells.consuming {a : Attempt α (List α)} (h : Spells L a) : Spells L a.consuming := by
  intro s word hword
  exact h s word (matched_of_consuming hword).1

/-- Each round spells a word, and the round that ends them gives nothing. -/
theorem Spells.gather {a : Attempt α (List α)} (onward : Moves Onward a) (h : Spells L a)
    {full : Outcome (List (List α))} (hfull : ∀ words, full = .matched words → words = [])
    (room : Nat) : SpellsAll L fun s => (gather full a room s).run := by
  induction room with
  | zero =>
    intro s words hwords
    obtain rfl := hfull words hwords
    exact ⟨List.forall_mem_nil _, [], took_nil s, List.Sublist.refl _⟩
  | succ room ih =>
    intro s words hwords
    rcases gather_cases full a room s with ⟨word, hx, hrun⟩ | ⟨o, hrun, hempty, -⟩
    · -- the word of this round, and the words of the rounds behind it
      simp only [hrun] at hwords ⊢
      obtain ⟨later, hlater, rfl⟩ :=
        matched_of_map (a := fun s => (Attempt.gather full a room s).run) hwords
      obtain ⟨hmem, taken, htook, hsub⟩ := h s word hx
      obtain ⟨hall, taken', htook', hsub'⟩ := ih _ later hlater
      refine ⟨List.forall_mem_cons.mpr ⟨hmem, hall⟩, taken ++ taken', htook.trans htook', ?_⟩
      rw [List.flatten_cons]
      exact hsub.append hsub'
    · -- the last round gives no word, whatever it took
      simp only [hrun] at hwords ⊢
      obtain ⟨lost, hlost⟩ := (onward s).took
      obtain rfl := hempty words hwords
      exact ⟨List.forall_mem_nil _, lost, hlost, List.nil_sublist lost⟩

theorem Spells.repeated {a : Attempt α (List α)} (onward : Moves Onward a) (h : Spells L a)
    (times : Repetition) (limit : Nat) :
    Spells (iterated L times) ((a.repeated times limit).map List.flatten) := by
  intro s word hword
  obtain ⟨words, hwords, rfl⟩ := matched_of_map hword
  obtain ⟨hgathered, hadmits⟩ := matched_of_repeated hwords
  have hgather : SpellsAll L (a.gathered times limit) :=
    h.gather onward (fun _ => eq_nil_of_full) (room times limit)
  obtain ⟨hall, htaken⟩ := hgather s words hgathered
  show _ ∧ ∃ taken, Took s taken (a.repeated times limit s).scan ∧ _
  rw [scan_repeated]
  exact ⟨⟨words, rfl, hall, hadmits⟩, htaken⟩

end Attempt

namespace Pattern

open Attempt

mutual

/-- The words that a pattern is written for. -/
def language : Pattern → Language Record
  | .atom letter => singles (accepts (.atom letter))
  | .any => singles (accepts .any)
  | .nil => singles (accepts .nil)
  | .boundary => 1
  | .oneOf letters => singles (accepts (.oneOf letters))
  | .sequence items => (languages items).prod
  | .alternation branches => (languages branches).sum
  | .repeated body .oneOrMore => language body * (language body)∗
  | .repeated body .zeroOrMore => (language body)∗
  | .repeated body .zeroOrOne => 1 + language body

/-- The words that each pattern of a list is written for. -/
def languages : List Pattern → List (Language Record)
  | [] => []
  | p :: ps => language p :: languages ps

end

theorem languages_eq (ps : List Pattern) : languages ps = ps.map language := by
  induction ps with
  | nil => rfl
  | cons p ps ih => rw [languages, ih, List.map_cons]

variable {limit : Nat}

theorem spells_leaf {p : Pattern} (leaf : p.isLeaf = true) :
    Spells (singles p.accepts) (meaning limit p) := by
  rw [meaning_leaf leaf]
  exact spells_satisfy p.accepts

section Repetitions

variable {a : Attempt Record (List Record)} {L : Language Record} (onward : Moves Onward a)
  (h : Spells L a) (nullable : Bool)

include onward h

/-- The rounds of a body that have to take a record. -/
theorem spells_consumingRounds :
    Spells L∗ ((a.consuming.repeated .zeroOrMore limit).map List.flatten) :=
  (h.consuming.repeated onward.consuming .zeroOrMore limit).mono fun _ => mem_of_iterated_zeroOrMore

theorem spells_zeroOrMore : Spells L∗ (repetition nullable .zeroOrMore limit a) := by
  cases nullable with
  | false => exact (h.repeated onward .zeroOrMore limit).mono fun _ => mem_of_iterated_zeroOrMore
  | true => exact spells_consumingRounds onward h

theorem spells_oneOrMore : Spells (L * L∗) (repetition nullable .oneOrMore limit a) := by
  cases nullable with
  | false => exact (h.repeated onward .oneOrMore limit).mono fun _ => mem_of_iterated_oneOrMore
  | true =>
    -- the first round and the others are a series of two
    have hrest : Spells L∗ (repetition true .zeroOrMore limit a) := spells_consumingRounds onward h
    rw [repetition_oneOrMore, series_cons, series_singleton]
    exact h.andThen hrest

theorem spells_zeroOrOne : Spells (1 + L) (repetition nullable .zeroOrOne limit a) := by
  have honce : Spells (1 + L) ((a.repeated .zeroOrOne limit).map List.flatten) :=
    (h.repeated onward .zeroOrOne limit).mono fun _ => mem_of_iterated_zeroOrOne
  cases nullable with
  | false => exact honce
  | true => exact honce

end Repetitions

/-- A match of a pattern gives a word of its language. -/
theorem spells_meaning (p : Pattern) : Spells p.language (meaning limit p) := by
  induction p with
  | atom letter => exact spells_leaf rfl
  | any => exact spells_leaf rfl
  | nil => exact spells_leaf rfl
  | boundary =>
    rw [meaning_boundary]
    exact spells_look
  | oneOf letters => exact spells_leaf rfl
  | sequence items ih =>
    rw [meaning_sequence, language, languages_eq]
    exact spells_series ih
  | alternation branches ih =>
    rw [meaning_alternation, language, languages_eq]
    exact spells_firstOf onward_meaning ih
  | repeated body times ih =>
    rw [meaning_repeated]
    cases times with
    | oneOrMore => exact spells_oneOrMore (onward_meaning body) ih body.isNullable
    | zeroOrMore => exact spells_zeroOrMore (onward_meaning body) ih body.isNullable
    | zeroOrOne => exact spells_zeroOrOne (onward_meaning body) ih body.isNullable

/-- Where a match succeeds at a place in a stream of records, what it gives is a word of the
    language of the pattern, and a subsequence of the records that it passed over. -/
theorem mem_language_of_matched (p : Pattern) {records word : List Record} {s : Scan Record}
    (place : s.cursor.Over records) (h : (p.attempt s).outcome = .matched word) :
    word ∈ p.language ∧ s.position ≤ (p.attempt s).scan.position ∧
      (p.attempt s).scan.position ≤ records.length ∧
      word.Sublist (records.extract s.position (p.attempt s).scan.position) := by
  obtain ⟨hmem, taken, htook, hsub⟩ := spells_meaning p s word h
  have hposition : (p.attempt s).scan.position = s.position + taken.length := htook.position
  refine ⟨hmem, by omega, htook.position_le place, ?_⟩
  rw [htook.eq_extract place] at hsub
  exact hsub

/-- A branch that fails takes a record with it, which the match does not give. -/
theorem mem_language_of_matched_branch :
    let p : Pattern := .alternation [.sequence [.atom .b, .atom .w], .repeated .any .zeroOrMore]
    let records : List Record := [some .b, some .h, some .l, none]
    (Cursor.ofList records).Over records ∧
      (p.attempt (Scan.ofList records)).outcome = .matched [some .h, some .l] ∧
      [some .h, some .l] ∈ p.language ∧
      List.Sublist [some .h, some .l] (records.extract 0 3) := by
  intro p records
  have hplace : (Cursor.ofList records).Over records := Cursor.over_ofList records
  have hmatched : (p.attempt (Scan.ofList records)).outcome = .matched [some .h, some .l] := by
    decide
  have hposition : (p.attempt (Scan.ofList records)).scan.position = 3 := by decide
  obtain ⟨hmem, -, -, hsub⟩ := mem_language_of_matched p (s := Scan.ofList records) hplace hmatched
  rw [hposition] at hsub
  exact ⟨hplace, hmatched, hmem, hsub⟩

end Pattern
end Forward
