/-
  Literal text: how far it is followed, and what becomes of it where the stream differs.

  A literal is a list of single elements, one after the other.  It is followed as far as it agrees
  with what remains, which is the longest common prefix of the two (`commonPrefix`).  These elements
  are taken, and the cursor is past them, however the match comes out.  What comes next decides:

  * the text is used up: it has matched;
  * an element of the stream is next: it is another one than the text has, and the match fails;
  * the stream is used up: the text is compared with the element that is still on show.

  In the last case the element on show is the last one of the whole stream.  If the text goes on with
  another one the match fails like anywhere else; but if it goes on with the same one, this element
  is asked for once more, and the read is past the end.
-/
import Forward.Proofs.Sweeps
import Forward.Text.Characters

namespace Forward

variable {α : Type} {ρ : Type → Type}

/-! ## Common prefixes -/

section CommonPrefix

variable [DecidableEq α]

/-- The longest list with which both lists begin. -/
def commonPrefix : List α → List α → List α
  | [], _ => []
  | _ :: _, [] => []
  | x :: xs, y :: ys => if x = y then x :: commonPrefix xs ys else []

/-- A list is a prefix of both lists if it is one of their common prefix. -/
theorem prefix_commonPrefix_iff {l xs ys : List α} :
    l <+: commonPrefix xs ys ↔ l <+: xs ∧ l <+: ys := by
  induction xs, ys using commonPrefix.induct generalizing l with
  | case1 ys => simp +contextual [commonPrefix]
  | case2 x xs => simp +contextual [commonPrefix]
  | case3 xs y ys ih =>
    rw [commonPrefix, if_pos rfl]
    cases l with
    | nil => simp
    | cons z l =>
      rw [List.cons_prefix_cons, List.cons_prefix_cons, List.cons_prefix_cons, ih]
      constructor
      · rintro ⟨rfl, hxs, hys⟩
        exact ⟨⟨rfl, hxs⟩, rfl, hys⟩
      · rintro ⟨⟨rfl, hxs⟩, -, hys⟩
        exact ⟨rfl, hxs, hys⟩
  | case4 x xs y ys hne =>
    rw [commonPrefix, if_neg hne]
    cases l with
    | nil => simp
    | cons z l =>
      simp only [List.prefix_nil, reduceCtorEq, List.cons_prefix_cons, false_iff]
      rintro ⟨⟨rfl, -⟩, rfl, -⟩
      exact hne rfl

/-- Behind their common prefix the lists differ, unless one of them is used up. -/
theorem exists_append_commonPrefix (xs ys : List α) :
    ∃ xs' ys', xs = commonPrefix xs ys ++ xs' ∧ ys = commonPrefix xs ys ++ ys' ∧
      ∀ x ∈ xs'.head?, ∀ y ∈ ys'.head?, x ≠ y := by
  induction xs, ys using commonPrefix.induct with
  | case1 ys => exact ⟨[], ys, rfl, rfl, by rintro x ⟨⟩⟩
  | case2 x xs => exact ⟨x :: xs, [], rfl, rfl, by rintro _ _ y ⟨⟩⟩
  | case3 xs y ys ih =>
    obtain ⟨xs', ys', hxs, hys, hdiffer⟩ := ih
    rw [commonPrefix, if_pos rfl]
    exact ⟨xs', ys', congrArg (y :: ·) hxs, congrArg (y :: ·) hys, hdiffer⟩
  | case4 x xs y ys hne =>
    rw [commonPrefix, if_neg hne]
    refine ⟨x :: xs, y :: ys, rfl, rfl, ?_⟩
    rintro _ ⟨⟩ _ ⟨⟩
    exact hne

end CommonPrefix

/-! ## One element after the other -/

namespace Attempt

open Cursor

variable [DecidableEq α]

/-- The elements of a word, one after the other. -/
def spell (word : List α) : Attempt α (List α) :=
  inOrder (word.map fun x => satisfy fun y => decide (y = x))

/-- A word that the stream begins with is taken. -/
theorem yields_spell {run rest : List α} {c : Cursor α} (captures : Captures α)
    (h : c.remaining = run ++ rest) :
    Yields (spell run) ⟨c, captures⟩ (.matched run) ⟨c.past run.length, captures⟩ := by
  induction run generalizing c with
  | nil => exact ⟨rfl, rfl⟩
  | cons x run ih =>
    have hfirst := yields_satisfy_past (p := fun y => decide (y = x)) captures h
      (decide_eq_true rfl)
    have hlater := ih (remaining_past_one h)
    exact hfirst.andThen (hlater.map (x :: ·))

/-- Behind a word that the stream begins with, the rest of the text decides. -/
theorem yields_spell_append {run rest later : List α} {s t : Scan α} {o : Outcome (List α)}
    (h : s.cursor.remaining = run ++ rest)
    (k : Yields (spell later) ⟨s.cursor.past run.length, s.captures⟩ o t) :
    Yields (spell (run ++ later)) s (o.map (run ++ ·)) t := by
  rw [spell, List.map_append, inOrder_append]
  exact (yields_spell s.captures h).andThen (k.map (run ++ ·))

/-- The match fails in front of another element than the text has. -/
theorem yields_spell_failed {run rest later : List α} {x y : α} {s : Scan α}
    (h : s.cursor.remaining = run ++ rest) (shown : (s.cursor.past run.length).shown = some y)
    (differs : x ≠ y) :
    Yields (spell (run ++ x :: later)) s .failed ⟨s.cursor.past run.length, s.captures⟩ := by
  refine yields_spell_append (o := .failed) h ?_
  refine Yields.andThen_failed ?_ _
  exact yields_satisfy_failed (s := ⟨s.cursor.past run.length, s.captures⟩) shown
    (decide_eq_false differs.symm)

/-- With nothing left, the match reads past the end if the element on show is the one that the text
    has next.  So it does where no element is on show. -/
theorem yields_spell_ended {run later : List α} {x : α} {s : Scan α}
    (h : s.cursor.remaining = run)
    (again : ∀ y, (s.cursor.past run.length).shown = some y → y = x) :
    Yields (spell (run ++ x :: later)) s (.ended ⟨(s.cursor.past run.length).position⟩)
      ⟨⟨(s.cursor.past run.length).position, .spent⟩, s.captures⟩ := by
  have hsplit : s.cursor.remaining = run ++ [] := by rw [h, List.append_nil]
  refine yields_spell_append (o := .ended _) hsplit ?_
  refine Yields.andThen_ended ?_ _
  exact yields_satisfy_ended (remaining_past hsplit) fun y hy => decide_eq_true (again y hy)

/-! ## At the end of the stream -/

/-- The stream is used up before the word is, and no element is on show or it is the one that the
    word has next. -/
theorem yields_spell_over_ended {xs run later : List α} {x : α} {s : Scan α}
    (place : s.cursor.Over xs) (h : s.cursor.remaining = run)
    (again : xs = [] ∨ s.cursor.front = .spent ∨ some x = xs.getLast?) :
    Yields (spell (run ++ x :: later)) s (.ended ⟨xs.length⟩)
      ⟨⟨xs.length, .spent⟩, s.captures⟩ := by
  rw [← place.position_past h]
  refine yields_spell_ended h fun y hy => ?_
  obtain ⟨unspent, hlast⟩ := (place.shown_past h y).mp hy
  rcases again with rfl | spent | hsame
  · cases hlast
  · exact absurd spent unspent
  · exact Option.some.inj (hlast.symm.trans hsame.symm)

/-- The stream is used up before the word is, and the word does not have its last element over
    again. -/
theorem yields_spell_over_failed {xs run later : List α} {x : α} {s : Scan α}
    (place : s.cursor.Over xs) (h : s.cursor.remaining = run)
    (differs : ¬ (xs = [] ∨ s.cursor.front = .spent ∨ some x = xs.getLast?)) :
    Yields (spell (run ++ x :: later)) s .failed ⟨s.cursor.past run.length, s.captures⟩ := by
  obtain ⟨hsome, unspent, hother⟩ : xs ≠ [] ∧ s.cursor.front ≠ .spent ∧ some x ≠ xs.getLast? := by
    simpa only [not_or] using differs
  have hlast := List.getLast?_eq_some_getLast hsome
  have hshown := (place.shown_past h _).mpr ⟨unspent, hlast⟩
  refine yields_spell_failed (h.trans (List.append_nil run).symm) hshown ?_
  rintro rfl
  exact hother hlast.symm

end Attempt

/-! ## Literals -/

open Attempt Cursor

theorem Matcher.run_literal_eq (g : Grammar Char ρ) (bound : Nat) (text : String) :
    (literal text).run g bound = (spell text.toList).map String.ofList := by
  show ((sequence (text.toList.map item)).run g bound).map String.ofList = _
  rw [run_sequence, List.map_map]
  rfl

/-- A literal at any place in a stream.  It is followed for `k` characters, the longest common prefix
    of it and of what remains.  It matches if that is all of it.  If the stream differs there it fails,
    and the `k` characters stay consumed.  If the stream is used up it depends on the character that
    comes next in the literal: where this is the last one of the stream over again, or there is no
    such character on show, the match reads past the end, and else it fails there. -/
theorem Matcher.run_literal (g : Grammar Char ρ) (bound : Nat) (text : String) {xs : List Char}
    {s : Scan Char} (place : s.cursor.Over xs) :
    let k := (commonPrefix text.toList s.cursor.remaining).length
    let r := (literal text).run g bound s
    (k = text.toList.length → r.outcome = .matched text ∧ r.scan.position = s.position + k) ∧
    (k < text.toList.length → k < s.cursor.remaining.length →
      r.outcome = .failed ∧ r.scan.position = s.position + k) ∧
    (k < text.toList.length → k = s.cursor.remaining.length →
      ((xs = [] ∨ s.cursor.front = .spent ∨ text.toList[k]? = xs.getLast?) →
        r.outcome = .ended ⟨xs.length⟩ ∧ r.scan.position = xs.length) ∧
      (¬ (xs = [] ∨ s.cursor.front = .spent ∨ text.toList[k]? = xs.getLast?) →
        r.outcome = .failed ∧ r.scan.position = xs.length)) := by
  obtain ⟨text', rest, htext, hrest, hdiffer⟩ :=
    exists_append_commonPrefix text.toList s.cursor.remaining
  generalize commonPrefix text.toList s.cursor.remaining = run at htext hrest ⊢
  intro k r
  have hr : ∀ {o t}, Yields (spell (run ++ text')) s o t →
      r.outcome = o.map String.ofList ∧ r.scan.position = t.position := by
    intro o t h
    have hliteral : Yields ((literal text).run g bound) s (o.map String.ofList) t := by
      rw [run_literal_eq, htext]
      exact h.map String.ofList
    exact ⟨hliteral.outcome, congrArg Scan.position hliteral.scan⟩
  have htextLength : text.toList.length = k + text'.length := by rw [htext, List.length_append]
  have hrestLength : s.cursor.remaining.length = k + rest.length := by
    rw [hrest, List.length_append]
  have hposition : (s.cursor.past k).position = s.position + k := position_past hrest
  cases text' with
  | nil =>
    rw [List.length_nil] at htextLength
    refine ⟨fun _ => ?_, fun hlt => by omega, fun hlt => by omega⟩
    rw [List.append_nil] at htext hr
    obtain ⟨houtcome, hstop⟩ := hr (yields_spell s.captures hrest)
    refine ⟨?_, hstop.trans hposition⟩
    rw [houtcome, ← htext]
    exact congrArg Outcome.matched String.ofList_toList
  | cons x later =>
    rw [List.length_cons] at htextLength
    refine ⟨fun h => by omega, fun _ hlt => ?_, fun _ h => ?_⟩
    · cases rest with
      | nil =>
        rw [List.length_nil] at hrestLength
        omega
      | cons y rest =>
        have hshown := shown_of_remaining (remaining_past hrest)
        obtain ⟨houtcome, hstop⟩ := hr (yields_spell_failed hrest hshown (hdiffer x rfl y rfl))
        exact ⟨houtcome, hstop.trans hposition⟩
    · obtain rfl : rest = [] := List.eq_nil_of_length_eq_zero (by omega)
      have hrun : s.cursor.remaining = run := hrest.trans (List.append_nil run)
      have hnext : text.toList[k]? = some x := by
        rw [htext, List.getElem?_append_right (Nat.le_refl k), Nat.sub_self]
        rfl
      rw [hnext]
      refine ⟨fun again => hr (yields_spell_over_ended place hrun again), fun differs => ?_⟩
      obtain ⟨houtcome, hstop⟩ := hr (yields_spell_over_failed place hrun differs)
      exact ⟨houtcome, hstop.trans (place.position_past hrun)⟩

/-- Two literals that begin with all of a stream and go on behind it: one with another character
    than the last one, and one with the same. -/
theorem Matcher.run_literal_to_the_end :
    ((literal "let").run Grammar.empty 0 (Scan.ofList "le".toList)).outcome = .failed ∧
    ((literal "lee").run Grammar.empty 0 (Scan.ofList "le".toList)).outcome = .ended ⟨2⟩ := by
  have hplace := Cursor.over_ofList "le".toList
  obtain ⟨-, -, hother⟩ := run_literal Grammar.empty 0 "let" (s := Scan.ofList "le".toList) hplace
  obtain ⟨-, -, hsame⟩ := run_literal Grammar.empty 0 "lee" (s := Scan.ofList "le".toList) hplace
  refine ⟨((hother (by decide) (by decide)).2 (by decide)).1,
    ((hsame (by decide) (by decide)).1 (.inr (.inr (by decide)))).1⟩

end Forward
