/-
  Rejection: what a reading error says about the tokens.

  Tokens are viable if some continuation of them is a pattern.  A rejected list of tokens is
  either viable itself, and then the error is that the pattern is incomplete, or it is not, and
  then the error names the first token that makes it so: the tokens before it are viable, and
  with it they are not.

  That a token makes the difference needs the reader to stop at it whatever comes later, which is
  what `Reads` says: `not_derives_of_reads` runs the reader on a continuation, and meets the same
  token again.
-/
import Forward.Proofs.Pattern.Parsing

namespace Forward.Pattern

open PatternRule Attempt

/-! ## Viable tokens -/

/-- Some continuation of the tokens is a pattern. -/
def Viable (tokens : List Token) : Prop :=
  ∃ more p, (parse (tokens ++ more)).value = .ok p

theorem viable_of_derives {ts more : List Token} {p : Pattern}
    (h : Derives .alternation (ts ++ more) p) : Viable ts := by
  refine ⟨more, p, parse_of_derives ?_⟩
  rw [nonBlank_eq_self h.space_notMem]
  exact h

theorem Viable.derives {ts : List Token} (h : Viable ts) :
    ∃ more p, Derives .alternation (nonBlank ts ++ more) p := by
  obtain ⟨more, p, hp⟩ := h
  refine ⟨nonBlank more, p, ?_⟩
  rw [← nonBlank_append]
  exact derives_of_parse hp

theorem Viable.of_append {ts us : List Token} (h : Viable (ts ++ us)) : Viable ts := by
  obtain ⟨more, p, hp⟩ := h
  rw [List.append_assoc] at hp
  exact ⟨us ++ more, p, hp⟩

/-- A token that the reader stops at, with or without a value, is in the way of every
    continuation. -/
theorem not_derives_of_reads {u : List Token} {t : Token} {r : Option Pattern}
    (h : ∀ bound, u.length < bound → Reads bound phraseAlternation u (some t) r)
    (more : List Token) (p : Pattern) : ¬ Derives .alternation (u ++ t :: more) p := by
  intro hp
  have hlen : u.length < (u ++ t :: more).length := by
    rw [List.length_append, List.length_cons]
    omega
  have hstop := h ((u ++ t :: more).length + 1) (by omega) 0 (t :: more) rfl
  have hread := reads_of_derives hp _ none (Nat.lt_succ_self _) (Category.endsBefore_none _) 0 [] rfl
  -- the same run stops behind `u` and behind everything
  rw [List.append_nil] at hread
  have hposition := congrArg Scan.position (hstop.scan.symm.trans hread.scan)
  simp only [standing, Scan.position, Nat.zero_add] at hposition
  omega

/-! ## Places of tokens -/

/-- The place kept with the `i`-th token that counts, where places are counted from `start`. -/
theorem place_of_filter_zipIdx {tokens : List Token} {start i place : Nat} {t : Token}
    (h : ((tokens.zipIdx start).filter fun entry => decide (entry.1 ≠ .space))[i]? =
      some (t, place)) :
    ∃ k, place = start + k ∧ tokens[k]? = some t ∧ t ≠ .space ∧
      nonBlank (tokens.take k) = (nonBlank tokens).take i := by
  induction tokens generalizing start i with
  | nil => simp at h
  | cons s tokens ih =>
    rw [List.zipIdx_cons] at h
    by_cases hs : s = .space
    · -- a blank moves the place on, and not the number of tokens that count
      rw [List.filter_cons_of_neg (by simp [hs])] at h
      obtain ⟨k, rfl, hget, hne, htake⟩ := ih h
      refine ⟨k + 1, by omega, hget, hne, ?_⟩
      rw [List.take_succ_cons, nonBlank, nonBlank, List.filter_cons_of_neg (by simp [hs]),
        List.filter_cons_of_neg (by simp [hs])]
      exact htake
    · rw [List.filter_cons_of_pos (by simp [hs])] at h
      cases i with
      | zero =>
        cases h
        exact ⟨0, rfl, rfl, hs, rfl⟩
      | succ i =>
        obtain ⟨k, rfl, hget, hne, htake⟩ := ih h
        refine ⟨k + 1, by omega, hget, hne, ?_⟩
        rw [List.take_succ_cons, nonBlank, nonBlank, List.filter_cons_of_pos (by simp [hs]),
          List.filter_cons_of_pos (by simp [hs]), List.take_succ_cons]
        exact congrArg (s :: ·) htake

/-- The place that is kept with a token that counts is its place among all tokens. -/
theorem place_of_significant {tokens : List Token} {i place : Nat} {t : Token}
    (h : (significant tokens)[i]? = some (t, place)) :
    tokens[place]? = some t ∧ t ≠ .space ∧
      nonBlank (tokens.take place) = (nonBlank tokens).take i := by
  obtain ⟨k, rfl, hplace⟩ := place_of_filter_zipIdx h
  rw [Nat.zero_add]
  exact hplace

/-! ## What a rejection says -/

/-- In front of the end mark a rejection says that the pattern is incomplete. -/
theorem rejection_nil (tokens : List Token) (n : Nat) :
    rejection tokens (standing n []) = .incomplete := rfl

/-- In front of a token a rejection names it and its place. -/
theorem rejection_cons {tokens u rest : List Token} {t : Token}
    (hw : nonBlank tokens = u ++ t :: rest) :
    ∃ place, rejection tokens (standing u.length (t :: rest)) = .unexpectedToken place t ∧
      tokens[place]? = some t ∧ t ≠ .space ∧ nonBlank (tokens.take place) = u := by
  have hget : ((significant tokens).map Prod.fst)[u.length]? = some t := by
    rw [map_significant, hw, List.getElem?_append_right (Nat.le_refl _), Nat.sub_self]
    rfl
  rw [List.getElem?_map, Option.map_eq_some_iff] at hget
  obtain ⟨⟨s, place⟩, hentry, rfl⟩ := hget
  obtain ⟨hplace, hne, htake⟩ := place_of_significant hentry
  rw [hw, List.take_left' rfl] at htake
  refine ⟨place, ?_, hplace, hne, htake⟩
  simp only [rejection, standing, Scan.position, hentry]
  rfl

/-- A token that the reader is stopped at does not go on with anything that is viable. -/
theorem not_viable_of_reads {tokens u rest : List Token} {r : Option Pattern} {t : Token}
    (hw : nonBlank tokens = u ++ rest)
    (hreads : ∀ bound, u.length < bound → Reads bound phraseAlternation u rest.head? r)
    (ht : rest.head? = some t) : ¬ Viable (u ++ [t]) := by
  intro hviable
  obtain ⟨rest, rfl⟩ := List.head?_eq_some_iff.mp ht
  obtain ⟨more, p, hp⟩ := hviable.derives
  have hsolid : Token.space ∉ u ++ [t] := by
    have hall := space_notMem_nonBlank tokens
    rw [hw] at hall
    simp_all
  rw [nonBlank_eq_self hsolid, List.append_assoc] at hp
  exact not_derives_of_reads hreads more p hp

/-- A rejected list of tokens is viable up to where the reader stopped, and not with the token
    behind it. -/
theorem exists_stop_of_error {tokens : List Token} {e : ReadError}
    (h : (parse tokens).value = .error e) :
    ∃ u rest, nonBlank tokens = u ++ rest ∧ e = rejection tokens (standing u.length rest) ∧
      Viable u ∧ ∀ t, rest.head? = some t → ¬ Viable (u ++ [t]) := by
  obtain ⟨u, rest, r, hw, hpart, hreads, ⟨p, -, -, hok⟩ | herror⟩ := parse_decided tokens
  · rw [h] at hok
    cases hok
  · rw [h] at herror
    have hviable : Viable u := by
      cases hpart with
      | whole hp => exact @viable_of_derives u [] _ (by rwa [List.append_nil])
      | start hp => exact viable_of_derives hp
    exact ⟨u, rest, hw, Except.error.inj herror, hviable,
      fun t ht => not_viable_of_reads hw hreads ht⟩

/-- A rejected list of tokens is incomplete exactly if it is viable.  Otherwise the error names
    the first token that is in the way of every continuation, and its place. -/
theorem error_of_parse {tokens : List Token} {e : ReadError} (h : (parse tokens).value = .error e) :
    (e = .incomplete ↔ Viable (nonBlank tokens)) ∧
      (¬ Viable (nonBlank tokens) →
        ∃ place found, e = .unexpectedToken place found ∧ tokens[place]? = some found ∧
          found ≠ .space ∧ Viable (nonBlank (tokens.take place)) ∧
          ¬ Viable (nonBlank (tokens.take place) ++ [found])) := by
  obtain ⟨u, rest, hw, rfl, hviable, hstop⟩ := exists_stop_of_error h
  cases rest with
  | nil =>
    rw [List.append_nil] at hw
    rw [hw]
    exact ⟨⟨fun _ => hviable, fun _ => rejection_nil tokens _⟩, fun hnot => absurd hviable hnot⟩
  | cons t rest =>
    obtain ⟨place, herror, hget, hne, htake⟩ := rejection_cons hw
    have hnot : ¬ Viable (u ++ [t]) := hstop t rfl
    rw [herror]
    refine ⟨⟨by rintro ⟨⟩, fun hall => ?_⟩, fun _ => ⟨place, t, rfl, hget, hne, ?_, ?_⟩⟩
    · rw [hw, ← List.singleton_append, ← List.append_assoc] at hall
      exact absurd hall.of_append hnot
    · rw [htake]
      exact hviable
    · rw [htake]
      exact hnot

theorem error_of_parse_stray :
    (parse [.space, .atom .b, .rightParen]).value = .error (.unexpectedToken 2 .rightParen) ∧
      Viable [.atom .b] ∧ ¬ Viable [.atom .b, .rightParen] := by
  have hparse : (parse [.space, .atom .b, .rightParen]).value =
      .error (.unexpectedToken 2 .rightParen) := rfl
  obtain ⟨hincomplete, hplace⟩ := error_of_parse hparse
  have hnot : ¬ Viable [.atom .b, .rightParen] := by
    intro h
    cases hincomplete.mpr h
  obtain ⟨place, found, herror, -, -, hviable, -⟩ := hplace hnot
  cases herror
  exact ⟨hparse, hviable, hnot⟩

end Forward.Pattern
