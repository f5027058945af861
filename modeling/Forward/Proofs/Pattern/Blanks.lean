/-
  Blanks: they separate nothing in a pattern, and only move what is behind them.

  `solid` keeps the characters that are no blanks.  Without its blanks a text is cut into the same
  tokens, less the blank runs, and what is left of it begins at the same character (`Cut.solid`, by
  induction on the cut).  The reader skips blank runs, so that it makes the same pattern of the
  tokens, or is stopped at the same one (`value_parse_nonBlank`).

  Three ways of counting meet in the position of an error: among the tokens that count, among all
  tokens, and among the characters.  `Cut.start` goes from a token to its first character, and says
  how many characters that are no blanks stand in front of it: as many as tokens that count.
-/
import Forward.Pattern.Recognizer
import Forward.Proofs.Pattern.Cutting
import Forward.Proofs.Pattern.Rejection

namespace Forward

namespace Token

open Pattern

/-! ## Characters that are no blanks -/

/-- The characters that are no blanks. -/
def solid (cs : List Char) : List Char := cs.filter fun c => decide (c ∉ blanks.toList)

theorem solid_append (cs ds : List Char) : solid (cs ++ ds) = solid cs ++ solid ds :=
  List.filter_append ..

theorem solid_of_blank {run : List Char} (h : ∀ c ∈ run, c ∈ blanks.toList) : solid run = [] :=
  List.filter_eq_nil_iff.mpr fun c hc hsolid => of_decide_eq_true hsolid (h c hc)

theorem solid_cons {c : Char} (h : c ∉ blanks.toList) (cs : List Char) :
    solid (c :: cs) = c :: solid cs :=
  List.filter_cons_of_pos (decide_eq_true h)

/-! ## Cutting without blanks -/

/-- Tokens of one character each, the first of them at the position `n`. -/
def oneEach (n : Nat) (ts : List Token) : List (Token × Span) :=
  (ts.zipIdx n).map fun entry => (entry.1, ⟨entry.2, entry.2 + 1⟩)

theorem map_fst_oneEach (n : Nat) (ts : List Token) : (oneEach n ts).map Prod.fst = ts := by
  rw [oneEach, List.map_map]
  exact List.zipIdx_map_fst n ts

theorem getElem?_oneEach {n i : Nat} {ts : List Token} {t : Token} (h : ts[i]? = some t) :
    (oneEach n ts)[i]? = some (t, ⟨n + i, n + i + 1⟩) := by
  rw [oneEach, List.getElem?_map, List.getElem?_zipIdx, h]
  rfl

/-- Without its blanks a text is cut into the same tokens, less the blank runs, and the same is left
    of it, less its blanks. -/
theorem Cut.solid {n : Nat} {cs rest : List Char} {ts : List (Token × Span)}
    (h : Cut n cs ts rest) (m : Nat) :
    Cut m (Token.solid cs) (oneEach m (nonBlank (ts.map Prod.fst))) (Token.solid rest) := by
  induction h generalizing m with
  | trailing blank =>
    rw [solid_of_blank blank]
    exact .trailing (by rintro c ⟨⟩)
  | obstacle hsolid unknown =>
    rw [solid_cons hsolid]
    exact .obstacle hsolid unknown
  | @symbol n t c cs rest ts written later ih =>
    have ht : t ≠ .space := by
      rintro rfl
      cases written
    rw [solid_cons (notMem_blanks written), List.map_cons, nonBlank_cons ht]
    exact .symbol written (ih (m + 1))
  | blanks some blank hsolid later ih =>
    rw [solid_append, solid_of_blank blank]
    exact ih m

/-- A token that counts begins at the character it is written as.  In front of it there are as many
    characters that are no blanks as tokens that count. -/
theorem Cut.start {n : Nat} {cs rest : List Char} {ts : List (Token × Span)} (h : Cut n cs ts rest)
    {k : Nat} {t : Token} {span : Span} (hk : ts[k]? = some (t, span)) (ht : t ≠ .space) :
    ∃ j, span.start = n + j ∧ cs[j]? = t.symbol ∧
      (Token.solid (cs.take j)).length = (nonBlank ((ts.map Prod.fst).take k)).length := by
  induction h generalizing k with
  | trailing => cases hk
  | obstacle => cases hk
  | @symbol n u c cs rest ts written later ih =>
    cases k with
    | zero =>
      cases hk
      exact ⟨0, rfl, written.symm, rfl⟩
    | succ k =>
      have hu : u ≠ .space := by
        rintro rfl
        cases written
      obtain ⟨j, hstart, hget, hcount⟩ := ih hk
      refine ⟨j + 1, by omega, hget, ?_⟩
      rw [List.take_succ_cons, solid_cons (notMem_blanks written), List.map_cons,
        List.take_succ_cons, nonBlank_cons hu, List.length_cons, List.length_cons, hcount]
  | @blanks n run c cs rest ts some blank hsolid later ih =>
    cases k with
    | zero =>
      cases hk
      exact absurd rfl ht
    | succ k =>
      obtain ⟨j, hstart, hget, hcount⟩ := ih hk
      refine ⟨run.length + j, by omega, ?_, ?_⟩
      · rw [List.getElem?_append_right (Nat.le_add_right _ _), Nat.add_sub_cancel_left]
        exact hget
      · rw [List.take_length_add_append, solid_append, solid_of_blank blank, List.nil_append,
          hcount]
        rfl

end Token

namespace Pattern

open Token

/-! ## Reading without blanks -/

theorem nonBlank_nonBlank (tokens : List Token) : nonBlank (nonBlank tokens) = nonBlank tokens :=
  nonBlank_eq_self (space_notMem_nonBlank tokens)

/-- The reader is given the same tokens with and without blanks between them. -/
theorem readRun_nonBlank (tokens : List Token) : readRun (nonBlank tokens) = readRun tokens := by
  have hstream : stream (nonBlank tokens) = stream tokens := by
    unfold stream
    have hmap : ∀ us : List Token, (significant us).map (fun entry => some entry.1) =
        (nonBlank us).map some := by
      intro us
      rw [← map_significant, List.map_map]
      rfl
    rw [hmap, hmap, nonBlank_nonBlank]
  unfold readRun
  rw [hstream]

/-- Without blanks the places of the tokens that count are their numbers. -/
theorem getElem?_significant_nonBlank (tokens : List Token) (i : Nat) :
    (significant (nonBlank tokens))[i]? = (nonBlank tokens)[i]?.map fun t => (t, i) := by
  have hall : significant (nonBlank tokens) = (nonBlank tokens).zipIdx := by
    refine List.filter_eq_self.mpr fun entry hentry => decide_eq_true ?_
    intro hspace
    refine space_notMem_nonBlank tokens ?_
    rw [← hspace]
    exact List.fst_mem_of_mem_zipIdx hentry
  rw [hall, List.getElem?_zipIdx, Nat.zero_add]

/-- What is wrong at a token that counts is the same without the blanks, but for the place. -/
theorem rejection_nonBlank (tokens : List Token) (s : Scan (Option Token)) :
    (rejection tokens s = .incomplete ∧ rejection (nonBlank tokens) s = .incomplete) ∨
      ∃ place found, rejection tokens s = .unexpectedToken place found ∧
        rejection (nonBlank tokens) s =
          .unexpectedToken (nonBlank (tokens.take place)).length found := by
  have hmap : (nonBlank tokens)[s.position]? = (significant tokens)[s.position]?.map Prod.fst := by
    rw [← map_significant, List.getElem?_map]
  unfold rejection
  rw [getElem?_significant_nonBlank, hmap]
  cases hentry : (significant tokens)[s.position]? with
  | none => cases s.cursor.shown with
    | none => exact Or.inl ⟨rfl, rfl⟩
    | some shown => cases shown <;> exact Or.inl ⟨rfl, rfl⟩
  | some entry => cases s.cursor.shown with
    | none => exact Or.inl ⟨rfl, rfl⟩
    | some shown => cases shown with
      | none => exact Or.inl ⟨rfl, rfl⟩
      | some found =>
        obtain ⟨t, place⟩ := entry
        obtain ⟨-, -, htake⟩ := place_of_significant hentry
        have hlt : s.position < (nonBlank tokens).length := by
          rw [hentry] at hmap
          exact (List.getElem?_eq_some_iff.mp hmap).1
        refine Or.inr ⟨place, found, rfl, ?_⟩
        rw [htake, List.length_take, Nat.min_eq_left (Nat.le_of_lt hlt)]
        rfl

/-- Where the reader accepts some tokens it accepts them without the blanks.  Where it rejects them
    it says the same, and names the same token: as many tokens that count are in front of it. -/
theorem value_parse_nonBlank (tokens : List Token) :
    (∃ p, (parse tokens).value = .ok p ∧ (parse (nonBlank tokens)).value = .ok p) ∨
      ((parse tokens).value = .error .incomplete ∧
        (parse (nonBlank tokens)).value = .error .incomplete) ∨
      ∃ place found, (parse tokens).value = .error (.unexpectedToken place found) ∧
        (parse (nonBlank tokens)).value =
          .error (.unexpectedToken (nonBlank (tokens.take place)).length found) := by
  unfold parse
  rw [readRun_nonBlank]
  cases houtcome : (readRun tokens).outcome with
  | matched p =>
    simp only [houtcome]
    exact Or.inl ⟨p, rfl, rfl⟩
  | failed =>
    simp only [houtcome]
    rcases rejection_nonBlank tokens (readRun tokens).scan with
      ⟨hwith, hwithout⟩ | ⟨place, found, hwith, hwithout⟩
    · exact Or.inr (Or.inl ⟨congrArg Except.error hwith, congrArg Except.error hwithout⟩)
    · exact Or.inr (Or.inr
        ⟨place, found, congrArg Except.error hwith, congrArg Except.error hwithout⟩)
  | _ =>
    refine Or.inr (Or.inl ?_)
    simp only [houtcome, and_self]

/-- The token that the reader is stopped at is there, and counts. -/
theorem getElem?_of_unexpectedToken {tokens : List Token} {place : Nat} {found : Token}
    (h : (parse tokens).value = .error (.unexpectedToken place found)) :
    tokens[place]? = some found ∧ found ≠ .space := by
  obtain ⟨hincomplete, hplace⟩ := error_of_parse h
  have hnot : ¬ Viable (nonBlank tokens) := fun hviable => by cases hincomplete.mpr hviable
  obtain ⟨place', found', herror, hget, hne, -⟩ := hplace hnot
  cases herror
  exact ⟨hget, hne⟩

/-! ## A whole text -/

/-- The text without its blanks. -/
def withoutBlanks (source : String) : String := String.ofList (solid source.toList)

/-- How many characters that are no blanks stand in front of a position. -/
def solidBefore (source : String) (position : Nat) : Nat :=
  (solid (source.toList.take position)).length

theorem value_read_of_error {source : String} {e : ReadError}
    (h : (scanAll source).value = .error e) : (read source).value = .error e := by
  simp only [read, Logged.andThen, h]
  rfl

/-- Where the token number `index` begins among the characters. -/
def startOf (ts : List (Token × Span)) (index : Nat) : Nat :=
  match ts[index]? with
  | some (_, span) => span.start
  | none => index

theorem startOf_eq {ts : List (Token × Span)} {index : Nat} {t : Token} {span : Span}
    (h : ts[index]? = some (t, span)) : startOf ts index = span.start := by
  rw [startOf, h]

/-- A text that is all tokens is read like these, and a token that is to blame is reported where it
    begins. -/
theorem value_read_of_ok {source : String} {ts : List (Token × Span)}
    (h : (scanAll source).value = .ok ts) :
    (read source).value =
      (parse (ts.map Prod.fst)).value.mapError (ReadError.mapTokenPosition (startOf ts)) := by
  simp only [read, Logged.andThen, h]
  cases (parse (ts.map Prod.fst)).value <;> rfl

/-- Where the same is left behind two positions, with and without blanks, one of them is the place
    of the other among the characters that are no blanks. -/
theorem eq_solidBefore {source : String} {position place : Nat} {c : Char} {later : List Char}
    (h : source.toList.drop position = c :: later) (hc : c ∉ blanks.toList)
    (hplace : (solid source.toList).drop place = solid (c :: later)) :
    place = solidBefore source position := by
  have hall := congrArg List.length (solid_append (source.toList.take position) (c :: later))
  have hbehind := congrArg List.length hplace
  rw [← h, List.take_append_drop, h, List.length_append] at hall
  rw [List.length_drop] at hbehind
  rw [solid_cons hc, List.length_cons] at hall hbehind
  unfold solidBefore
  omega

/-- A text and the text without its blanks are read as the same pattern, or are rejected for the
    same reason.  What is named as the reason stands at the position that is named, and at the place
    of that position among the characters that are no blanks. -/
theorem read_withoutBlanks (source : String) :
    (∃ p, (read source).value = .ok p ∧ (read (withoutBlanks source)).value = .ok p) ∨
      ((read source).value = .error .incomplete ∧
        (read (withoutBlanks source)).value = .error .incomplete) ∨
      (∃ position found c, found.symbol = some c ∧ source.toList[position]? = some c ∧
        (read source).value = .error (.unexpectedToken position found) ∧
        (read (withoutBlanks source)).value =
          .error (.unexpectedToken (solidBefore source position) found)) ∨
      ∃ position found, found ∉ blanks.toList ∧ source.toList[position]? = some found ∧
        (read source).value = .error (.unknownSymbol position found) ∧
        (read (withoutBlanks source)).value =
          .error (.unknownSymbol (solidBefore source position) found) := by
  obtain ⟨ts, rest, hcut⟩ := exists_cut 0 source.toList
  have hcut' : Cut 0 (withoutBlanks source).toList (oneEach 0 (nonBlank (ts.map Prod.fst)))
      (solid rest) := by
    rw [withoutBlanks, String.toList_ofList]
    exact hcut.solid 0
  obtain ⟨hwhole, hleft⟩ := hcut.scanAll
  obtain ⟨hwhole', hleft'⟩ := hcut'.scanAll
  cases rest with
  | nil =>
    have hread := value_read_of_ok (hwhole rfl)
    have hread' := value_read_of_ok (hwhole' rfl)
    rw [map_fst_oneEach] at hread'
    rcases value_parse_nonBlank (ts.map Prod.fst) with
      ⟨p, hp, hp'⟩ | ⟨hp, hp'⟩ | ⟨place, found, hp, hp'⟩
    · rw [hp] at hread
      rw [hp'] at hread'
      exact Or.inl ⟨p, hread, hread'⟩
    · rw [hp] at hread
      rw [hp'] at hread'
      exact Or.inr (Or.inl ⟨hread, hread'⟩)
    · -- from the place among all tokens to the characters, and to the place without blanks
      obtain ⟨hget, hne⟩ := getElem?_of_unexpectedToken hp
      obtain ⟨hget', -⟩ := getElem?_of_unexpectedToken hp'
      rw [List.getElem?_map, Option.map_eq_some_iff] at hget
      obtain ⟨⟨t, span⟩, hspan, rfl⟩ := hget
      obtain ⟨j, hstart, hchar, hcount⟩ := hcut.start hspan hne
      obtain ⟨c, hc⟩ := exists_symbol hne
      rw [Nat.zero_add] at hstart
      have hplace : startOf (oneEach 0 (nonBlank (ts.map Prod.fst)))
          (nonBlank ((ts.map Prod.fst).take place)).length = solidBefore source span.start := by
        rw [startOf_eq (getElem?_oneEach hget'), ← hcount, hstart]
        exact Nat.zero_add _
      have herror : (read source).value = .error (.unexpectedToken span.start t) := by
        rw [hread, hp, ← startOf_eq hspan]
        rfl
      have herror' : (read (withoutBlanks source)).value =
          .error (.unexpectedToken (solidBefore source span.start) t) := by
        rw [hread', hp', ← hplace]
        rfl
      refine Or.inr (Or.inr (Or.inl ⟨span.start, t, c, hc, ?_, herror, herror'⟩))
      rw [hstart, hchar]
      exact hc
  | cons c later =>
    obtain ⟨hc, -⟩ := hcut.head_rest rfl
    obtain ⟨position, hscan, hdrop⟩ := hleft c later rfl
    obtain ⟨place, hscan', hdrop'⟩ := hleft' c (solid later) (solid_cons hc later)
    have hplace : place = solidBefore source position := by
      refine eq_solidBefore hdrop hc ?_
      rw [solid_cons hc, ← hdrop', withoutBlanks, String.toList_ofList]
    have hget : source.toList[position]? = some c := by
      rw [← List.head?_drop, hdrop]
      rfl
    rw [hplace] at hscan'
    exact Or.inr (Or.inr (Or.inr
      ⟨position, c, hc, hget, value_read_of_error hscan, value_read_of_error hscan'⟩))

end Pattern

namespace Recognizer

open Pattern Token

/-- Blanks play no part in what a text describes.  The text without its blanks describes the same
    recognizer, or it is wrong for the same reason.  Where a token or a character is to blame, it
    stands at the position that is reported.  Without the blanks it is the same one that is
    reported: its position is then the number of characters in front of it that are no blanks. -/
theorem ofSource_withoutBlanks (source : String) :
    (∀ r, (ofSource source).value = .ok r ↔ (ofSource (withoutBlanks source)).value = .ok r) ∧
      ((ofSource source).value = .error .incomplete ↔
        (ofSource (withoutBlanks source)).value = .error .incomplete) ∧
      (∀ position found, (ofSource source).value = .error (.unexpectedToken position found) →
        (∃ c, found.symbol = some c ∧ source.toList[position]? = some c) ∧
          (ofSource (withoutBlanks source)).value =
            .error (.unexpectedToken (solidBefore source position) found)) ∧
      (∀ position found, (ofSource source).value = .error (.unknownSymbol position found) →
        source.toList[position]? = some found ∧ found ∉ blanks.toList ∧
          (ofSource (withoutBlanks source)).value =
            .error (.unknownSymbol (solidBefore source position) found)) ∧
      ∀ position found, (ofSource source).value ≠ .error (.unknownRecord position found) := by
  have hvalue : ∀ text, (ofSource text).value = (read text).value.map Recognizer.mk := fun _ => rfl
  rw [hvalue, hvalue]
  rcases read_withoutBlanks source with
    ⟨p, hp, hp'⟩ | ⟨hp, hp'⟩ | ⟨position, found, c, hc, hget, hp, hp'⟩ |
      ⟨position, found, hblank, hget, hp, hp'⟩
  · rw [hp, hp']
    simp [Except.map]
  · rw [hp, hp']
    simp [Except.map]
  · rw [hp, hp']
    simp [Except.map, hc, hget]
  · rw [hp, hp']
    simp [Except.map, hblank, hget]

/-- Behind blanks a closing parenthesis is to blame, and without them the same one. -/
theorem ofSource_withoutBlanks_stray :
    (ofSource " B\t) W").value = .error (.unexpectedToken 3 .rightParen) ∧
      withoutBlanks " B\t) W" = "B)W" ∧
      (ofSource "B)W").value = .error (.unexpectedToken 1 .rightParen) := by
  have herror : (ofSource " B\t) W").value = .error (.unexpectedToken 3 .rightParen) := by rfl
  have hsource : withoutBlanks " B\t) W" = "B)W" := by decide
  obtain ⟨-, -, htoken, -, -⟩ := ofSource_withoutBlanks " B\t) W"
  obtain ⟨-, hsolid⟩ := htoken 3 .rightParen herror
  rw [hsource] at hsolid
  exact ⟨herror, hsource, hsolid⟩

end Recognizer
end Forward
