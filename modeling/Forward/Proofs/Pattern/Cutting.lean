/-
  Cutting: what the lexer of patterns makes of a text, whatever stands in it.

  `Cut n cs ts rest` says how the characters `cs`, the first of them at the position `n`, are cut:
  `ts` are the tokens with their spans, and `rest` is what is left when there is no further token.
  It has a constructor for each kind of thing that can stand in front of the lexer.  A blank run
  becomes a token only if something comes behind it.  At the end of the text it is taken and read
  past, and gives no token; whatever else is left begins with a character that is no symbol.

  Every text can be cut (`exists_cut`), and the lexer cuts it that way (`Cut.take`, by induction on
  the cut, with one lemma about a single attempt for each constructor).
-/
import Forward.Proofs.Pattern.Lexing
import Forward.Proofs.Sweeps

namespace Forward

open Attempt

namespace Token

/-! ## How a text is cut -/

/-- The characters `cs`, from the position `n` on, are cut into the tokens `ts`, and `rest` is
    left. -/
inductive Cut : Nat → List Char → List (Token × Span) → List Char → Prop where
  /-- Blanks at the end of a text, if there are any, are no token. -/
  | trailing {n : Nat} {run : List Char} (blank : ∀ c ∈ run, c ∈ Token.blanks.toList) :
      Cut n run [] []
  /-- A character that is neither a blank nor a symbol is left, with everything behind it. -/
  | obstacle {n : Nat} {c : Char} {cs : List Char} (solid : c ∉ Token.blanks.toList)
      (unknown : symbols.lookup c = none) : Cut n (c :: cs) [] (c :: cs)
  /-- A symbol is a token. -/
  | symbol {n : Nat} {t : Token} {c : Char} {cs rest : List Char} {ts : List (Token × Span)}
      (written : t.symbol = some c) (later : Cut (n + 1) cs ts rest) :
      Cut n (c :: cs) ((t, ⟨n, n + 1⟩) :: ts) rest
  /-- A blank run in front of something else is a token. -/
  | blanks {n : Nat} {run : List Char} {c : Char} {cs rest : List Char} {ts : List (Token × Span)}
      (some : run ≠ []) (blank : ∀ c ∈ run, c ∈ Token.blanks.toList)
      (solid : c ∉ Token.blanks.toList) (later : Cut (n + run.length) (c :: cs) ts rest) :
      Cut n (run ++ c :: cs) ((.space, ⟨n, n + run.length⟩) :: ts) rest

/-- Every text begins with blanks, if only with none of them. -/
theorem exists_blank_run (cs : List Char) :
    ∃ run later, cs = run ++ later ∧ (∀ c ∈ run, c ∈ blanks.toList) ∧
      ∀ c, later.head? = some c → c ∉ blanks.toList := by
  induction cs with
  | nil => exact ⟨[], [], rfl, by rintro c ⟨⟩, by rintro c ⟨⟩⟩
  | cons c cs ih =>
    by_cases hc : c ∈ blanks.toList
    · obtain ⟨run, later, rfl, hrun, hlater⟩ := ih
      refine ⟨c :: run, later, rfl, fun d hd => ?_, hlater⟩
      rcases List.mem_cons.mp hd with rfl | hd
      · exact hc
      · exact hrun d hd
    · refine ⟨[], c :: cs, rfl, by rintro d ⟨⟩, ?_⟩
      rintro d ⟨⟩
      exact hc

/-- Every text can be cut. -/
theorem exists_cut (n : Nat) (cs : List Char) : ∃ ts rest, Cut n cs ts rest := by
  induction hlength : cs.length using Nat.strongRecOn generalizing n cs with
  | _ length ih =>
    obtain ⟨run, later, rfl, hrun, hlater⟩ := exists_blank_run cs
    cases later with
    | nil =>
      rw [List.append_nil]
      exact ⟨[], [], .trailing hrun⟩
    | cons c later =>
      have hc : c ∉ blanks.toList := hlater c rfl
      rw [List.length_append, List.length_cons] at hlength
      by_cases hsome : run = []
      · subst hsome
        cases hlookup : symbols.lookup c with
        | none => exact ⟨[], c :: later, .obstacle hc hlookup⟩
        | some t =>
          obtain ⟨ts, rest, hcut⟩ := ih later.length (by omega) (n + 1) later rfl
          exact ⟨_, rest, .symbol (lookup_eq_some.mp hlookup) hcut⟩
      · have hpos : 0 < run.length := List.length_pos_iff.mpr hsome
        obtain ⟨ts, rest, hcut⟩ := ih (c :: later).length (by rw [List.length_cons]; omega)
          (n + run.length) (c :: later) rfl
        exact ⟨_, rest, .blanks hsome hrun hc hcut⟩

/-- What is left of a text begins with a character that is neither a blank nor a symbol. -/
theorem Cut.head_rest {n : Nat} {cs rest : List Char} {ts : List (Token × Span)} {c : Char}
    (h : Cut n cs ts rest) (hc : rest.head? = some c) :
    c ∉ Token.blanks.toList ∧ symbols.lookup c = none := by
  induction h with
  | trailing => cases hc
  | obstacle solid unknown =>
    cases hc
    exact ⟨solid, unknown⟩
  | symbol _ _ ih => exact ih hc
  | blanks _ _ _ _ ih => exact ih hc

/-! ## One attempt -/

/-- A character that is neither a blank nor a symbol stops the lexer in front of it. -/
theorem yields_matcher_failed {s : Scan Char} {c : Char} {cs : List Char}
    (h : s.cursor.remaining = c :: cs) (hc : c ∉ blanks.toList)
    (hunknown : symbols.lookup c = none) {bound : Nat} (hbound : 0 < bound) :
    Yields (matcher.run .empty bound) s .failed s := by
  refine yields_matcher_of_solid h hc ?_ hbound
  constructor <;> simp only [take_of_remaining h, hunknown]

/-- A blank run in front of another character is read as a whole. -/
theorem yields_matcher_space {s : Scan Char} {run cs : List Char} {c : Char} (hsome : run ≠ [])
    (h : s.cursor.remaining = run ++ c :: cs) (hrun : ∀ c ∈ run, c ∈ blanks.toList)
    (hc : c ∉ blanks.toList) {bound : Nat} (hbound : run.length < bound) :
    ∃ s', Yields (matcher.run .empty bound) s (.matched .space) s' ∧
      s'.position = s.position + run.length ∧ s'.cursor.remaining = c :: cs := by
  have hrem : (s.cursor.past run.length).remaining = c :: cs := Cursor.remaining_past h
  have hrounds := rounds_satisfy (p := fun d => decide (d ∈ blanks.toList)) s.captures h
    fun d hd => decide_eq_true (hrun d hd)
  have hstop : Yields (satisfy fun d => decide (d ∈ blanks.toList))
      ⟨s.cursor.past run.length, s.captures⟩ .failed ⟨s.cursor.past run.length, s.captures⟩ :=
    yields_satisfy_failed (Cursor.shown_of_remaining hrem) (decide_eq_false hc)
  have hunbounded : Repetition.oneOrMore.most = none := rfl
  have hall := hrounds.yields_repeated hstop hunbounded hbound
  have hcounted : counted .oneOrMore run = .matched run := by
    have hleast : 1 ≤ run.length := List.length_pos_iff.mpr hsome
    have hadmits : Repetition.oneOrMore.admits run.length = true := by
      rw [Repetition.admits, Bool.and_eq_true]
      exact ⟨decide_eq_true hleast, rfl⟩
    rw [counted, if_pos hadmits]
  rw [hcounted] at hall
  exact ⟨_, (hall.map fun _ => Token.space).either_left (by rintro ⟨⟩) _, Cursor.position_past h,
    hrem⟩

/-- At the end of a text there is no token, whether blanks are left or nothing at all. -/
theorem yields_matcher_trailing {s : Scan Char} {run : List Char} (h : s.cursor.remaining = run)
    (hrun : ∀ c ∈ run, c ∈ blanks.toList) {bound : Nat} (hbound : run.length < bound) :
    ∃ o s', Yields (matcher.run .empty bound) s o s' ∧ (∀ t, o ≠ .matched t) ∧
      s'.cursor.remaining = [] := by
  by_cases hsome : run = []
  · subst hsome
    have honward := matcher.run_onward .empty bound s
    exact ⟨_, _, ⟨rfl, rfl⟩, not_matched_of_exhausted h bound, honward.remaining_nil h⟩
  · -- every blank passes the test, so the run of them is read to the end and past it
    have hgoes : ¬ s.cursor.Stops fun d => decide (d ∈ blanks.toList) := by
      rintro (⟨d, hd, hfails⟩ | ⟨hnone, -⟩)
      · exact of_decide_eq_false hfails (hrun d (h ▸ hd))
      · exact hsome (h.symm.trans hnone)
    have hunbounded : Repetition.oneOrMore.most = none := rfl
    have hall := yields_of_not_stops s.captures hgoes hunbounded (h ▸ hbound)
    exact ⟨_, _, (hall.map fun _ => Token.space).either_left (by rintro ⟨⟩) _, by rintro t ⟨⟩, rfl⟩

/-! ## A whole text -/

/-- A lexer for tokens and their spans gives the tokens into which the text is cut, and stops in
    front of what is left. -/
theorem Cut.take {n : Nat} {cs rest : List Char} {ts : List (Token × Span)} (h : Cut n cs ts rest)
    {l : Lexer Char (Token × Span)} {bound : Nat} (hbound : cs.length < bound)
    (htoken : l.token = (matcher.run .empty bound).spanned) (running : l.halted = false)
    (hposition : l.position = n) (hrem : l.scan.cursor.remaining = cs) {k : Nat}
    (hk : cs.length < k) :
    (Lexer.take k l).tokens = ts ∧ (Lexer.take k l).lexer.scan.cursor.remaining = rest := by
  induction h generalizing l k with
  | @trailing n run blank =>
    obtain ⟨k, rfl⟩ : ∃ j, k = j + 1 := ⟨k - 1, by omega⟩
    obtain ⟨o, s', hstop, hnot, hend⟩ :=
      yields_matcher_trailing (s := l.scan.fresh) hrem blank hbound
    have hspanned := hstop.spanned
    rw [← htoken] at hspanned
    obtain ⟨htokens, hscan⟩ := Lexer.take_of_stopped running hspanned (by
      rintro value hvalue
      cases o with
      | matched t => exact hnot t rfl
      | _ => cases hvalue) k
    rw [hscan]
    exact ⟨htokens, hend⟩
  | @obstacle n c cs solid unknown =>
    obtain ⟨k, rfl⟩ : ∃ j, k = j + 1 := ⟨k - 1, by omega⟩
    have hstop := (yields_matcher_failed (s := l.scan.fresh) hrem solid unknown
      (Nat.zero_lt_of_lt hbound)).spanned
    rw [← htoken] at hstop
    obtain ⟨htokens, hscan⟩ := Lexer.take_of_stopped running hstop (by rintro value ⟨⟩) k
    rw [hscan]
    exact ⟨htokens, hrem⟩
  | @symbol n t c cs rest ts written later ih =>
    rw [List.length_cons] at hbound hk
    obtain ⟨k, rfl⟩ : ∃ j, k = j + 1 := ⟨k - 1, by omega⟩
    have hstep := (yields_matcher (s := l.scan.fresh) hrem written
      (Nat.zero_lt_of_lt hbound)).spanned
    rw [← htoken] at hstep
    obtain ⟨htokens, hlexer⟩ := Lexer.take_of_yields running hstep k
    have hrest := ih (l := { l with scan := ⟨⟨l.position + 1, .after c cs⟩, .empty⟩ }) (by omega)
      htoken running (congrArg (· + 1) hposition) (Front.remaining_after c cs)
      (k := k) (by omega)
    rw [htokens, hlexer, ← hposition]
    exact ⟨congrArg (_ :: ·) hrest.1, hrest.2⟩
  | @blanks n run c cs rest ts some blank solid later ih =>
    rw [List.length_append] at hbound hk
    have hpos : 0 < run.length := List.length_pos_iff.mpr some
    obtain ⟨k, rfl⟩ : ∃ j, k = j + 1 := ⟨k - 1, by omega⟩
    obtain ⟨s', hspace, hposition', hrem'⟩ := yields_matcher_space (s := l.scan.fresh) some hrem
      blank solid (show run.length < bound by omega)
    have hstep := hspace.spanned
    rw [← htoken] at hstep
    obtain ⟨htokens, hlexer⟩ := Lexer.take_of_yields running hstep k
    have hplace : s'.position = n + run.length := by rw [hposition', ← hposition]; rfl
    have hrest := ih (l := { l with scan := s' }) (by omega) htoken running hplace hrem'
      (k := k) (by omega)
    rw [htokens, hlexer, ← hplace, ← hposition]
    exact ⟨congrArg (_ :: ·) hrest.1, hrest.2⟩

/-- The tokens of a text, and what is left of it, are those into which it is cut. -/
theorem Cut.spannedHaul {source : String} {ts : List (Token × Span)} {rest : List Char}
    (h : Cut 0 source.toList ts rest) :
    (Token.spannedHaul source).tokens = ts ∧
      (Token.spannedHaul source).lexer.scan.cursor.remaining = rest := by
  have hlength : source.toList.length = source.length := String.length_toList
  have hbound : source.toList.length < source.length + 2 := by omega
  have hcount : source.toList.length < source.length + 1 := by omega
  exact h.take (l := lexerOf matcher.spanned source) hbound rfl rfl rfl (Cursor.remaining_ofList _)
    hcount

/-- The lexer stays in the text. -/
theorem over_spannedHaul (source : String) :
    (spannedHaul source).lexer.scan.cursor.Over source.toList :=
  Lexer.over_take (Cursor.over_ofList _)
    (Matcher.run_moves (kept_over _) .empty _ matcher.spanned) _

/-- A text is all tokens if nothing is left of it, and otherwise the first character that is left is
    reported, at its position. -/
theorem Cut.scanAll {source : String} {ts : List (Token × Span)} {rest : List Char}
    (h : Cut 0 source.toList ts rest) :
    (rest = [] → (Token.scanAll source).value = .ok ts) ∧
      ∀ c later, rest = c :: later → ∃ position,
        (Token.scanAll source).value = .error (.unknownSymbol position c) ∧
          source.toList.drop position = c :: later := by
  obtain ⟨htokens, hrem⟩ := h.spannedHaul
  have hdrop := (over_spannedHaul source).remaining
  rw [hrem] at hdrop
  unfold Token.scanAll Lexer.obstacle
  simp only [hrem, htokens]
  constructor
  · rintro rfl
    rfl
  · rintro c later rfl
    exact ⟨_, rfl, hdrop.symm⟩

end Token
end Forward
