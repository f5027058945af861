/-
  Lexing what was printed: the text of some tokens is cut into these tokens.

  Every token but the blank run is a single character, and none of these characters is a blank.
  So the lexer reads a text of such characters one token at a time: the attempt of a blank run
  fails on each of them without taking it, and the symbol behind it takes it (`yields_matcher`).
  Behind the last one nothing can be taken, and whatever the lexer makes of the character that is
  still on show, it is no token (`not_matched_of_exhausted`).
-/
import Forward.Pattern.Tokens
import Forward.Proofs.Progress
import Forward.Proofs.Sessions

namespace Forward

open Attempt

namespace Token

/-! ## Symbols and blanks -/

theorem exists_symbol {t : Token} (h : t ≠ .space) : ∃ c, t.symbol = some c := by
  cases t with
  | space => exact absurd rfl h
  | _ => exact ⟨_, rfl⟩

/-- Tokens without a blank have one character each. -/
theorem length_symbols {ts : List Token} (h : Token.space ∉ ts) :
    (ts.filterMap symbol).length = ts.length := by
  induction ts with
  | nil => rfl
  | cons t ts ih =>
    obtain ⟨c, hc⟩ := exists_symbol (List.ne_of_not_mem_cons h).symm
    have hlater := ih (List.not_mem_of_not_mem_cons h)
    rw [List.filterMap_cons_some hc, List.length_cons, List.length_cons, hlater]

/-- No symbol is a blank. -/
theorem notMem_blanks {t : Token} {c : Char} (h : t.symbol = some c) : c ∉ blanks.toList := by
  cases t with
  | atom letter => cases letter <;> cases h <;> decide
  | space => cases h
  | _ => cases h; decide

/-! ## One token -/

/-- Where no blank stands, the blank run leaves the scan where it is, for the symbol. -/
theorem yields_matcher_of_solid {s s' : Scan Char} {c : Char} {cs : List Char} {o : Outcome Token}
    (h : s.cursor.remaining = c :: cs) (hc : c ∉ blanks.toList)
    (hsymbol : Yields (take symbols.lookup) s o s') {bound : Nat} (hbound : 0 < bound) :
    Yields (matcher.run .empty bound) s o s' := by
  have hblank : Yields (satisfy fun d => decide (d ∈ blanks.toList)) s .failed s :=
    yields_satisfy_failed (Cursor.shown_of_remaining h) (decide_eq_false hc)
  have hrounds : Yields (repeated .oneOrMore bound (satisfy fun d => decide (d ∈ blanks.toList))) s
      .failed s := (Rounds.done s).yields_repeated hblank rfl hbound
  exact (hrounds.map fun _ => Token.space).either hsymbol

/-- Where a symbol stands, its token is read and nothing else. -/
theorem yields_matcher {s : Scan Char} {t : Token} {c : Char} {cs : List Char}
    (h : s.cursor.remaining = c :: cs) (hc : t.symbol = some c) {bound : Nat} (hbound : 0 < bound) :
    Yields (matcher.run .empty bound) s (.matched t)
      ⟨⟨s.position + 1, .after c cs⟩, s.captures⟩ := by
  refine yields_matcher_of_solid h (notMem_blanks hc) ?_ hbound
  constructor <;> simp only [take_of_remaining h, lookup_symbol hc]

/-- Every token takes a character. -/
theorem advances_matcher (bound : Nat) : Advances (matcher.run .empty bound) := by
  have honward : Moves Onward (satisfy fun d => decide (d ∈ blanks.toList)) :=
    moves_take kept_onward _
  have hleast : 0 < Repetition.oneOrMore.least.toNat := by decide
  have hblank : Advances (satisfy fun d => decide (d ∈ blanks.toList)) := advances_take _
  have hrounds := (hblank.repeated honward hleast bound).map fun _ => Token.space
  exact hrounds.either ((honward.repeated kept_onward _ _).map _) (advances_take symbols.lookup)

/-- With nothing left there is no token. -/
theorem not_matched_of_exhausted {s : Scan Char} (h : s.cursor.remaining = []) (bound : Nat)
    (t : Token) : (matcher.run .empty bound s).outcome ≠ .matched t :=
  (advances_matcher bound).ne_matched_of_exhausted (matcher.run_onward .empty bound) h t

/-! ## A whole text -/

/-- A lexer in front of symbols gives their tokens. -/
theorem tokens_take {ts : List Token} {l : Lexer Char Token} {bound : Nat} (hbound : 0 < bound)
    (htoken : l.token = matcher.run .empty bound) (running : l.halted = false)
    (hspace : Token.space ∉ ts) (h : l.scan.cursor.remaining = ts.filterMap symbol)
    {n : Nat} (hn : ts.length < n) : (Lexer.take n l).tokens = ts := by
  induction ts generalizing l n with
  | nil =>
    obtain ⟨n, rfl⟩ : ∃ k, n = k + 1 := ⟨n - 1, by omega⟩
    have hnot := not_matched_of_exhausted (s := l.scan.fresh) h bound
    rw [← htoken] at hnot
    exact (Lexer.take_of_stopped running ⟨rfl, rfl⟩ hnot n).1
  | cons t ts ih =>
    have hne : t ≠ .space := (List.ne_of_not_mem_cons hspace).symm
    have hlater : Token.space ∉ ts := List.not_mem_of_not_mem_cons hspace
    obtain ⟨c, hc⟩ := exists_symbol hne
    rw [List.filterMap_cons_some hc] at h
    obtain ⟨n, rfl⟩ : ∃ k, n = k + 1 := ⟨n - 1, by omega⟩
    -- the lexer begins each token with nothing captured
    have hstep := yields_matcher (s := l.scan.fresh) h hc hbound
    rw [← htoken] at hstep
    rw [(Lexer.take_of_yields running hstep n).1]
    refine congrArg (t :: ·) ?_
    apply ih
    · exact htoken
    · exact running
    · exact hlater
    · exact Front.remaining_after c (ts.filterMap symbol)
    · exact Nat.lt_of_succ_lt_succ hn

/-- The text of tokens without a blank is cut into these tokens. -/
theorem scan_text {ts : List Token} (h : Token.space ∉ ts) :
    (scan (String.ofList (ts.filterMap symbol))).value = ts := by
  refine tokens_take (Nat.succ_pos _) rfl rfl h ?_ ?_
  · show (Cursor.ofList (String.ofList (ts.filterMap symbol)).toList).remaining = _
    rw [Cursor.remaining_ofList, String.toList_ofList]
  · rw [String.length_ofList, length_symbols h]
    exact Nat.lt_succ_self _

end Token
end Forward
