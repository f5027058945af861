/-
  Tiling: the tokens of a pattern cover its text, one behind the other and without a gap.

  How far they reach is said of the text alone.  A text whose characters are all symbols and blanks
  is covered up to the blanks at its end, and any other one up to its first character that is
  neither (`reach`).  `Covers cs entry` says of a token with its span that it is what stands there:
  a symbol at its index, or a blank run that could not be made longer at either end.

  That the lexer gives such tokens is read off the way it cuts a text, by induction on the cut: the
  spans lie one behind the other up to the reach of what is cut (`Cut.tiles`), each token covers
  what stands there (`Cut.covers`), and what is left begins with the first unknown character
  (`Cut.rest_eq`).  A run is not cut in two, because behind a blank the lexer never stands in front
  of another one; this is what is carried along the cut.

  Where two entries that cover a text start at the same index they are the same entry, and so there
  is only one such tiling (`tiling_unique`).
-/
import Forward.Proofs.Pattern.Cutting

namespace Forward

open Attempt

variable {α τ : Type}

/-! ## Tokens with and without their spans -/

namespace Lexer

/-- The lexer that hands out its tokens with the spans that they cover. -/
def spanned (l : Lexer α τ) : Lexer α (τ × Span) := ⟨l.scan, l.token.spanned, l.halted⟩

theorem next_spanned (l : Lexer α τ) :
    l.spanned.next.tokens.map Prod.fst = l.next.tokens ∧
      l.spanned.next.lexer = l.next.lexer.spanned := by
  cases hrun : l.halted with
  | true =>
    rw [next_of_halted hrun, next_of_halted (l := l.spanned) hrun]
    exact ⟨rfl, rfl⟩
  | false =>
    have hrun' : l.spanned.halted = false := hrun
    by_cases hmatched : ∃ value, (l.token l.scan.fresh).outcome = .matched value
    · obtain ⟨value, hvalue⟩ := hmatched
      have hyields : Yields l.token l.scan.fresh (.matched value) _ := ⟨hvalue, rfl⟩
      obtain ⟨htokens, hlexer⟩ := next_of_yields hrun hyields
      obtain ⟨htokens', hlexer'⟩ := next_of_yields hrun' hyields.spanned
      rw [htokens, hlexer, htokens', hlexer']
      exact ⟨rfl, rfl⟩
    · have hnot : ∀ value, (l.token l.scan.fresh).outcome ≠ .matched value :=
        fun value hvalue => hmatched ⟨value, hvalue⟩
      have hnot' : ∀ value, (l.spanned.token l.spanned.scan.fresh).outcome ≠ .matched value :=
        ne_matched_spanned hnot
      rw [tokens_next_of_not_matched hnot, lexer_next_of_not_matched hrun hnot,
        tokens_next_of_not_matched hnot', lexer_next_of_not_matched hrun' hnot']
      refine ⟨rfl, ?_⟩
      rw [spanned, (Yields.spanned ⟨rfl, rfl⟩).scan]
      rfl

/-- Asking for the spans as well changes nothing about the tokens. -/
theorem tokens_take_spanned (n : Nat) (l : Lexer α τ) :
    (take n l.spanned).tokens.map Prod.fst = (take n l).tokens := by
  induction n generalizing l with
  | zero => rfl
  | succ n ih =>
    obtain ⟨htokens, hlexer⟩ := l.next_spanned
    rw [take_succ, take_succ]
    unfold Haul.followedBy
    rw [List.map_append, htokens, hlexer, ih]

end Lexer

/-! ## Spans one behind the other -/

theorem Span.Tiles.le {start stop : Nat} {spans : List Span} (h : Tiles start spans stop)
    (forward : ∀ span ∈ spans, span.start ≤ span.stop) : start ≤ stop := by
  induction spans generalizing start with
  | nil => exact Nat.le_of_eq h.symm
  | cons span later ih =>
    obtain ⟨hstart, hlater⟩ := h
    have hfirst := forward span List.mem_cons_self
    have hrest := ih hlater fun s hs => forward s (List.mem_cons_of_mem span hs)
    omega

namespace Token

/-! ## How far tokens reach -/

/-- Is the character a blank? -/
def isBlank (c : Char) : Bool := decide (c ∈ blanks.toList)

/-- Is the character a symbol or a blank? -/
def known (c : Char) : Bool := symbols.contains c || isBlank c

/-- The index of the first character that is neither a symbol nor a blank; if there is none, the
    number of the characters. -/
def unknownAt (cs : List Char) : Nat := cs.findIdx fun c => !known c

/-- How many blanks there are at the end. -/
def trailing (cs : List Char) : Nat := (cs.reverse.takeWhile isBlank).length

/-- How far the tokens of a text reach: up to the first character that is neither a symbol nor a
    blank; without one, up to the blanks at the end. -/
def reach (cs : List Char) : Nat :=
  if unknownAt cs < cs.length then unknownAt cs else cs.length - trailing cs

theorem known_of_symbol {t : Token} {c : Char} (h : t.symbol = some c) : known c = true := by
  rw [known, Table.contains, lookup_symbol h]
  rfl

theorem known_of_blank {c : Char} (h : c ∈ blanks.toList) : known c = true := by
  rw [known, isBlank, decide_eq_true h, Bool.or_true]

theorem known_eq_false {c : Char} (solid : c ∉ blanks.toList) (unknown : symbols.lookup c = none) :
    known c = false := by
  rw [known, Table.contains, unknown, isBlank, decide_eq_false solid]
  rfl

theorem unknownAt_cons {c : Char} (hknown : known c = true) (cs : List Char) :
    unknownAt (c :: cs) = unknownAt cs + 1 := by
  rw [unknownAt, List.findIdx_cons, hknown]
  rfl

theorem trailing_le (cs : List Char) : trailing cs ≤ cs.length := by
  have hle := (List.takeWhile_sublist (l := cs.reverse) isBlank).length_le
  rwa [List.length_reverse] at hle

/-- What is in front of a character that is no blank does not count for the end. -/
theorem trailing_cons {c : Char} {cs : List Char} (h : ∃ d ∈ c :: cs, isBlank d = false) :
    trailing (c :: cs) = trailing cs := by
  unfold trailing
  rw [List.reverse_cons, List.takeWhile_append]
  split
  · next hlength =>
    -- nothing but blanks is behind, so that the character itself is none
    have hall : cs.reverse.takeWhile isBlank = cs.reverse :=
      (List.takeWhile_prefix isBlank).eq_of_length hlength
    have hc : isBlank c = false := by
      obtain ⟨d, hd, hsolid⟩ := h
      rcases List.mem_cons.mp hd with rfl | hd
      · exact hsolid
      · rw [← List.mem_reverse, ← hall] at hd
        have hblank := List.all_eq_true.mp List.all_takeWhile d hd
        rw [hsolid] at hblank
        cases hblank
    rw [List.takeWhile_cons_of_neg (by rw [hc]; exact Bool.false_ne_true), List.append_nil, hlength]
  · rfl

theorem reach_cons {c : Char} {cs : List Char} (hknown : known c = true)
    (h : ∃ d ∈ c :: cs, isBlank d = false) : reach (c :: cs) = reach cs + 1 := by
  unfold reach
  have := trailing_le cs
  rw [unknownAt_cons hknown, List.length_cons, trailing_cons h]
  split <;> split <;> omega

/-! ## What a token covers -/

/-- There is a blank at the index. -/
def BlankAt (cs : List Char) (i : Nat) : Prop := ∃ c, cs[i]? = some c ∧ c ∈ blanks.toList

/-- The token is what stands in the text where its span is. -/
inductive Covers (cs : List Char) : Token × Span → Prop where
  /-- A symbol, at its index. -/
  | symbol {t : Token} {c : Char} {n : Nat} (there : cs[n]? = some c)
      (written : t.symbol = some c) : Covers cs (t, ⟨n, n + 1⟩)
  /-- A run of blanks that does not go on at either end. -/
  | run {start stop : Nat} (some : start < stop)
      (blank : ∀ i, start ≤ i → i < stop → BlankAt cs i)
      (first : ∀ i, i + 1 = start → ¬ BlankAt cs i) (last : ¬ BlankAt cs stop) :
      Covers cs (.space, ⟨start, stop⟩)

theorem Covers.forward {cs : List Char} {entry : Token × Span} (h : Covers cs entry) :
    entry.2.start < entry.2.stop := by
  cases h with
  | symbol => exact Nat.lt_succ_self _
  | run some => exact some

theorem not_blankAt {cs : List Char} {n : Nat} {c : Char} (there : cs[n]? = some c)
    (solid : c ∉ blanks.toList) : ¬ BlankAt cs n := by
  rintro ⟨d, hd, hblank⟩
  obtain rfl : c = d := Option.some.inj (there.symm.trans hd)
  exact solid hblank

/-- The text and the start of a token decide which token it is and where it stops. -/
theorem Covers.unique {cs : List Char} {entry other : Token × Span} (h : Covers cs entry)
    (k : Covers cs other) (hstart : entry.2.start = other.2.start) : entry = other := by
  cases h with
  | symbol there written =>
    cases k with
    | symbol there' written' =>
      obtain rfl := hstart
      obtain rfl := Option.some.inj (there.symm.trans there')
      obtain rfl := Option.some.inj ((lookup_symbol written).symm.trans (lookup_symbol written'))
      rfl
    | run some blank =>
      obtain rfl := hstart
      exact absurd (blank _ (Nat.le_refl _) some) (not_blankAt there (notMem_blanks written))
  | @run start stop some blank first last =>
    cases k with
    | symbol there written =>
      obtain rfl := hstart
      exact absurd (blank _ (Nat.le_refl _) some) (not_blankAt there (notMem_blanks written))
    | @run start' stop' some' blank' first' last' =>
      obtain rfl : start = start' := hstart
      -- the shorter one of two runs would go on where it stops
      have hle : stop ≤ stop' := by
        apply Nat.le_of_not_lt
        intro hlt
        exact last' (blank stop' (Nat.le_of_lt some') hlt)
      have hge : stop' ≤ stop := by
        apply Nat.le_of_not_lt
        intro hlt
        exact last (blank' stop (Nat.le_of_lt some) hlt)
      obtain rfl := Nat.le_antisymm hle hge
      rfl

/-- No token covers an empty stretch. -/
theorem eq_nil_of_tiles {cs : List Char} {ts : List (Token × Span)} {n : Nat}
    (h : Span.Tiles n (ts.map Prod.snd) n) (covers : ∀ entry ∈ ts, Covers cs entry) : ts = [] := by
  cases ts with
  | nil => rfl
  | cons entry ts =>
    obtain ⟨hstart, hlater⟩ := h
    have hfirst := (covers entry List.mem_cons_self).forward
    have hrest : entry.2.stop ≤ n := by
      apply hlater.le
      intro span hspan
      obtain ⟨later, hmem, rfl⟩ := List.mem_map.mp hspan
      exact Nat.le_of_lt (covers later (List.mem_cons_of_mem entry hmem)).forward
    omega

/-- There is only one way to cover a stretch of a text with tokens. -/
theorem tiling_unique {cs : List Char} {ts us : List (Token × Span)} {start stop : Nat}
    (hts : Span.Tiles start (ts.map Prod.snd) stop) (hus : Span.Tiles start (us.map Prod.snd) stop)
    (covers : ∀ entry ∈ ts, Covers cs entry) (covers' : ∀ entry ∈ us, Covers cs entry) :
    ts = us := by
  induction ts generalizing us start with
  | nil =>
    obtain rfl : stop = start := hts
    exact (eq_nil_of_tiles hus covers').symm
  | cons entry ts ih =>
    cases us with
    | nil =>
      obtain rfl : stop = start := hus
      exact eq_nil_of_tiles hts covers
    | cons other us =>
      obtain ⟨hstart, hlater⟩ := hts
      obtain ⟨hstart', hlater'⟩ := hus
      obtain rfl := (covers entry List.mem_cons_self).unique (covers' other List.mem_cons_self)
        (hstart.trans hstart'.symm)
      have hrest := ih hlater hlater' (fun e he => covers e (List.mem_cons_of_mem _ he))
        fun e he => covers' e (List.mem_cons_of_mem _ he)
      rw [hrest]

/-! ## What a text is cut into -/

/-- Blanks at the end of a text are no token. -/
theorem reach_of_blank {run : List Char} (blank : ∀ c ∈ run, c ∈ blanks.toList) :
    reach run = 0 := by
  have hunknown : unknownAt run = run.length := by
    refine List.findIdx_eq_length.mpr fun c hc => ?_
    rw [known_of_blank (blank c hc)]
    rfl
  have htrailing : trailing run = run.length := by
    have hall : ∀ c ∈ run.reverse, isBlank c = true :=
      fun c hc => decide_eq_true (blank c (List.mem_reverse.mp hc))
    have htake : (run.reverse ++ []).takeWhile isBlank = run.reverse ++ [].takeWhile isBlank :=
      List.takeWhile_append_of_pos hall
    rw [List.append_nil, List.takeWhile_nil, List.append_nil] at htake
    rw [trailing, htake, List.length_reverse]
  rw [reach, hunknown, htrailing, if_neg (Nat.lt_irrefl _), Nat.sub_self]

/-- Blanks in front of something else belong to what is reached. -/
theorem reach_append {run : List Char} (blank : ∀ c ∈ run, c ∈ blanks.toList) {c : Char}
    (solid : c ∉ blanks.toList) (cs : List Char) :
    reach (run ++ c :: cs) = run.length + reach (c :: cs) := by
  induction run with
  | nil => exact (Nat.zero_add _).symm
  | cons d run ih =>
    have hlater := ih fun e he => blank e (List.mem_cons_of_mem d he)
    have hsolid : ∃ e ∈ d :: (run ++ c :: cs), isBlank e = false :=
      ⟨c, List.mem_cons_of_mem d (List.mem_append_right run List.mem_cons_self),
        decide_eq_false solid⟩
    have hd := known_of_blank (blank d List.mem_cons_self)
    rw [List.cons_append, reach_cons hd hsolid, hlater, List.length_cons]
    omega

/-- The spans of the tokens into which a text is cut lie one behind the other, up to its reach. -/
theorem Cut.tiles {n : Nat} {cs rest : List Char} {ts : List (Token × Span)}
    (h : Cut n cs ts rest) : Span.Tiles n (ts.map Prod.snd) (n + reach cs) := by
  induction h with
  | @trailing n run blank =>
    rw [reach_of_blank blank]
    rfl
  | @obstacle n c cs solid unknown =>
    have hall : reach (c :: cs) = 0 := by
      have hzero : unknownAt (c :: cs) = 0 := by
        rw [unknownAt, List.findIdx_cons, known_eq_false solid unknown]
        rfl
      rw [reach, hzero]
      exact if_pos (Nat.succ_pos cs.length)
    rw [hall]
    rfl
  | @symbol n t c cs rest ts written later ih =>
    have hsolid : ∃ d ∈ c :: cs, isBlank d = false :=
      ⟨c, List.mem_cons_self, decide_eq_false (notMem_blanks written)⟩
    rw [reach_cons (known_of_symbol written) hsolid]
    refine ⟨rfl, ?_⟩
    show Span.Tiles (n + 1) _ _
    rw [show n + (reach cs + 1) = n + 1 + reach cs by omega]
    exact ih
  | @blanks n run c cs rest ts some blank solid later ih =>
    rw [reach_append blank solid, ← Nat.add_assoc]
    exact ⟨rfl, ih⟩

/-- What is left of a text begins with its first character that is neither a symbol nor a blank. -/
theorem Cut.rest_eq {n : Nat} {cs rest : List Char} {ts : List (Token × Span)}
    (h : Cut n cs ts rest) : rest = cs.dropWhile known := by
  induction h with
  | @trailing n run blank =>
    have hdrop : (run ++ []).dropWhile known = [].dropWhile known :=
      List.dropWhile_append_of_pos fun c hc => known_of_blank (blank c hc)
    rw [List.append_nil] at hdrop
    exact hdrop.symm
  | obstacle solid unknown =>
    rw [List.dropWhile_cons, known_eq_false solid unknown]
    rfl
  | symbol written later ih =>
    rw [List.dropWhile_cons, known_of_symbol written]
    exact ih
  | blanks some blank solid later ih =>
    rw [List.dropWhile_append_of_pos fun c hc => known_of_blank (blank c hc)]
    exact ih

theorem blankAt_of_run {all run later : List Char} {n : Nat} (hdrop : all.drop n = run ++ later)
    (blank : ∀ c ∈ run, c ∈ blanks.toList) {i : Nat} (hle : n ≤ i) (hlt : i < n + run.length) :
    BlankAt all i := by
  have hi : i - n < run.length := by omega
  refine ⟨run[i - n], ?_, blank _ (List.getElem_mem hi)⟩
  have hget : (all.drop n)[i - n]? = all[n + (i - n)]? := List.getElem?_drop
  rw [hdrop, List.getElem?_append_left hi, List.getElem?_eq_getElem hi] at hget
  rw [hget, show n + (i - n) = i by omega]

/-- The tokens into which the end of a text is cut cover what stands there, unless a run is cut in
    two in front of it. -/
theorem Cut.covers {all cs rest : List Char} {n : Nat} {ts : List (Token × Span)}
    (h : Cut n cs ts rest) (hdrop : all.drop n = cs)
    (whole : ∀ i, i + 1 = n → BlankAt all i → ¬ BlankAt all n) :
    ∀ entry ∈ ts, Covers all entry := by
  induction h with
  | trailing => rintro entry ⟨⟩
  | obstacle => rintro entry ⟨⟩
  | @symbol n t c cs rest ts written later ih =>
    have there : all[n]? = some c := by
      rw [← List.head?_drop, hdrop]
      rfl
    have hrest : all.drop (n + 1) = cs := by
      rw [← List.drop_drop, hdrop]
      rfl
    have hsolid := not_blankAt there (notMem_blanks written)
    intro entry hentry
    rcases List.mem_cons.mp hentry with rfl | hlater
    · exact .symbol there written
    · refine ih hrest (fun i hi hblank => ?_) entry hlater
      obtain rfl : i = n := Nat.succ_inj.mp hi
      exact absurd hblank hsolid
  | @blanks n run c cs rest ts nonempty blank solid later ih =>
    have hpos : 0 < run.length := List.length_pos_iff.mpr nonempty
    have hrest : all.drop (n + run.length) = c :: cs := by
      rw [← List.drop_drop, hdrop, List.drop_left]
    have hrun : ∀ i, n ≤ i → i < n + run.length → BlankAt all i :=
      fun i => blankAt_of_run hdrop blank
    have hnext : all[n + run.length]? = some c := by
      rw [← List.head?_drop, hrest]
      rfl
    have hlast : ¬ BlankAt all (n + run.length) := not_blankAt hnext solid
    intro entry hentry
    rcases List.mem_cons.mp hentry with rfl | hlater
    · refine .run (by omega) hrun (fun i hi hblank => ?_) hlast
      exact whole i hi hblank (hrun n (Nat.le_refl n) (by omega))
    · exact ih hrest (fun _ _ _ => hlast) entry hlater

/-! ## A whole text -/

/-- The tokens of a text are those of it together with their spans, without the spans. -/
theorem value_scan (source : String) :
    (scan source).value = (scanSpanned source).value.map Prod.fst :=
  (Lexer.tokens_take_spanned (source.length + 1) (lexerOf matcher source)).symm

/-- A text is all tokens unless it has a character that is neither a symbol nor a blank. -/
theorem value_scanAll (source : String) :
    (scanAll source).value =
      match source.toList[unknownAt source.toList]? with
      | some found => .error (.unknownSymbol (unknownAt source.toList) found)
      | none => .ok (scanSpanned source).value := by
  obtain ⟨ts, rest, hcut⟩ := exists_cut 0 source.toList
  have hrem := hcut.spannedHaul.2
  rw [hcut.rest_eq] at hrem
  have hobstacle : (spannedHaul source).lexer.obstacle =
      source.toList[unknownAt source.toList]?.map (unknownAt source.toList, ·) :=
    Lexer.obstacle_of_dropWhile (over_spannedHaul source) hrem
  unfold scanAll
  dsimp only
  rw [hobstacle]
  cases source.toList[unknownAt source.toList]? with
  | some found => rfl
  | none => rfl

/-- The tokens of a text are what its symbols and its blank runs are, and they reach as far as that
    is possible.

    * Their spans lie one behind the other, from the beginning of the text up to its first
      character that is neither a symbol nor a blank; or, if there is none, up to the blanks at the
      end of the text.
    * Each of them is a symbol at its index, or a blank run as long as possible.
    * There is no other list of tokens of which both is true.
    * The tokens without their spans are the same.
    * Read to the end, the text is these tokens if all of its characters are symbols and blanks.
      Otherwise the error is about the first one that is neither, and has its index. -/
theorem scanSpanned_tiles (source : String) :
    Span.Tiles 0 ((scanSpanned source).value.map Prod.snd) (reach source.toList) ∧
    (∀ entry ∈ (scanSpanned source).value, Covers source.toList entry) ∧
    (∀ us, Span.Tiles 0 (us.map Prod.snd) (reach source.toList) →
      (∀ entry ∈ us, Covers source.toList entry) → us = (scanSpanned source).value) ∧
    (scan source).value = (scanSpanned source).value.map Prod.fst ∧
    (scanAll source).value =
      match source.toList[unknownAt source.toList]? with
      | some found => .error (.unknownSymbol (unknownAt source.toList) found)
      | none => .ok (scanSpanned source).value := by
  obtain ⟨ts, rest, hcut⟩ := exists_cut 0 source.toList
  have htokens : (scanSpanned source).value = ts := hcut.spannedHaul.1
  have htiles := hcut.tiles
  rw [Nat.zero_add] at htiles
  have hdrop : source.toList.drop 0 = source.toList := rfl
  have hcovers := hcut.covers hdrop (by rintro i ⟨⟩)
  refine ⟨?_, ?_, ?_, value_scan source, value_scanAll source⟩
  · rw [htokens]
    exact htiles
  · rw [htokens]
    exact hcovers
  · rw [htokens]
    exact fun us hus hus' => tiling_unique hus htiles hus' hcovers

/-- Blanks at the end of a text are not reached, but blanks in front of an unknown character are. -/
example : reach "B\t ".toList = 1 ∧ reach "B\t ä".toList = 3 := by decide

end Token
end Forward
