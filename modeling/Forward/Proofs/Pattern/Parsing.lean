/-
  Parsing: the reader of patterns accepts exactly what the grammar derives.

  Two inductions carry this.  `reads_of_derives` follows a derivation and shows that the phrases
  of the reader take it and nothing more.  `decides_alternation` needs no derivation: by induction
  on the number of tokens it shows that a phrase in front of any tokens reads a part that the
  grammar derives, or stops behind a part that some continuation would have completed.
-/
import Forward.Proofs.Pattern.Reading

namespace Forward.Pattern

open PatternRule Attempt

/-! ## What the grammar derives is read -/

/-- Behind a phrase stands a token that does not go on with it. -/
def Category.EndsBefore : Category → Option Token → Prop
  | .factor, _ => True
  | .quantified, next => quantifier? next = none
  | .items, next => quantifier? next = none ∧ startsFactor next = false
  | .branch, next => quantifier? next = none ∧ startsFactor next = false
  | .branches, next => quantifier? next = none ∧ startsFactor next = false ∧ next ≠ some .pipe
  | .alternation, next => quantifier? next = none ∧ startsFactor next = false ∧ next ≠ some .pipe

/-- The end mark may stand behind every phrase. -/
theorem Category.endsBefore_none (c : Category) : c.EndsBefore none := by
  have hbar : (none : Option Token) ≠ some .pipe := by rintro ⟨⟩
  cases c with
  | factor => trivial
  | quantified => rfl
  | items => exact ⟨rfl, rfl⟩
  | branch => exact ⟨rfl, rfl⟩
  | branches => exact ⟨rfl, rfl, hbar⟩
  | alternation => exact ⟨rfl, rfl, hbar⟩

/-- A phrase of the category is read as `v`. -/
def Category.Read (bound : Nat) (u : List Token) (next : Option Token) :
    (c : Category) → c.Value → Prop
  | .factor, p => Reads bound phraseFactor u next (some p)
  | .quantified, p => Reads bound phraseQuantified u next (some p)
  | .items, ps => Reads bound phraseSequence u next (some ps)
  | .branch, p => ∃ ps, p = ofItems ps ∧ Reads bound phraseSequence u next (some ps)
  | .branches, ps =>
    ∃ pss, ps = List.map ofItems pss ∧ Reads bound phraseAlternatives u next (some pss)
  | .alternation, p => Reads bound phraseAlternation u next (some p)

theorem quantifier?_of_startsFactor {t : Option Token} (h : startsFactor t = true) :
    quantifier? t = none := by
  rcases t with _ | t
  · rfl
  · cases t <;> first | rfl | exact absurd h (by decide)

/-- Behind an item stands another item, or what is behind all of them. -/
theorem Derives.ends_item {us : List Token} {ps : List Pattern} {next : Option Token}
    (h : Derives .items us ps) (hnext : quantifier? next = none) :
    quantifier? (us.head?.or next) = none := by
  rcases h.head_items with rfl | hstart
  · exact hnext
  · obtain _ | ⟨t, us⟩ := us
    · exact hnext
    · exact quantifier?_of_startsFactor hstart

/-- Behind a branch stands a bar, or what is behind all of them. -/
theorem Derives.ends_branch {us : List Token} {ps : List Pattern} {next : Option Token}
    (h : Derives .branches us ps) (hnext : quantifier? next = none ∧ startsFactor next = false) :
    quantifier? (us.head?.or next) = none ∧ startsFactor (us.head?.or next) = false := by
  rcases h.head_branches with rfl | hpipe
  · exact hnext
  · rw [hpipe]
    exact ⟨rfl, rfl⟩

/-- What the grammar derives is read, whatever does not belong to it stands behind it. -/
theorem reads_of_derives {c : Category} {u : List Token} {v : c.Value} (h : Derives c u v) :
    ∀ (bound : Nat) (next : Option Token), u.length < bound → c.EndsBefore next →
      c.Read bound u next v := by
  induction h with
  | atom letter => exact fun _ _ _ _ => reads_leaf rfl
  | any => exact fun _ _ _ _ => reads_leaf rfl
  | nil => exact fun _ _ _ _ => reads_leaf rfl
  | boundary => exact fun _ _ _ _ => reads_leaf rfl
  | oneOf inhabited =>
    intro bound next hbound _
    simp only [List.length_append, List.length_cons, List.length_map, List.length_nil] at hbound
    exact reads_oneOf inhabited (by omega)
  | group inside ih =>
    intro bound next hbound _
    simp only [List.length_append, List.length_cons, List.length_nil] at hbound
    -- the rule inside is expanded with one less than the bound
    obtain ⟨bound, rfl⟩ : ∃ b, bound = b + 1 := ⟨bound - 1, by omega⟩
    exact reads_group (ih bound _ (by omega) ⟨rfl, rfl, by decide⟩)
  | once body ih => exact fun bound next hbound hnext => reads_once (ih bound next hbound trivial) hnext
  | repeated times body ih =>
    intro bound next hbound _
    simp only [List.length_append, List.length_cons, List.length_nil] at hbound
    exact reads_repeated (ih bound _ (by omega) trivial)
  | noItem => exact fun _ _ _ hnext => reads_sequence_nil hnext.2
  | @item ts us p ps first later ihFirst ihLater =>
    intro bound next hbound hnext
    have hpos : 0 < ts.length := List.length_pos_iff.mpr first.ne_nil_of_quantified
    rw [List.length_append] at hbound
    obtain ⟨bound, rfl⟩ : ∃ b, bound = b + 1 := ⟨bound - 1, by omega⟩
    exact reads_sequence_cons (ihFirst _ _ (by omega) (later.ends_item hnext.1))
      first.head_quantified (ihLater bound next (by omega) hnext)
  | @single ts p only ih => exact fun bound next hbound hnext => ⟨[p], rfl, ih bound next hbound hnext⟩
  | @sequence ts ps all several ih =>
    intro bound next hbound hnext
    refine ⟨ps, ?_, ih bound next hbound hnext⟩
    rcases ps with _ | ⟨p, _ | ⟨q, ps⟩⟩
    · rfl
    · exact absurd rfl several
    · rfl
  | noBranch => exact fun _ _ _ hnext => ⟨[], rfl, reads_alternatives_nil hnext.2.2⟩
  | another branch later ihBranch ihLater =>
    intro bound next hbound hnext
    simp only [List.length_append, List.length_cons] at hbound
    obtain ⟨bound, rfl⟩ : ∃ b, bound = b + 1 := ⟨bound - 1, by omega⟩
    obtain ⟨ps, rfl, hps⟩ := ihBranch (bound + 1) _ (by omega)
      (later.ends_branch ⟨hnext.1, hnext.2.1⟩)
    obtain ⟨pss, rfl, hpss⟩ := ihLater bound next (by omega) hnext
    exact ⟨ps :: pss, rfl, reads_alternatives_cons hps hpss⟩
  | @plain ts p only ih =>
    intro bound next hbound hnext
    obtain ⟨ps, rfl, hps⟩ := ih bound next hbound ⟨hnext.1, hnext.2.1⟩
    -- no further branch is read where none can begin
    have halternation := reads_alternation (v := []) hps (reads_alternatives_nil hnext.2.2)
    rw [List.append_nil] at halternation
    exact halternation
  | choice first later several ihFirst ihLater =>
    intro bound next hbound hnext
    rw [List.length_append] at hbound
    obtain ⟨ps, rfl, hps⟩ := ihFirst bound _ (by omega) (later.ends_branch ⟨hnext.1, hnext.2.1⟩)
    obtain ⟨pss, rfl, hpss⟩ := ihLater bound next (by omega) hnext
    have halternation := reads_alternation hps hpss
    cases pss with
    | nil => exact absurd rfl several
    | cons => exact halternation

/-! ## Whatever stands there is decided

  A phrase in front of any tokens either reads a part of them or stops behind a part of them.
  In the first case the part means something, and in the second it could have been completed. -/

/-- What a phrase has made of the tokens `u`: it has read them as a whole, or it has stopped behind
    them, and some more tokens would have completed them. -/
inductive Part {τ : Type} (means : List Token → τ → Prop) (u : List Token) : Option τ → Prop where
  | whole {v : τ} (meant : means u v) : Part means u (some v)
  | start {more : List Token} {v : τ} (meant : means (u ++ more) v) : Part means u none

/-- What is in front of a part makes it a part of something else. -/
theorem Part.behind {σ τ : Type} {means : List Token → σ → Prop} {means' : List Token → τ → Prop}
    {u v : List Token} {r : Option σ} {f : σ → τ} (h : Part means v r)
    (front : ∀ ts x, means ts x → means' (u ++ ts) (f x)) : Part means' (u ++ v) (r.map f) := by
  cases h with
  | whole meant => exact .whole (front v _ meant)
  | start meant =>
    have hfront := front _ _ meant
    rw [← List.append_assoc] at hfront
    exact .start hfront

/-- In front of the tokens `w` the phrase reads a part with a meaning, or stops behind a part that
    some more tokens would have completed. -/
def Decides {τ : Type} (φ : Phrase τ) (means : List Token → τ → Prop) (w : List Token) : Prop :=
  ∃ u rest r, w = u ++ rest ∧ Part means u r ∧
    ∀ bound, u.length < bound → Reads bound φ u rest.head? r

/-- Further branches, with the items of each of them, are a phrase. -/
def DerivesBranches (ts : List Token) (later : List (List Pattern)) : Prop :=
  Derives .branches ts (later.map ofItems)

theorem derives_of_leaf? {t : Token} {p : Pattern} (h : leaf? (some t) = some p) :
    Derives .factor [t] p := by
  cases t <;> cases h
  · exact .atom _
  · exact .any
  · exact .nil
  · exact .boundary

/-- Tokens begin with letters, and with no letter behind them. -/
theorem exists_letters (w : List Token) :
    ∃ (letters : List Atom) (rest : List Token), w = letters.map .atom ++ rest ∧
      atom? rest.head? = none := by
  induction w with
  | nil => exact ⟨[], [], rfl, rfl⟩
  | cons t w ih =>
    cases ht : atom? (some t) with
    | none => exact ⟨[], t :: w, rfl, ht⟩
    | some letter =>
      obtain ⟨letters, rest, rfl, hrest⟩ := ih
      refine ⟨letter :: letters, rest, ?_, hrest⟩
      cases t <;> cases ht
      rfl

/-- Square brackets are read, or stop at what is no letter and does not close them. -/
theorem decides_oneOf (w : List Token) :
    Decides phraseFactor (Derives .factor) (.leftSquare :: w) := by
  obtain ⟨letters, rest, rfl, hrest⟩ := exists_letters w
  by_cases hclose : letters ≠ [] ∧ rest.head? = some .rightSquare
  · obtain ⟨inhabited, hhead⟩ := hclose
    obtain ⟨rest, rfl⟩ := List.head?_eq_some_iff.mp hhead
    refine ⟨.leftSquare :: letters.map .atom ++ [.rightSquare], rest, some (.oneOf letters),
      by simp, .whole (.oneOf inhabited), fun bound hbound => reads_oneOf inhabited ?_⟩
    simp only [List.length_append, List.length_cons, List.length_map, List.length_nil] at hbound
    omega
  · -- the letters so far are completed by a bracket, or by a letter and a bracket
    have hpart : Part (Derives .factor) (.leftSquare :: letters.map .atom) none := by
      by_cases inhabited : letters = []
      · subst inhabited
        have hone : Derives .factor ([.leftSquare] ++ [.atom .b, .rightSquare]) (.oneOf [.b]) :=
          @Derives.oneOf [.b] (by simp)
        exact .start hone
      · exact .start (.oneOf inhabited)
    refine ⟨.leftSquare :: letters.map .atom, rest, none, rfl, hpart, fun bound hbound =>
      reads_oneOf_none letters ?_ hrest fun inhabited hhead => hclose ⟨inhabited, hhead⟩⟩
    simp only [List.length_cons, List.length_map] at hbound
    omega

/-- Parentheses are read if what is inside is read and they are closed behind it. -/
theorem decides_group {w : List Token}
    (inside : Decides phraseAlternation (Derives .alternation) w) :
    Decides phraseFactor (Derives .factor) (.leftParen :: w) := by
  obtain ⟨u, rest, r, rfl, hpart, hreads⟩ := inside
  cases hpart with
  | @whole p hp =>
    by_cases hclose : rest.head? = some .rightParen
    · obtain ⟨rest, rfl⟩ := List.head?_eq_some_iff.mp hclose
      refine ⟨.leftParen :: u ++ [.rightParen], rest, some p, by simp, .whole (.group hp),
        fun bound hbound => ?_⟩
      simp only [List.length_append, List.length_cons, List.length_nil] at hbound
      obtain ⟨bound, rfl⟩ : ∃ b, bound = b + 1 := ⟨bound - 1, by omega⟩
      exact reads_group (hreads bound (by omega))
    · refine ⟨.leftParen :: u, rest, none, rfl, .start (.group hp), fun bound hbound => ?_⟩
      rw [List.length_cons] at hbound
      obtain ⟨bound, rfl⟩ : ∃ b, bound = b + 1 := ⟨bound - 1, by omega⟩
      exact reads_group_open (hreads bound (by omega)) hclose
  | start hp =>
    have hgroup := Derives.group hp
    rw [List.cons_append, List.append_assoc] at hgroup
    refine ⟨.leftParen :: u, rest, none, rfl, .start hgroup, fun bound hbound => ?_⟩
    rw [List.length_cons] at hbound
    obtain ⟨bound, rfl⟩ : ∃ b, bound = b + 1 := ⟨bound - 1, by omega⟩
    exact reads_group_none (hreads bound (by omega))

theorem decides_factor {w : List Token}
    (inside : ∀ v : List Token, v.length < w.length →
      Decides phraseAlternation (Derives .alternation) v) :
    Decides phraseFactor (Derives .factor) w := by
  by_cases hstart : startsFactor w.head? = true
  · obtain _ | ⟨t, w⟩ := w
    · exact absurd hstart (by decide)
    cases hleaf : leaf? (some t) with
    | some p =>
      have hpart : Part (Derives .factor) [t] (some p) := .whole (derives_of_leaf? hleaf)
      exact ⟨[t], w, some p, rfl, hpart, fun _ _ => reads_leaf hleaf⟩
    | none =>
      -- what is no leaf and begins a factor is an opening bracket
      have hopen : t = .leftSquare ∨ t = .leftParen := by
        simpa [startsFactor, hleaf] using hstart
      rcases hopen with rfl | rfl
      · exact decides_oneOf w
      · exact decides_group (inside w (by simp))
  · rw [Bool.not_eq_true] at hstart
    have hany : Derives .factor ([] ++ [.dot]) .any := .any
    exact ⟨[], w, none, rfl, .start hany, fun _ _ => reads_factor_none hstart⟩

theorem token_of_quantifier? {t : Option Token} {times : Quantifier}
    (h : quantifier? t = some times) : t = some times.token := by
  rcases t with _ | t
  · cases h
  · cases t <;> cases h <;> rfl

theorem decides_quantified {w : List Token} (h : Decides phraseFactor (Derives .factor) w) :
    Decides phraseQuantified (Derives .quantified) w := by
  obtain ⟨u, rest, r, rfl, hpart, hreads⟩ := h
  cases hpart with
  | @whole p hp =>
    cases htimes : quantifier? rest.head? with
    | none =>
      exact ⟨u, rest, some p, rfl, .whole (.once hp),
        fun bound hbound => reads_once (hreads bound hbound) htimes⟩
    | some times =>
      obtain ⟨rest, rfl⟩ := List.head?_eq_some_iff.mp (token_of_quantifier? htimes)
      refine ⟨u ++ [times.token], rest, some (.repeated p times), by simp,
        .whole (.repeated times hp), fun bound hbound => ?_⟩
      rw [List.length_append] at hbound
      exact reads_repeated (hreads bound (by omega))
  | start hp =>
    exact ⟨u, rest, none, rfl, .start (.once hp),
      fun bound hbound => reads_quantified_none (hreads bound hbound)⟩

theorem decides_sequence {w : List Token}
    (first : Decides phraseQuantified (Derives .quantified) w)
    (later : ∀ v : List Token, v.length < w.length → Decides phraseSequence (Derives .items) v) :
    Decides phraseSequence (Derives .items) w := by
  by_cases hstart : startsFactor w.head? = true
  · obtain ⟨u, rest, r, rfl, hpart, hreads⟩ := first
    cases hpart with
    | @whole p hp =>
      have hpos : 0 < u.length := List.length_pos_iff.mpr hp.ne_nil_of_quantified
      obtain ⟨v, rest, r, rfl, hpart, hlater⟩ := later rest (by rw [List.length_append]; omega)
      rw [List.head?_append] at hreads
      refine ⟨u ++ v, rest, r.map (p :: ·), by simp, hpart.behind fun _ _ hps => .item hp hps,
        fun bound hbound => ?_⟩
      rw [List.length_append] at hbound
      obtain ⟨bound, rfl⟩ : ∃ b, bound = b + 1 := ⟨bound - 1, by omega⟩
      exact reads_sequence_cons (hreads _ (by omega)) hp.head_quantified (hlater bound (by omega))
    | start hp =>
      have hitem := Derives.item hp .noItem
      rw [List.append_nil] at hitem
      rw [List.head?_append] at hstart
      exact ⟨u, rest, none, rfl, .start hitem,
        fun bound hbound => reads_sequence_none (hreads bound hbound) hstart⟩
  · rw [Bool.not_eq_true] at hstart
    exact ⟨[], w, some [], rfl, .whole .noItem, fun _ _ => reads_sequence_nil hstart⟩

theorem decides_alternatives {w : List Token}
    (sequence : ∀ v : List Token, v.length < w.length → Decides phraseSequence (Derives .items) v)
    (later : ∀ v : List Token, v.length < w.length → Decides phraseAlternatives DerivesBranches v) :
    Decides phraseAlternatives DerivesBranches w := by
  by_cases hpipe : w.head? = some .pipe
  · obtain ⟨w, rfl⟩ := List.head?_eq_some_iff.mp hpipe
    obtain ⟨u, rest, r, rfl, hpart, hreads⟩ := sequence w (by simp)
    cases hpart with
    | @whole ps hps =>
      obtain ⟨v, rest, r, rfl, hpart, hlater⟩ :=
        later rest (by rw [List.length_cons, List.length_append]; omega)
      rw [List.head?_append] at hreads
      have hbranches : Part DerivesBranches ((.pipe :: u) ++ v) (r.map (ps :: ·)) :=
        hpart.behind fun _ _ hpss => .another hps.ofItems hpss
      refine ⟨(.pipe :: u) ++ v, rest, r.map (ps :: ·), by simp, hbranches, fun bound hbound => ?_⟩
      rw [List.length_append, List.length_cons] at hbound
      obtain ⟨bound, rfl⟩ : ∃ b, bound = b + 1 := ⟨bound - 1, by omega⟩
      exact reads_alternatives_cons (hreads _ (by omega)) (hlater bound (by omega))
    | @start more ps hps =>
      have hbranch : DerivesBranches ((.pipe :: u) ++ more) [ps] := by
        have hone := Derives.another hps.ofItems .noBranch
        rwa [List.append_nil] at hone
      refine ⟨.pipe :: u, rest, none, rfl, .start hbranch, fun bound hbound => ?_⟩
      rw [List.length_cons] at hbound
      exact reads_alternatives_none (hreads bound (by omega))
  · exact ⟨[], w, some [], rfl, .whole .noBranch, fun _ _ => reads_alternatives_nil hpipe⟩

theorem decides_alternation_of {w : List Token}
    (first : Decides phraseSequence (Derives .items) w)
    (later : ∀ v : List Token, v.length ≤ w.length → Decides phraseAlternatives DerivesBranches v) :
    Decides phraseAlternation (Derives .alternation) w := by
  obtain ⟨u, rest, r, rfl, hpart, hreads⟩ := first
  cases hpart with
  | @whole ps hps =>
    obtain ⟨v, rest, r, rfl, hpart, hlater⟩ := later rest (by rw [List.length_append]; omega)
    rw [List.head?_append] at hreads
    refine ⟨u ++ v, rest, r.map (alternate ps ·), by simp,
      hpart.behind fun _ _ hpss => hps.alternate hpss, fun bound hbound => ?_⟩
    rw [List.length_append] at hbound
    exact reads_alternation (hreads bound (by omega)) (hlater bound (by omega))
  | start hps =>
    exact ⟨u, rest, none, rfl, .start (.plain hps.ofItems),
      fun bound hbound => reads_alternation_none (hreads bound hbound)⟩

/-- All rules of the grammar are decided, by induction on the number of tokens: every rule inside
    another one begins behind a token. -/
theorem decides_rules (n : Nat) : ∀ w : List Token, w.length < n →
    Decides phraseSequence (Derives .items) w ∧
      Decides phraseAlternatives DerivesBranches w ∧
      Decides phraseAlternation (Derives .alternation) w := by
  induction n with
  | zero => exact fun w hw => absurd hw (Nat.not_lt_zero _)
  | succ n ih =>
    intro w hw
    have shorter : ∀ v : List Token, v.length < w.length → v.length < n := fun v hv => by omega
    have hsequence : Decides phraseSequence (Derives .items) w :=
      decides_sequence
        (decides_quantified (decides_factor fun v hv => (ih v (shorter v hv)).2.2))
        fun v hv => (ih v (shorter v hv)).1
    have halternatives : ∀ v : List Token, v.length ≤ w.length →
        Decides phraseAlternatives DerivesBranches v := fun v hv =>
      decides_alternatives (fun x hx => (ih x (by omega)).1) fun x hx => (ih x (by omega)).2.1
    exact ⟨hsequence, halternatives w (Nat.le_refl _),
      decides_alternation_of hsequence halternatives⟩

/-- The reader of patterns reads a part of the tokens that the grammar derives, or stops behind a
    part that could have been completed. -/
theorem decides_alternation (w : List Token) :
    Decides phraseAlternation (Derives .alternation) w :=
  (decides_rules _ w (Nat.lt_succ_self _)).2.2

/-! ## Tokens that count -/

/-- The tokens without the blanks between them. -/
def nonBlank (tokens : List Token) : List Token := tokens.filter fun t => decide (t ≠ .space)

theorem nonBlank_append (ts us : List Token) : nonBlank (ts ++ us) = nonBlank ts ++ nonBlank us :=
  List.filter_append ..

theorem nonBlank_cons {t : Token} (h : t ≠ .space) (ts : List Token) :
    nonBlank (t :: ts) = t :: nonBlank ts :=
  List.filter_cons_of_pos (decide_eq_true h)

theorem nonBlank_eq_self {ts : List Token} (h : Token.space ∉ ts) : nonBlank ts = ts := by
  refine List.filter_eq_self.mpr fun t ht => decide_eq_true ?_
  rintro rfl
  exact h ht

theorem space_notMem_nonBlank (tokens : List Token) : Token.space ∉ nonBlank tokens := by
  simp [nonBlank]

/-- No phrase has a blank in it. -/
theorem Derives.space_notMem {c : Category} {ts : List Token} {v : c.Value} (h : Derives c ts v) :
    Token.space ∉ ts := by
  induction h with
  | repeated times => cases times <;> simp_all [Quantifier.token]
  | _ => simp_all

theorem map_significant (tokens : List Token) :
    (significant tokens).map Prod.fst = nonBlank tokens := by
  have hmap := List.filter_map (f := Prod.fst) (p := fun t : Token => decide (t ≠ .space))
    (l := tokens.zipIdx)
  rw [List.zipIdx_map_fst] at hmap
  exact hmap.symm

/-- The reader begins in front of the tokens that count. -/
theorem ofList_stream (tokens : List Token) :
    Scan.ofList (stream tokens) = standing 0 (nonBlank tokens) := by
  rw [stream, ← map_significant, standing, List.map_map]
  rfl

/-- The end mark stands behind the tokens that count. -/
theorem length_stream (tokens : List Token) :
    (stream tokens).length = (nonBlank tokens).length + 1 := by
  rw [stream, ← map_significant, List.length_append, List.length_map, List.length_map]
  rfl

/-! ## Accepted and rejected -/

/-- The bound of the reader is more than what stands in front of it. -/
theorem lt_bound (tokens : List Token) : (nonBlank tokens).length < (stream tokens).length + 1 := by
  rw [length_stream]
  omega

/-- A pattern up to the end mark is read, and the end mark behind it. -/
theorem readRun_of_reads {tokens : List Token} {p : Pattern}
    (h : Reads ((stream tokens).length + 1) phraseAlternation (nonBlank tokens) none (some p)) :
    (readRun tokens).outcome = .matched p := by
  have hall := h 0 [] rfl
  rw [List.append_nil] at hall
  have hend : Yields ((Matcher.item none : Phrase _).run grammar ((stream tokens).length + 1))
      (standing (0 + (nonBlank tokens).length) []) (.matched none) _ := ⟨rfl, rfl⟩
  have hrun := (hall.both hend).map fun read => read.1
  rw [readRun, ofList_stream]
  exact hrun.outcome

/-- The reader fails where it stops short of the end mark, and where it is stopped. -/
theorem readRun_of_reads_none {tokens u rest : List Token} {r : Option Pattern}
    (hw : nonBlank tokens = u ++ rest)
    (h : Reads ((stream tokens).length + 1) phraseAlternation u rest.head? r)
    (short : r = none ∨ rest ≠ []) :
    (readRun tokens).outcome = .failed ∧ (readRun tokens).scan = standing u.length rest := by
  have hpart := h 0 rest rfl
  rw [← hw, Nat.zero_add] at hpart
  have hrun : Yields (phrasePattern.run grammar ((stream tokens).length + 1))
      (standing 0 (nonBlank tokens)) .failed (standing u.length rest) := by
    cases r with
    | none => exact (hpart.both_failed _).map _
    | some p =>
      obtain ⟨t, rest, rfl⟩ := List.exists_cons_of_ne_nil (short.resolve_left (by rintro ⟨⟩))
      have hend : Yields ((Matcher.item none : Phrase _).run grammar ((stream tokens).length + 1))
          (standing u.length (t :: rest)) .failed (standing u.length (t :: rest)) := ⟨rfl, rfl⟩
      exact (hpart.both hend).map _
  rw [readRun, ofList_stream]
  exact ⟨hrun.outcome, hrun.scan⟩

theorem parse_of_derives {tokens : List Token} {p : Pattern}
    (h : Derives .alternation (nonBlank tokens) p) : (parse tokens).value = .ok p := by
  have hreads := reads_of_derives h _ _ (lt_bound tokens) (Category.endsBefore_none _)
  simp only [parse, readRun_of_reads hreads]

/-- The reader reads all tokens that count as a pattern, or it is stopped behind a part of them. -/
theorem readRun_decided (tokens : List Token) :
    ∃ u rest r, nonBlank tokens = u ++ rest ∧ Part (Derives .alternation) u r ∧
      (∀ bound, u.length < bound → Reads bound phraseAlternation u rest.head? r) ∧
      ((∃ p, rest = [] ∧ r = some p ∧ (readRun tokens).outcome = .matched p) ∨
        ((readRun tokens).outcome = .failed ∧
          (readRun tokens).scan = standing u.length rest)) := by
  have hbound := lt_bound tokens
  obtain ⟨u, rest, r, hw, hpart, hreads⟩ := decides_alternation (nonBlank tokens)
  refine ⟨u, rest, r, hw, hpart, hreads, ?_⟩
  have hread := hreads _ (Nat.lt_of_le_of_lt (by rw [hw, List.length_append]; omega) hbound)
  by_cases hrest : rest = []
  · subst hrest
    cases r with
    | none => exact Or.inr (readRun_of_reads_none hw hread (Or.inl rfl))
    | some p =>
      rw [List.append_nil] at hw
      rw [← hw] at hread
      exact Or.inl ⟨p, rfl, rfl, readRun_of_reads hread⟩
  · exact Or.inr (readRun_of_reads_none hw hread (Or.inr hrest))

/-- The tokens are accepted where the reader reads all of them, and rejected where it is stopped. -/
theorem parse_decided (tokens : List Token) :
    ∃ u rest r, nonBlank tokens = u ++ rest ∧ Part (Derives .alternation) u r ∧
      (∀ bound, u.length < bound → Reads bound phraseAlternation u rest.head? r) ∧
      ((∃ p, rest = [] ∧ r = some p ∧ (parse tokens).value = .ok p) ∨
        (parse tokens).value = .error (rejection tokens (standing u.length rest))) := by
  obtain ⟨u, rest, r, hw, hpart, hreads, hdecided⟩ := readRun_decided tokens
  refine ⟨u, rest, r, hw, hpart, hreads, ?_⟩
  rcases hdecided with ⟨p, hrest, hr, houtcome⟩ | ⟨houtcome, hscan⟩
  · exact Or.inl ⟨p, hrest, hr, by simp only [parse, houtcome]⟩
  · exact Or.inr (by simp only [parse, houtcome, hscan])

theorem derives_of_parse {tokens : List Token} {p : Pattern} (h : (parse tokens).value = .ok p) :
    Derives .alternation (nonBlank tokens) p := by
  obtain ⟨u, rest, r, hw, hpart, -, ⟨q, rfl, rfl, hok⟩ | herror⟩ := parse_decided tokens
  · rw [h] at hok
    cases hok
    rw [hw, List.append_nil]
    cases hpart with
    | whole hp => exact hp
  · rw [h] at herror
    cases herror

/-- The reader accepts the phrases of the grammar, each as the one pattern that it derives. -/
theorem parse_eq_ok_iff_derives (tokens : List Token) :
    (∀ p, (parse tokens).value = .ok p ↔ Derives .alternation (nonBlank tokens) p) ∧
      ∀ p q, Derives .alternation (nonBlank tokens) p → Derives .alternation (nonBlank tokens) q →
        p = q := by
  refine ⟨fun p => ⟨derives_of_parse, parse_of_derives⟩, fun p q hp hq => ?_⟩
  have hok := (parse_of_derives hp).symm.trans (parse_of_derives hq)
  exact Except.ok.inj hok

end Forward.Pattern
