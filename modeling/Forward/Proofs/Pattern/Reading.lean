/-
  Reading phrases: what the rules of the grammar do with the tokens in front of them.

  `Reads bound φ u next result` describes a phrase `φ` by the part `u` of the stream that it
  takes and by the one token `next` that it sees behind it (`none` is the end mark): wherever `u`
  stands, however the stream goes on after `next`, the phrase takes `u`, stops, and comes out
  with a value or as a failure.  That the rest of the stream does not occur in it is the point of
  the definition: what a phrase does depends on nothing behind the next token.

  The rules of the first half say how phrases read that are built from phrases.  The second half
  goes through the phrases of the grammar, and has for each of them how it reads a part to the end
  and how it stops behind one.
-/
import Forward.Proofs.Yields
import Forward.Proofs.Pattern.Derivation

namespace Forward.Pattern

open PatternRule Attempt

variable {σ τ : Type}

/-! ## Standing in front of tokens -/

/-- The scan that stands `n` tokens into a stream, in front of the tokens `w` and the end mark. -/
def standing (n : Nat) (w : List Token) : Scan (Option Token) :=
  ⟨⟨n, .ofList (w.map some ++ [none])⟩, .empty⟩

/-- The token behind a part of the stream is on show after that part. -/
theorem standing_succ (n : Nat) (t : Token) (w : List Token) :
    (⟨⟨n + 1, .after (some t) (w.map some ++ [none])⟩, .empty⟩ : Scan (Option Token)) =
      standing (n + 1) w := by
  cases w <;> rfl

theorem yields_look (n : Nat) (w : List Token) :
    Yields look (standing n w) (.matched w.head?) (standing n w) := by
  cases w <;> exact ⟨rfl, rfl⟩

theorem yields_take {choose : Option Token → Option τ} {t : Token} {v : τ}
    (h : choose (some t) = some v) (n : Nat) (w : List Token) :
    Yields (take choose) (standing n (t :: w)) (.matched v) (standing (n + 1) w) := by
  have hrun := @take_of_remaining _ _ choose (standing n (t :: w)) _ _ rfl
  rw [h] at hrun
  rw [← standing_succ]
  exact ⟨congrArg Run.outcome hrun, congrArg Run.scan hrun⟩

theorem yields_take_none {choose : Option Token → Option τ} {w : List Token}
    (h : choose w.head? = none) (n : Nat) :
    Yields (take choose) (standing n w) .failed (standing n w) := by
  cases w with
  | nil =>
    have hrun := @take_of_remaining _ _ choose (standing n []) _ _ rfl
    rw [show choose none = none from h] at hrun
    constructor <;> rw [hrun]
  | cons t w =>
    have hrun := @take_of_remaining _ _ choose (standing n (t :: w)) _ _ rfl
    rw [show choose (some t) = none from h] at hrun
    constructor <;> rw [hrun]

/-! ## What a phrase reads -/

/-- With `next` behind `u` the phrase takes `u`, stops, and comes out as `result`. -/
def Reads (bound : Nat) (φ : Phrase τ) (u : List Token) (next : Option Token)
    (result : Option τ) : Prop :=
  ∀ n rest, rest.head? = next →
    Yields (φ.run grammar bound) (standing n (u ++ rest)) (.ofOption result)
      (standing (n + u.length) rest)

variable {bound : Nat} {u : List Token} {next : Option Token}

theorem Reads.pure (v : τ) : Reads bound (.pure v) [] next (some v) :=
  fun _ _ _ => ⟨rfl, rfl⟩

theorem Reads.symbol {table : Option Token → Option τ} {t : Token} {v : τ}
    (h : table (some t) = some v) : Reads bound (.symbol table) [t] next (some v) :=
  fun n rest _ => yields_take h n rest

theorem Reads.symbol_none {table : Option Token → Option τ} (h : table next = none) :
    Reads bound (.symbol table) [] next none := by
  rintro n rest rfl
  exact yields_take_none h n

theorem Reads.item (t : Token) : Reads bound (.item (some t)) [t] next (some (some t)) :=
  fun n rest _ => yields_take (by simp) n rest

theorem Reads.item_none {t : Token} (h : next ≠ some t) :
    Reads bound (.item (some t)) [] next none := by
  rintro n rest rfl
  exact yields_take_none (by simp [h]) n

theorem Reads.map {φ : Phrase σ} {r : Option σ} (h : Reads bound φ u next r) (f : σ → τ) :
    Reads bound (.map f φ) u next (r.map f) := by
  intro n rest hrest
  have hrun := (h n rest hrest).map f
  cases r <;> exact hrun

/-- A second phrase goes on where the first one stopped, and the first one saw how it begins. -/
theorem Reads.both {φ : Phrase σ} {ψ : Phrase τ} {v : List Token} {x : σ} {r : Option τ}
    (h : Reads bound φ u (v.head?.or next) (some x)) (k : Reads bound ψ v next r) :
    Reads bound (.both φ ψ) (u ++ v) next (r.map (x, ·)) := by
  intro n rest hrest
  -- behind `u` stands the first token of `v`, or `next` where `v` is empty
  have first := h n (v ++ rest) (by rw [List.head?_append, hrest])
  have hrun := first.both (k (n + u.length) rest hrest)
  rw [List.append_assoc, List.length_append, ← Nat.add_assoc]
  cases r <;> exact hrun

/-- A second phrase that takes nothing. -/
theorem Reads.both_nothing {φ : Phrase σ} {ψ : Phrase τ} {x : σ} {r : Option τ}
    (h : Reads bound φ u next (some x)) (k : Reads bound ψ [] next r) :
    Reads bound (.both φ ψ) u next (r.map (x, ·)) := by
  have hboth := Reads.both (v := []) h k
  rwa [List.append_nil] at hboth

theorem Reads.both_none {φ : Phrase σ} (h : Reads bound φ u next none) (ψ : Phrase τ) :
    Reads bound (.both φ ψ) u next none :=
  fun n rest hrest => (h n rest hrest).both_failed _

/-- A phrase chosen by the token on show. -/
theorem Reads.look {f : Option Token → Phrase τ} {r : Option τ}
    (h : Reads bound (f (u.head?.or next)) u next r) : Reads bound (.andThen .peek f) u next r := by
  intro n rest hrest
  have hrun := h n rest hrest
  rw [← hrest, ← List.head?_append] at hrun
  exact (yields_look n (u ++ rest)).andThen hrun

theorem Reads.optional {φ : Phrase τ} {r : Option τ} (h : Reads bound φ u next r) :
    Reads bound (.optional φ) u next (some (.ofOption r)) :=
  fun n rest hrest => (h n rest hrest).optional

theorem Reads.rule (name : PatternRule τ) {r : Option τ}
    (h : Reads bound (grammar τ name) u next r) : Reads (bound + 1) (.rule name) u next r :=
  fun n rest hrest => ⟨(h n rest hrest).outcome, (h n rest hrest).scan⟩

/-! ## Letters in square brackets -/

theorem rounds_letters (letters : List Atom) (n : Nat) (w : List Token) :
    Rounds (take atom?) (standing n (letters.map .atom ++ w)) letters
      (standing (n + letters.length) w) := by
  induction letters generalizing n with
  | nil => exact .done _
  | cons letter letters ih =>
    have hfirst : atom? (some (.atom letter)) = some letter := rfl
    have hlater := ih (n + 1)
    rw [Nat.add_right_comm, Nat.add_assoc] at hlater
    exact .round (yields_take hfirst n _) hlater

/-- Letters are read as long as they come, and there must be one. -/
theorem Reads.letters (letters : List Atom) (hnext : atom? next = none)
    (hbound : letters.length < bound) :
    Reads bound (.oneOrMore (.symbol atom?)) (letters.map .atom) next
      (if letters = [] then none else some letters) := by
  rintro n rest rfl
  have hrun := (rounds_letters letters n rest).yields_repeated
    (yields_take_none hnext _) (show Repetition.oneOrMore.most = none from rfl) hbound
  rw [List.length_map]
  cases letters <;> exact hrun

/-! ## The phrases of the grammar

  For each phrase, how it reads when its parts read and how it stops when one of them does.  A
  rule is expanded with one less than the bound of the phrase it stands in, behind a token. -/

theorem reads_leaf {t : Token} {p : Pattern} (h : leaf? (some t) = some p) :
    Reads bound phraseFactor [t] next (some p) := by
  refine Reads.look ?_
  show Reads bound (if some t = some .leftSquare then phraseOneOf
    else if some t = some .leftParen then phraseGroup else .symbol leaf?) [t] next (some p)
  have hsquare : some t ≠ some .leftSquare := by rintro ⟨⟩; cases h
  have hparen : some t ≠ some .leftParen := by rintro ⟨⟩; cases h
  rw [if_neg hsquare, if_neg hparen]
  exact Reads.symbol h

/-- A token that begins no factor stops one before it has begun. -/
theorem reads_factor_none (h : startsFactor next = false) :
    Reads bound phraseFactor [] next none := by
  refine Reads.look ?_
  simp only [startsFactor, Bool.or_eq_false_iff, decide_eq_false_iff_not,
    Option.isSome_eq_false_iff, Option.isNone_iff_eq_none] at h
  obtain ⟨⟨hsquare, hparen⟩, hleaf⟩ := h
  show Reads bound (if next = some .leftSquare then phraseOneOf
    else if next = some .leftParen then phraseGroup else .symbol leaf?) [] next none
  rw [if_neg hsquare, if_neg hparen]
  exact Reads.symbol_none hleaf

theorem reads_oneOf {letters : List Atom} (inhabited : letters ≠ [])
    (hbound : letters.length < bound) :
    Reads bound phraseFactor (.leftSquare :: letters.map .atom ++ [.rightSquare]) next
      (some (.oneOf letters)) := by
  have hclose : atom? (some .rightSquare) = none := rfl
  have hletters := Reads.letters letters hclose hbound
  rw [if_neg inhabited] at hletters
  exact Reads.look
    ((((Reads.item .leftSquare).both hletters).both (Reads.item .rightSquare)).map _)

/-- Square brackets stop without a letter, and behind letters at what does not close them. -/
theorem reads_oneOf_none (letters : List Atom) (hbound : letters.length < bound)
    (hnext : atom? next = none) (hclose : letters ≠ [] → next ≠ some .rightSquare) :
    Reads bound phraseFactor (.leftSquare :: letters.map .atom) next none := by
  have hopen := (Reads.item .leftSquare).both (Reads.letters letters hnext hbound)
  by_cases inhabited : letters = []
  · rw [if_pos inhabited] at hopen
    exact Reads.look ((hopen.both_none _).map _)
  · rw [if_neg inhabited] at hopen
    exact Reads.look ((hopen.both_nothing (Reads.item_none (hclose inhabited))).map _)

theorem reads_group {p : Pattern}
    (h : Reads bound phraseAlternation u (some .rightParen) (some p)) :
    Reads (bound + 1) phraseFactor (.leftParen :: u ++ [.rightParen]) next (some p) :=
  Reads.look ((((Reads.item .leftParen).both (Reads.rule .alternation h)).both
    (Reads.item .rightParen)).map fun read => read.1.2)

theorem reads_group_none (h : Reads bound phraseAlternation u next none) :
    Reads (bound + 1) phraseFactor (.leftParen :: u) next none := by
  have hopen := (Reads.item .leftParen).both (Reads.rule .alternation h)
  exact Reads.look ((hopen.both_none _).map _)

theorem reads_group_open {p : Pattern} (h : Reads bound phraseAlternation u next (some p))
    (hclose : next ≠ some .rightParen) :
    Reads (bound + 1) phraseFactor (.leftParen :: u) next none := by
  have hopen := (Reads.item .leftParen).both (Reads.rule .alternation h)
  exact Reads.look ((hopen.both_nothing (Reads.item_none hclose)).map _)

theorem reads_once {p : Pattern} (h : Reads bound phraseFactor u next (some p))
    (hnext : quantifier? next = none) : Reads bound phraseQuantified u next (some p) :=
  (h.both_nothing (Reads.symbol_none hnext).optional).map _

theorem reads_repeated {p : Pattern} {times : Quantifier}
    (h : Reads bound phraseFactor u (some times.token) (some p)) :
    Reads bound phraseQuantified (u ++ [times.token]) next (some (.repeated p times)) := by
  have htoken : quantifier? (some times.token) = some times := by cases times <;> rfl
  exact (h.both (Reads.symbol htoken).optional).map _

theorem reads_quantified_none (h : Reads bound phraseFactor u next none) :
    Reads bound phraseQuantified u next none :=
  (h.both_none _).map _

theorem reads_sequence_nil (hnext : startsFactor next = false) :
    Reads bound phraseSequence [] next (some []) := by
  refine Reads.look ?_
  show Reads bound (if startsFactor next then _ else _) [] next (some [])
  rw [hnext]
  exact Reads.pure []

theorem reads_sequence_cons {v : List Token} {p : Pattern} {r : Option (List Pattern)}
    (h : Reads (bound + 1) phraseQuantified u (v.head?.or next) (some p))
    (hstart : startsFactor u.head? = true) (k : Reads bound phraseSequence v next r) :
    Reads (bound + 1) phraseSequence (u ++ v) next (r.map (p :: ·)) := by
  obtain _ | ⟨t, u⟩ := u
  · exact absurd hstart (by decide)
  refine Reads.look ?_
  -- the token on show is the first one of the item
  rw [if_pos (show startsFactor ((t :: u ++ v).head?.or next) = true from hstart)]
  have hboth := (h.both (Reads.rule .sequence k)).map fun read => read.1 :: read.2
  cases r <;> exact hboth

theorem reads_sequence_none (h : Reads bound phraseQuantified u next none)
    (hstart : startsFactor (u.head?.or next) = true) :
    Reads bound phraseSequence u next none := by
  refine Reads.look ?_
  rw [if_pos hstart]
  exact (h.both_none _).map _

theorem reads_alternatives_nil (hnext : next ≠ some .pipe) :
    Reads bound phraseAlternatives [] next (some []) := by
  refine Reads.look ?_
  show Reads bound (if next = some .pipe then _ else _) [] next (some [])
  rw [if_neg hnext]
  exact Reads.pure []

theorem reads_alternatives_cons {v : List Token} {ps : List Pattern}
    {r : Option (List (List Pattern))}
    (h : Reads (bound + 1) phraseSequence u (v.head?.or next) (some ps))
    (k : Reads bound phraseAlternatives v next r) :
    Reads (bound + 1) phraseAlternatives (.pipe :: u ++ v) next (r.map (ps :: ·)) := by
  refine Reads.look ?_
  have hboth := (((Reads.item .pipe).both h).both (Reads.rule .alternatives k)).map
    fun read => read.1.2 :: read.2
  cases r <;> exact hboth

theorem reads_alternatives_none (h : Reads bound phraseSequence u next none) :
    Reads bound phraseAlternatives (.pipe :: u) next none :=
  Reads.look ((((Reads.item .pipe).both h).both_none _).map _)

theorem reads_alternation {v : List Token} {ps : List Pattern} {r : Option (List (List Pattern))}
    (h : Reads bound phraseSequence u (v.head?.or next) (some ps))
    (k : Reads bound phraseAlternatives v next r) :
    Reads bound phraseAlternation (u ++ v) next (r.map (alternate ps ·)) := by
  have hboth := (h.both k).map fun read => alternate read.1 read.2
  cases r <;> exact hboth

theorem reads_alternation_none (h : Reads bound phraseSequence u next none) :
    Reads bound phraseAlternation u next none :=
  (h.both_none _).map _

end Forward.Pattern
