/-
  Where the reader of patterns comes to rest.

  The grammar is attempted on the tokens that count, with an end mark behind them.  No rule takes
  the end mark: the tables of single tokens say nothing about it, and what is taken besides is
  always a certain token (`grammar_refuses`).  So whatever the grammar comes to stays in front of
  it, class bodies and quantifiers too, which take as much as they can (`Reaches.stays`).  Only
  behind a whole pattern is the end mark asked for, and there is something left to answer that.

  Hence the reader never reads past the end.  It takes a pattern and the end mark, or it fails in
  front of a token or the end mark (`readRun_decided`), and which of these it is decides what the
  error says.
-/
import Forward.Proofs.EndMark
import Forward.Proofs.Pattern.Rejection

namespace Forward.Pattern

open PatternRule Attempt

/-! ## No rule takes the end mark -/

theorem oneOf_refuses : phraseOneOf.Each (Matcher.Refuses none) :=
  ⟨trivial, ⟨trivial, ⟨trivial, rfl, trivial, rfl⟩, rfl⟩⟩

theorem group_refuses : phraseGroup.Each (Matcher.Refuses none) :=
  ⟨trivial, ⟨trivial, ⟨trivial, rfl, trivial⟩, rfl⟩⟩

/-- Whatever the next token is, no part of a factor takes the end mark. -/
theorem factor_refuses : phraseFactor.Each (Matcher.Refuses none) := by
  refine ⟨trivial, trivial, fun next => ?_⟩
  dsimp only
  split
  · exact oneOf_refuses
  · split
    · exact group_refuses
    · exact rfl

theorem quantified_refuses : phraseQuantified.Each (Matcher.Refuses none) :=
  ⟨trivial, ⟨trivial, factor_refuses, trivial, rfl⟩⟩

theorem sequence_refuses : phraseSequence.Each (Matcher.Refuses none) := by
  refine ⟨trivial, trivial, fun next => ?_⟩
  dsimp only
  split
  · exact ⟨trivial, ⟨trivial, quantified_refuses, trivial⟩⟩
  · trivial

theorem alternatives_refuses : phraseAlternatives.Each (Matcher.Refuses none) := by
  refine ⟨trivial, trivial, fun next => ?_⟩
  dsimp only
  split
  · exact ⟨trivial, ⟨trivial, ⟨trivial, rfl, sequence_refuses⟩, trivial⟩⟩
  · trivial

theorem alternation_refuses : phraseAlternation.Each (Matcher.Refuses none) :=
  ⟨trivial, trivial, sequence_refuses, alternatives_refuses⟩

/-- No rule of the grammar takes the end mark. -/
theorem grammar_refuses {τ : Type} (name : PatternRule τ) :
    (grammar τ name).Each (Matcher.Refuses none) := by
  cases name with
  | sequence => exact sequence_refuses
  | alternatives => exact alternatives_refuses
  | alternation => exact alternation_refuses

/-! ## Where the reader comes to rest -/

theorem before_stream (tokens : List Token) : Before none (Scan.ofList (stream tokens)) :=
  ⟨_, Cursor.remaining_ofList (stream tokens)⟩

theorem before_standing (n : Nat) (w : List Token) : Before none (standing n w) :=
  ⟨_, Front.remaining_ofList (w.map some ++ [none])⟩

theorem shown_standing (n : Nat) (w : List Token) :
    (standing n w).cursor.shown = some w.head? := by
  cases w <;> rfl

/-- In front of the end mark no attempt of the grammar reads past the end. -/
theorem phrasePattern_ne_ended {s : Scan (Option Token)} (hs : Before none s) (bound : Nat)
    (stop : PastEnd) : (phrasePattern.run grammar bound s).outcome ≠ .ended stop := by
  have hstays := Matcher.run_stays grammar_refuses alternation_refuses bound
  have hboth := hstays.both_ne_ended (b := (Matcher.item none : Phrase _).run grammar bound)
    (fun s' hs' => take_ne_ended _ hs') hs
  show Outcome.map _ (Attempt.both _ _ s).outcome ≠ _
  cases hout : (Attempt.both _ _ s).outcome with
  | ended past => exact absurd hout (hboth past)
  | _ => rintro ⟨⟩

/-- The reader accepts the tokens, or it comes to rest in front of a token or of the end mark, and
    reports the one or the other. -/
theorem readRun_rests (tokens : List Token) :
    (∃ p, (readRun tokens).outcome = .matched p ∧ (parse tokens).value = .ok p ∧
      (parse tokens).messages = []) ∨
    ((readRun tokens).outcome = .failed ∧ Before none (readRun tokens).scan ∧
      (readRun tokens).scan.position ≤ (nonBlank tokens).length ∧
      (parse tokens).messages = [.patternRejected (readRun tokens).scan.position] ∧
      ((∃ place found, (parse tokens).value = .error (.unexpectedToken place found) ∧
          (readRun tokens).scan.cursor.shown = some (some found)) ∨
        ((parse tokens).value = .error .incomplete ∧
          (readRun tokens).scan.cursor.shown = some none))) := by
  obtain ⟨u, rest, r, hw, -, -, hdecided⟩ := readRun_decided tokens
  rcases hdecided with ⟨p, -, -, houtcome⟩ | ⟨houtcome, hscan⟩
  · exact Or.inl ⟨p, houtcome, by simp only [parse, houtcome], by simp only [parse, houtcome]⟩
  · have hvalue : (parse tokens).value = .error (rejection tokens (standing u.length rest)) := by
      simp only [parse, houtcome, hscan]
    have hmessages : (parse tokens).messages =
        [.patternRejected (readRun tokens).scan.position] := by
      simp only [parse, houtcome]
    have hplace : u.length ≤ (nonBlank tokens).length := by
      rw [hw, List.length_append]
      omega
    refine Or.inr ⟨houtcome, ?_, ?_, hmessages, ?_⟩
    · rw [hscan]
      exact before_standing u.length rest
    · rw [hscan]
      exact hplace
    · rw [hvalue, hscan, shown_standing]
      cases rest with
      | nil => exact Or.inr ⟨congrArg Except.error (rejection_nil tokens u.length), rfl⟩
      | cons t rest =>
        obtain ⟨place, herror, -⟩ := rejection_cons hw
        exact Or.inl ⟨place, t, congrArg Except.error herror, rfl⟩

/-- A read past the end is not reported. -/
theorem patternEnded_notMem_messages (tokens : List Token) (stop : PastEnd) :
    Message.patternEnded stop ∉ (parse tokens).messages := by
  intro hmem
  rcases readRun_rests tokens with ⟨p, -, -, hmessages⟩ | ⟨-, -, -, hmessages, -⟩
  · rw [hmessages] at hmem
    cases hmem
  · rw [hmessages] at hmem
    cases List.mem_singleton.mp hmem

/-- A token is reported where the reader rests in front of it. -/
theorem unexpectedToken_iff (tokens : List Token) (found : Token) :
    (∃ place, (parse tokens).value = .error (.unexpectedToken place found)) ↔
      (readRun tokens).outcome = .failed ∧
        (readRun tokens).scan.cursor.shown = some (some found) := by
  rcases readRun_rests tokens with ⟨p, houtcome, hvalue, -⟩ | ⟨houtcome, -, -, -, hrest⟩
  · rw [houtcome, hvalue]
    exact ⟨by rintro ⟨place, ⟨⟩⟩, by rintro ⟨⟨⟩, -⟩⟩
  · rcases hrest with ⟨place, t, hvalue, hshown⟩ | ⟨hvalue, hshown⟩
    · rw [hvalue, hshown]
      constructor
      · rintro ⟨place', heq⟩
        cases heq
        exact ⟨houtcome, rfl⟩
      · rintro ⟨-, heq⟩
        cases heq
        exact ⟨place, rfl⟩
    · rw [hvalue, hshown]
      exact ⟨by rintro ⟨place, ⟨⟩⟩, by rintro ⟨-, ⟨⟩⟩⟩

/-- The pattern is reported as incomplete where the reader rests in front of the end mark. -/
theorem incomplete_iff (tokens : List Token) :
    (parse tokens).value = .error .incomplete ↔
      (readRun tokens).outcome = .failed ∧ (readRun tokens).scan.cursor.shown = some none := by
  rcases readRun_rests tokens with ⟨p, houtcome, hvalue, -⟩ | ⟨houtcome, -, -, -, hrest⟩
  · rw [houtcome, hvalue]
    exact ⟨by rintro ⟨⟩, by rintro ⟨⟨⟩, -⟩⟩
  · rcases hrest with ⟨place, t, hvalue, hshown⟩ | ⟨hvalue, hshown⟩
    · rw [hvalue, hshown]
      exact ⟨by rintro ⟨⟩, by rintro ⟨-, ⟨⟩⟩⟩
    · exact ⟨fun _ => ⟨houtcome, hshown⟩, fun _ => hvalue⟩

/-- The reader never reads past the end mark.

    * The grammar, attempted with any bound on the tokens that count and the end mark behind them,
      does not read past the end, and no read past the end is reported.
    * Everything that the grammar comes to in front of the end mark, in whatever stream and however
      deep, leaves the end mark unread, and there is no read past the end.
    * The reader matches, or it fails in front of something unread, behind at most all of the tokens
      that count.
    * The error names a token exactly if the reader has come to rest in front of this token, and
      says that the pattern is incomplete exactly if that is the end mark. -/
theorem readRun_before_end (tokens : List Token) :
    (∀ bound stop,
      (phrasePattern.run grammar bound (Scan.ofList (stream tokens))).outcome ≠ .ended stop) ∧
    (∀ stop, Message.patternEnded stop ∉ (parse tokens).messages) ∧
    (∀ {σ : Type} (φ : Phrase σ), Reaches grammar phraseAlternation φ → ∀ bound s, Before none s →
      (∀ stop, (φ.run grammar bound s).outcome ≠ .ended stop) ∧
        Before none (φ.run grammar bound s).scan) ∧
    ((∃ p, (readRun tokens).outcome = .matched p) ∨
      ((readRun tokens).outcome = .failed ∧ Before none (readRun tokens).scan ∧
        (readRun tokens).scan.position ≤ (nonBlank tokens).length)) ∧
    (∀ found, (∃ place, (parse tokens).value = .error (.unexpectedToken place found)) ↔
      (readRun tokens).outcome = .failed ∧
        (readRun tokens).scan.cursor.shown = some (some found)) ∧
    ((parse tokens).value = .error .incomplete ↔
      (readRun tokens).outcome = .failed ∧ (readRun tokens).scan.cursor.shown = some none) := by
  refine ⟨fun bound => phrasePattern_ne_ended (before_stream tokens) bound,
    patternEnded_notMem_messages tokens,
    fun φ hφ bound => hφ.stays grammar_refuses alternation_refuses bound, ?_,
    unexpectedToken_iff tokens, incomplete_iff tokens⟩
  rcases readRun_rests tokens with ⟨p, houtcome, -⟩ | ⟨houtcome, hbefore, hplace, -⟩
  · exact Or.inl ⟨p, houtcome⟩
  · exact Or.inr ⟨houtcome, hbefore, hplace⟩

/-- A class that is left open.  Its atoms are read up to the end mark, which is left where it is. -/
theorem readRun_before_end_class :
    let tokens : List Token := [.leftSquare, .atom .b, .space, .atom .w]
    let s := Scan.ofList (stream tokens)
    let opened := phraseOneOf.run grammar 4 s
    Reaches grammar phraseAlternation phraseOneOf ∧ Before none s ∧
      Before none opened.scan ∧ opened.scan.position = 3 ∧
      (parse tokens).value = .error .incomplete ∧
      (readRun tokens).scan.cursor.shown = some none := by
  intro tokens s opened
  obtain ⟨-, -, hrules, hrests, -, hincomplete⟩ := readRun_before_end tokens
  have hlook : (Matcher.peek.run grammar 0 s).outcome = .matched (some .leftSquare) := rfl
  have hsequence : Reaches grammar phraseAlternation phraseSequence := Reaches.self.map.bothFirst
  have hfactor : Reaches grammar phraseAlternation phraseFactor :=
    (hsequence.next hlook).map.bothFirst.map.bothFirst
  have hclass : Reaches grammar phraseAlternation phraseOneOf := hfactor.next hlook
  have hstart : Before none s := before_stream tokens
  have hshown : (readRun tokens).scan.cursor.shown = some none := by decide +kernel
  have hfailed : (readRun tokens).outcome = .failed := by
    have hunmatched : (readRun tokens).outcome.isMatched = false := by decide +kernel
    rcases hrests with ⟨p, hmatched⟩ | ⟨hfailed, -⟩
    · rw [hmatched] at hunmatched
      cases hunmatched
    · exact hfailed
  exact ⟨hclass, hstart, (hrules phraseOneOf hclass 4 s hstart).2, rfl,
    hincomplete.mpr ⟨hfailed, hshown⟩, hshown⟩

end Forward.Pattern
