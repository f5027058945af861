/-
  The recursion of the grammar: how deep the rules stand inside one another.

  The rules refer to each other, and two of them may take nothing at all.  What keeps the reader
  from expanding rules for ever is where the references stand.  Further items stand behind an item,
  further branches behind a bar, and a pattern in parentheses behind the opening one.  Each of these
  takes a token whenever it matches, so that every rule that is expanded in the course of another
  phrase begins at a later token (`Production.defers`).

  So a stream of tokens is read with a bound of its length, and no more than that many rules stand
  inside one another.  The end mark does not count: no rule takes it, and none is expanded behind
  it.
-/
import Forward.Proofs.Depth
import Forward.Proofs.Pattern.Resting

namespace Forward.Pattern

open PatternRule Attempt Matcher

variable {τ : Type}

/-! ## The phrases of the grammar -/

/-- The phrases that stand on the right of the rules, and those that these are made of. -/
inductive Production : {τ : Type} → Phrase τ → Prop where
  | oneOf : Production phraseOneOf
  | group : Production phraseGroup
  | factor : Production phraseFactor
  | quantified : Production phraseQuantified
  | sequence : Production phraseSequence
  | alternatives : Production phraseAlternatives
  | alternation : Production phraseAlternation
  | pattern : Production phrasePattern

theorem production_rule (name : PatternRule τ) : Production (grammar τ name) := by
  cases name with
  | sequence => exact .sequence
  | alternatives => exact .alternatives
  | alternation => exact .alternation

/-! ## Phrases that take a token -/

section

variable (bound : Nat)

theorem advances_oneOf : Advances (phraseOneOf.run grammar bound) :=
  (advances_both (advances_both (advances_item _) _) _).map _

theorem advances_group : Advances (phraseGroup.run grammar bound) :=
  (advances_both (advances_both (advances_item _) _) _).map _

/-- Whatever the next token is, a factor takes it. -/
theorem advances_factor : Advances (phraseFactor.run grammar bound) := by
  refine .andThen_right (moves_look kept_onward) fun next => ?_
  dsimp only
  split
  · exact advances_oneOf bound
  · split
    · exact advances_group bound
    · exact advances_symbol leaf?

theorem advances_quantified : Advances (phraseQuantified.run grammar bound) :=
  (advances_both (advances_factor bound) _).map _

end

/-! ## Where the rules stand -/

section

variable {bound : Nat}

theorem defers_oneOf : phraseOneOf.Defers grammar bound 1 := by
  have hletters : (Matcher.oneOrMore (.symbol atom?) : Phrase _).Defers grammar bound 0 :=
    (defers_symbol atom?).repeated (advances_symbol atom?) .oneOrMore
  have hopen := (defers_item (some .leftSquare)).both_of_advances (advances_item _) hletters
  exact (hopen.both (defers_item _)).map _

variable (rules : ∀ {σ : Type} (name : PatternRule σ),
  (Matcher.rule name : Phrase σ).Defers grammar bound 0)

include rules

theorem defers_group : phraseGroup.Defers grammar bound 1 := by
  have hopen := (defers_item (some .leftParen)).both_of_advances (advances_item _)
    (rules .alternation)
  exact (hopen.both (defers_item _)).map _

theorem defers_factor : phraseFactor.Defers grammar bound 1 := by
  refine defers_peek.andThen fun next => ?_
  split
  · exact defers_oneOf
  · split
    · exact defers_group rules
    · exact defers_symbol leaf?

theorem defers_quantified : phraseQuantified.Defers grammar bound 1 :=
  ((defers_factor rules).both (defers_symbol quantifier?).optional).map _

theorem defers_sequence : phraseSequence.Defers grammar bound 1 := by
  refine defers_peek.andThen fun next => ?_
  split
  · have hitem := advances_quantified bound
    exact ((defers_quantified rules).both_of_advances hitem (rules .sequence)).map _
  · exact defers_pure []

theorem defers_alternatives : phraseAlternatives.Defers grammar bound 1 := by
  refine defers_peek.andThen fun next => ?_
  split
  · have hbranch := (defers_item (some .pipe)).both (defers_sequence rules)
    exact (hbranch.both_of_advances (advances_both (advances_item _) _) (rules .alternatives)).map _
  · exact defers_pure []

theorem defers_alternation : phraseAlternation.Defers grammar bound 1 :=
  ((defers_sequence rules).both (defers_alternatives rules)).map _

/-- Where rules defer nothing, every phrase defers them by a token. -/
theorem Production.defers_of_rules {φ : Phrase τ} (h : Production φ) :
    φ.Defers grammar bound 1 := by
  cases h with
  | oneOf => exact defers_oneOf
  | group => exact defers_group rules
  | factor => exact defers_factor rules
  | quantified => exact defers_quantified rules
  | sequence => exact defers_sequence rules
  | alternatives => exact defers_alternatives rules
  | alternation => exact defers_alternation rules
  | pattern => exact ((defers_alternation rules).both (defers_item none)).map _

end

/-- No phrase expands a rule where it begins, and as many rules as there are tokens are enough to
    come to an answer. -/
theorem Production.defers {φ : Phrase τ} (h : Production φ) (bound : Nat) :
    φ.Defers grammar bound 1 :=
  h.defers_of_rules fun name =>
    Matcher.defers_of_rules (fun _ rules _ name => (production_rule name).defers_of_rules rules)
      bound name

/-! ## The run of the reader -/

/-- The end mark is asked for behind all rules, and nothing is reported of it. -/
theorem trace_phrasePattern (bound : Nat) (s : Scan (Option Token)) :
    (phrasePattern.run grammar bound s).trace = (phraseAlternation.run grammar bound s).trace :=
  trace_both_of_silent _ (fun s => (take_touches _ s).1) s

/-- The rules that the reader expands begin behind a token and, since none of them takes it, not
    behind the end mark. -/
theorem phrasePattern_descends (tokens : List Token) (bound : Nat) :
    Trace.Descends (phrasePattern.run grammar bound (Scan.ofList (stream tokens))).trace 0
      (nonBlank tokens).length := by
  rw [trace_phrasePattern]
  intro start inside hevent
  have hdescends := (Production.alternation.defers bound).expands.descends
    (Scan.ofList (stream tokens))
  obtain ⟨hstart, hend, hdeeper⟩ := hdescends start inside hevent
  have hstays := Matcher.run_stays grammar_refuses alternation_refuses bound
  obtain ⟨-, xs, hxs⟩ := hstays (Scan.ofList (stream tokens)) (before_stream tokens)
  -- the end mark is still there, and it is the last element of the stream
  have hadd := (phraseAlternation.run_onward grammar bound
    (Scan.ofList (stream tokens))).length_add
  have hstream : (Scan.ofList (stream tokens)).cursor.remaining = stream tokens :=
    Cursor.remaining_ofList (stream tokens)
  have hzero : (Scan.ofList (stream tokens)).position = 0 := rfl
  rw [hxs, hstream, length_stream, List.length_append, List.length_singleton] at hadd
  exact ⟨hstart, by omega, hdeeper⟩

/-- Reading a pattern comes to an end, since the rules that it expands inside one another begin at
    later and later tokens.

    * The reader comes to an answer, and it does so with every bound that is not less than the
      number of tokens that count and the end mark.
    * With every bound, each rule that is expanded begins behind a token and not behind the end
      mark.  The rules that are expanded inside it, at any depth, begin at later tokens.  So no more
      rules stand inside one another than there are tokens that count.
    * The same holds of each phrase of the grammar, wherever in whatever stream it is attempted.  It
      comes to an answer with a bound of as many elements as are left, and every rule that it
      expands, at any depth, begins at a later token than the phrase itself. -/
theorem expansions_descend (tokens : List Token) :
    (readRun tokens).Finished ∧
    (∀ bound, (stream tokens).length ≤ bound →
      phrasePattern.run grammar bound (Scan.ofList (stream tokens)) = readRun tokens) ∧
    (∀ bound,
      let r := phrasePattern.run grammar bound (Scan.ofList (stream tokens))
      (∀ start inside, Occurs (.expanded start inside) r.trace →
        0 < start ∧ start ≤ (nonBlank tokens).length ∧
          ∀ deeper further, Occurs (.expanded deeper further) inside → start < deeper) ∧
      Trace.depth r.trace ≤ (nonBlank tokens).length) ∧
    (∀ {τ : Type} (φ : Phrase τ), Production φ → ∀ bound s,
      (s.cursor.remaining.length ≤ bound → (φ.run grammar bound s).Finished) ∧
      ∀ start inside, Occurs (.expanded start inside) (φ.run grammar bound s).trace →
        s.position < start) := by
  have hfinished : ∀ bound, (stream tokens).length ≤ bound →
      (phrasePattern.run grammar bound (Scan.ofList (stream tokens))).Finished := by
    intro bound hbound
    refine (Production.pattern.defers bound).finishes _ ?_
    rw [Scan.ofList, Cursor.remaining_ofList]
    omega
  have hread := hfinished ((stream tokens).length + 1) (Nat.le_succ _)
  refine ⟨hread, fun bound hbound => ?_, fun bound => ?_, fun φ hφ bound s => ?_⟩
  · exact Matcher.run_unique grammar phrasePattern (hfinished bound hbound) hread
  · have hdescends := phrasePattern_descends tokens bound
    exact ⟨hdescends, hdescends.depth_le⟩
  · have hdefers := hφ.defers bound
    refine ⟨fun hs => hdefers.finishes s (Nat.lt_succ_of_le hs), fun start inside hevent => ?_⟩
    exact (hdefers.expands.descends s start inside hevent).1

/-- Two parentheses that are left open, and a letter.  The pattern is rejected at the end mark, and
    there the third rule is expanded inside the others: one for each of the tokens. -/
theorem expansions_descend_parentheses :
    let tokens : List Token := [.leftParen, .space, .leftParen, .atom .b]
    let s := Scan.ofList (stream tokens)
    let rules : Trace (Option Token) := [.expanded 1 [.expanded 2 [.expanded 3 []]]]
    (parse tokens).value = .error .incomplete ∧ (readRun tokens).Finished ∧
      (stream tokens).length ≤ 4 ∧ phrasePattern.run grammar 4 s = readRun tokens ∧
      (readRun tokens).trace = rules ∧ Trace.depth rules = 3 ∧
      Trace.depth (readRun tokens).trace ≤ (nonBlank tokens).length ∧
      (nonBlank tokens).length = 3 ∧ Production phraseGroup ∧
      s.cursor.remaining.length ≤ 4 ∧ (phraseGroup.run grammar 4 s).Finished ∧
      (phraseGroup.run grammar 4 s).trace = rules ∧ s.position < 1 := by
  have hvalue : (parse [.leftParen, .space, .leftParen, .atom .b]).value = .error .incomplete := rfl
  have htrace : (readRun [.leftParen, .space, .leftParen, .atom .b]).trace =
      [.expanded 1 [.expanded 2 [.expanded 3 []]]] := rfl
  have hgroup : (phraseGroup.run grammar 4
      (Scan.ofList (stream [.leftParen, .space, .leftParen, .atom .b]))).trace =
        [.expanded 1 [.expanded 2 [.expanded 3 []]]] := rfl
  intro tokens s rules
  obtain ⟨hfinished, hbounds, hruns, hphrases⟩ := expansions_descend tokens
  obtain ⟨hfinishes, hbehind⟩ := hphrases phraseGroup .group 4 s
  have hbound : (stream tokens).length ≤ 4 := by decide
  have hremaining : s.cursor.remaining.length ≤ 4 := by decide
  have hread := hbounds 4 hbound
  have hexpanded : Occurs (.expanded 1 [.expanded 2 [.expanded 3 []]])
      (phraseGroup.run grammar 4 s).trace := by
    rw [hgroup]
    exact .top List.mem_cons_self
  obtain ⟨-, hdepth⟩ := hruns 4
  rw [hread] at hdepth
  exact ⟨hvalue, hfinished, hbound, hread, htrace, rfl, hdepth, by decide, .group, hremaining,
    hfinishes hremaining, hgroup, hbehind 1 _ hexpanded⟩

end Forward.Pattern
