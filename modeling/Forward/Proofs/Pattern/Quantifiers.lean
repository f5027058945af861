/-
  Quantifiers: repetitions in terms of the other forms of patterns.

  A repetition is carried out in one of two ways, depending on whether its body is nullable.  Rounds
  of a nullable body have to take a record each, but for the first one of one or more.  Rounds of
  any other body take a record whenever they succeed, so that nothing changes if they are made to
  (`Advances.consuming_eq`), and the two ways come to the same (`repetition_of_advances`).  One way
  counts the rounds when they are over, and the other one begins with a round that must not fail.
  They meet in the law that one or more rounds are a round and then any number of rounds
  (`alike_oneOrMore`), however the first one and the later ones come out.

  It follows that the quantifiers are abbreviations, for every body.  `p+` is `p` and then `p*`, and
  `p?` is `p` or nothing.
-/
import Forward.Proofs.Yields
import Forward.Proofs.Pattern.Rounds

namespace Forward

namespace Attempt

variable {α τ : Type}

/-! ## Rounds that take something anyway -/

/-- An attempt that takes an element whenever it succeeds need not be made to. -/
theorem Advances.consuming_eq {a : Attempt α τ} (h : Advances a) : a.consuming = a := by
  funext s
  have houtcome : ((a s).outcome.bind fun x =>
      if s.position < (a s).scan.position then .matched x else .failed) = (a s).outcome := by
    cases hx : (a s).outcome with
    | matched x =>
      have hlt := h s x hx
      exact if_pos hlt
    | _ => rfl
  show (a s).withOutcome _ = a s
  rw [houtcome]
  rfl

/-! ## One round and the others -/

/-- At most one round is the attempt, or nothing where it fails. -/
theorem repeated_zeroOrOne (a : Attempt α (List τ)) (limit : Nat) :
    (a.repeated .zeroOrOne limit).map List.flatten = a.either (succeed []) := by
  funext s
  have hmost : Repetition.zeroOrOne.most = some 1 := rfl
  have hroom : (1 : UInt64).toNat = 0 + 1 := rfl
  unfold Attempt.map Attempt.repeated Attempt.either
  simp only [hmost, hroom, Attempt.gather]
  obtain ⟨outcome, s', trace⟩ := a s
  cases outcome with
  | matched x =>
    show Run.mk (.matched [x].flatten) s' (trace ++ []) = Run.mk (.matched x) s' trace
    rw [List.flatten_singleton, List.append_nil]
  | failed =>
    show Run.mk (.matched []) s' trace = Run.mk (.matched []) s' (trace ++ [])
    rw [List.append_nil]
  | _ => rfl

theorem counted_oneOrMore (x : τ) (later : List τ) :
    counted .oneOrMore (x :: later) = .matched (x :: later) := by
  have hadmits : Repetition.oneOrMore.admits (x :: later).length = true :=
    Bool.and_eq_true_iff.mpr ⟨decide_eq_true (Nat.succ_pos later.length), rfl⟩
  rw [counted, if_pos hadmits]

/-- One or more rounds are a round and then any number of rounds, in the room that it leaves. -/
theorem alike_oneOrMore (a : Attempt α τ) (room : Nat) :
    Alike (a.repeated .oneOrMore (room + 1))
      ((a.both (a.repeated .zeroOrMore room)).map fun taken => taken.1 :: taken.2) := by
  intro s
  have hgathered : a.gathered .oneOrMore (room + 1) s =
      (gather .unfinished a (room + 1) s).run := rfl
  rw [outcome_repeated, scan_repeated, hgathered, both_map]
  unfold Attempt.gather Attempt.andThen
  obtain ⟨outcome, s', trace⟩ := a s
  cases outcome with
  | matched x =>
    -- the rounds behind the first one come out alike, whether or not they are counted
    have hlater : a.gathered .zeroOrMore room s' = (gather .unfinished a room s').run := rfl
    show ((gather .unfinished a room s').run.outcome.map (x :: ·)).bind _ =
        (a.repeated .zeroOrMore room s').outcome.map (x :: ·) ∧
      (gather .unfinished a room s').run.scan = (a.repeated .zeroOrMore room s').scan
    rw [outcome_repeated, scan_repeated, hlater]
    refine ⟨?_, rfl⟩
    cases (gather .unfinished a room s').run.outcome with
    | matched later => exact counted_oneOrMore x later
    | _ => rfl
  | _ => exact ⟨rfl, rfl⟩

/-- A finished repetition of one or more rounds is a round and then any number of rounds.  The bound
    on rounds is the same on both sides: the later rounds do not need all of it. -/
theorem oneOrMore_of_finished {a : Attempt α τ} {limit : Nat} {s : Scan α}
    (h : (a.repeated .oneOrMore limit s).Finished) :
    Yields ((a.both (a.repeated .zeroOrMore limit)).map fun taken => taken.1 :: taken.2) s
      (a.repeated .oneOrMore limit s).outcome (a.repeated .oneOrMore limit s).scan := by
  cases limit with
  | zero => exact absurd rfl h
  | succ room =>
    obtain ⟨hout, hscan⟩ := alike_oneOrMore a room s
    have hrest : Below (a.repeated .zeroOrMore room) (a.repeated .zeroOrMore (room + 1)) :=
      (Below.refl a).repeated .zeroOrMore (Nat.le_succ room)
    have hbelow := ((Below.refl a).both hrest).map fun taken => taken.1 :: taken.2
    have hsame := hbelow s fun hunfinished => h (hout.trans hunfinished)
    constructor
    · rw [hsame, hout]
    · rw [hsame, hscan]

end Attempt

namespace Pattern

open Attempt

variable {limit : Nat}

/-! ## The two ways to carry out a repetition -/

/-- Of a body that takes a record whenever it succeeds, a repetition comes to the same in both
    ways. -/
theorem repetition_of_advances {a : Attempt Record (List Record)} (h : Advances a)
    (times : Quantifier) {s : Scan Record}
    (finished : (repetition false times limit a s).Finished) :
    Yields (repetition true times limit a) s (repetition false times limit a s).outcome
      (repetition false times limit a s).scan := by
  cases times with
  | zeroOrOne => exact ⟨rfl, rfl⟩
  | zeroOrMore =>
    rw [repetition, h.consuming_eq]
    exact ⟨rfl, rfl⟩
  | oneOrMore =>
    have hrounds : (a.repeated .oneOrMore limit s).Finished := by
      intro hunfinished
      exact finished (congrArg (Outcome.map List.flatten) hunfinished)
    have hunrolled := (oneOrMore_of_finished hrounds).map List.flatten
    rw [map_map] at hunrolled
    rw [repetition, h.consuming_eq]
    exact hunrolled

/-- Whatever the body is, its repetition comes to the same as one whose rounds are made to take a
    record, but for the first one of one or more. -/
theorem yields_repetition (p : Pattern) (times : Quantifier) {s : Scan Record}
    (enough : s.cursor.remaining.length < limit) :
    Yields (repetition true times limit (meaning limit p)) s
      (meaning limit (.repeated p times) s).outcome (meaning limit (.repeated p times) s).scan := by
  have hfinished := finishes_meaning (.repeated p times) s enough
  rw [meaning_repeated] at hfinished ⊢
  cases hnull : p.isNullable with
  | true => exact ⟨rfl, rfl⟩
  | false =>
    rw [hnull] at hfinished
    exact repetition_of_advances (advances_meaning hnull) times hfinished

/-- Of a pattern that is not nullable, rounds that have to take a record come out as plain rounds do
    and leave the same scan, with every bound on rounds that exceeds the number of records left.
    The plain ones are what a repetition of the pattern is carried out with, and they come to an
    answer. -/
theorem consumingRounds_eq_rounds {p : Pattern} (solid : p.isNullable = false) (times : Quantifier)
    (s : Scan Record) (enough : s.cursor.remaining.length < limit) :
    let guarded := (consumingRounds p.matcher times).run .empty limit s
    let plain := (rounds p.matcher times).run .empty limit s
    guarded.outcome = plain.outcome ∧ guarded.scan = plain.scan ∧ plain.Finished ∧
      plain = (repeated p times).attempt s := by
  intro guarded plain
  have hguarded : guarded = repetition true times limit (meaning limit p) s := by
    cases times <;> rfl
  have hplain : plain = meaning limit (.repeated p times) s := by
    rw [meaning_repeated, solid]
    rfl
  have hattempt : plain = (repeated p times).attempt s := by
    rw [hplain, attempt_eq_meaning _ enough]
  obtain ⟨hout, hscan⟩ := yields_repetition p times enough
  rw [← hguarded, ← hplain] at hout hscan
  refine ⟨hout, hscan, ?_, hattempt⟩
  rw [hattempt]
  exact finished_attempt (.repeated p times) s

/-- The last round takes a record and fails behind it, in both ways. -/
theorem consumingRounds_eq_rounds_lost :
    let p : Pattern := .alternation [.sequence [.atom .b, .atom .w], .atom .h]
    let s : Scan Record := Scan.ofList [some .b, some .w, some .h, some .b, some .l]
    p.isNullable = false ∧ s.cursor.remaining.length < 6 ∧
      ((rounds p.matcher .oneOrMore).run .empty 6 s).outcome =
        .matched [some .b, some .w, some .h] ∧
      ((consumingRounds p.matcher .oneOrMore).run .empty 6 s).outcome =
        .matched [some .b, some .w, some .h] ∧
      ((consumingRounds p.matcher .oneOrMore).run .empty 6 s).scan.position = 4 := by
  intro p s
  have hsolid : p.isNullable = false := by decide
  have henough : s.cursor.remaining.length < 6 := by decide
  have hplain : ((rounds p.matcher .oneOrMore).run .empty 6 s).outcome =
      .matched [some .b, some .w, some .h] := by decide
  have hposition : ((rounds p.matcher .oneOrMore).run .empty 6 s).scan.position = 4 := by decide
  obtain ⟨hout, hscan, -, -⟩ := consumingRounds_eq_rounds hsolid .oneOrMore s henough
  exact ⟨hsolid, henough, hplain, hout.trans hplain, (congrArg Scan.position hscan).trans hposition⟩

/-! ## Quantifiers as abbreviations -/

/-- Any number of rounds may always be made to take a record. -/
theorem meaning_zeroOrMore_eq (p : Pattern) :
    meaning limit (.repeated p .zeroOrMore) =
      repetition true .zeroOrMore limit (meaning limit p) := by
  rw [meaning_repeated]
  cases hnull : p.isNullable with
  | true => rfl
  | false =>
    have hadvances : Advances (meaning limit p) := advances_meaning hnull
    rw [repetition, repetition, hadvances.consuming_eq]
    rfl

/-- The series of a pattern and any number of rounds of it. -/
theorem meaning_once_and_more (p : Pattern) :
    meaning limit (.sequence [p, .repeated p .zeroOrMore]) =
      repetition true .oneOrMore limit (meaning limit p) := by
  rw [repetition_oneOrMore, ← meaning_zeroOrMore_eq, meaning_sequence]
  rfl

/-- A pattern or nothing. -/
theorem meaning_once_or_nothing (p : Pattern) :
    meaning limit (.alternation [p, .sequence []]) = meaning limit (.repeated p .zeroOrOne) := by
  have hnothing : meaning limit (.sequence []) = succeed [] := meaning_sequence []
  rw [meaning_zeroOrOne, repeated_zeroOrOne, meaning_alternation, ← hnothing]
  show (meaning limit p).either (firstOf [meaning limit (.sequence [])]) = _
  rw [firstOf_singleton]

/-- Quantifiers are abbreviations, whatever they are applied to and wherever a match begins.  Once
    or oftener is once, and then any number of times; once or not at all is once, or nothing.  Both
    ways of writing it come out alike, with the same records, and leave the same scan, and every
    match comes to an answer. -/
theorem quantifiers_desugar (p : Pattern) (s : Scan Record) :
    let oneOrMore := (repeated p .oneOrMore).attempt s
    let inSequence := (sequence [p, .repeated p .zeroOrMore]).attempt s
    let zeroOrOne := (repeated p .zeroOrOne).attempt s
    let inChoice := (alternation [p, .sequence []]).attempt s
    (oneOrMore.outcome = inSequence.outcome ∧ oneOrMore.scan = inSequence.scan ∧
        oneOrMore.Finished) ∧
      zeroOrOne.outcome = inChoice.outcome ∧ zeroOrOne.scan = inChoice.scan ∧
        zeroOrOne.Finished := by
  intro oneOrMore inSequence zeroOrOne inChoice
  have henough : s.cursor.remaining.length < s.cursor.remaining.length + 2 := by omega
  obtain ⟨hout, hscan⟩ := yields_repetition p .oneOrMore henough
  rw [← meaning_once_and_more] at hout hscan
  have hchoice : inChoice = zeroOrOne := congrFun (meaning_once_or_nothing p) s
  refine ⟨⟨hout.symm, hscan.symm, finished_attempt _ s⟩, ?_⟩
  rw [hchoice]
  exact ⟨rfl, rfl, finished_attempt _ s⟩

/-- Both ways of writing at least one record of any kind run into the end of the records. -/
example :
    let s : Scan Record := Scan.ofList [some .b, some .w]
    ((repeated .any .oneOrMore).attempt s).outcome = .ended ⟨2⟩ ∧
      ((sequence [.any, .repeated .any .zeroOrMore]).attempt s).outcome = .ended ⟨2⟩ := by
  decide

end Pattern

end Forward
