/-
  Nullability: what it means for matching that a pattern can match nothing.

  `Pattern.isNullable` is read off the pattern alone.  It says which patterns have the empty word
  in their language (`isNullable_iff`), and that settles two things about matches.  A pattern that
  is not nullable takes a record whenever it succeeds (`advances_meaning`); and one that is nullable
  never fails, because every part of it that a match has to get past is nullable itself
  (`sure_meaning`).

  A repetition of a nullable body ends with a round that takes nothing, and that round must not
  cost anything.  It does not: an attempt of a pattern is `Steady`, which says that wherever it has
  neither moved nor read past the end, the scan is as it was.  So the repetition stops where its
  last round that took something has stopped.
-/
import Forward.Proofs.Atomic
import Forward.Proofs.Yields
import Forward.Proofs.Pattern.Language

namespace Forward

open scoped Computability

variable {α β σ τ : Type} {L M : Language α}

/-! ## The empty word -/

theorem nil_notMem_singles (test : α → Bool) : [] ∉ singles test := by
  rintro ⟨x, -, hword⟩
  cases hword

theorem nil_mem_mul : [] ∈ L * M ↔ [] ∈ L ∧ [] ∈ M := by
  rw [Language.mem_mul]
  constructor
  · rintro ⟨u, hu, v, hv, hword⟩
    obtain ⟨rfl, rfl⟩ := List.append_eq_nil_iff.mp hword
    exact ⟨hu, hv⟩
  · rintro ⟨hu, hv⟩
    exact ⟨[], hu, [], hv, rfl⟩

theorem nil_mem_prod {items : List β} {lang : β → Language α} :
    [] ∈ (items.map lang).prod ↔ ∀ item ∈ items, [] ∈ lang item := by
  induction items with
  | nil => exact ⟨fun _ => List.forall_mem_nil _, fun _ => Language.nil_mem_one⟩
  | cons item later ih => rw [List.map_cons, List.prod_cons, nil_mem_mul, ih, List.forall_mem_cons]

theorem nil_mem_sum {branches : List β} {lang : β → Language α} :
    [] ∈ (branches.map lang).sum ↔ ∃ branch ∈ branches, [] ∈ lang branch := by
  induction branches with
  | nil =>
    refine ⟨fun h => absurd h (Language.notMem_zero []), ?_⟩
    rintro ⟨branch, hmem, -⟩
    cases hmem
  | cons branch later ih =>
    rw [List.map_cons, List.sum_cons, Language.mem_add, ih, List.exists_mem_cons_iff]

namespace Attempt

/-! ## Standing still -/

/-- Wherever the attempt has neither read past the end nor moved, it leaves the scan as it was. -/
def Steady (a : Attempt α τ) : Prop :=
  ∀ s, (∀ stop, (a s).outcome ≠ .ended stop) → (a s).scan.position = s.position → (a s).scan = s

theorem steady_take (choose : α → Option τ) : Steady (take choose) := by
  intro s hends hposition
  cases hrem : s.cursor.remaining with
  | cons x xs =>
    rw [take_of_remaining hrem] at hposition ⊢
    cases hx : choose x with
    | none => rfl
    | some value =>
      rw [hx] at hposition
      exact absurd hposition (Nat.succ_ne_self s.position)
  | nil =>
    -- an element that fits has been taken before, so that taking it is a read past the end
    rw [take_of_exhausted hrem] at hends ⊢
    cases hshown : s.cursor.shown with
    | none => rfl
    | some last =>
      rw [hshown] at hends
      cases hlast : choose last with
      | none => simp only [hlast]
      | some value =>
        simp only [hlast] at hends
        exact absurd rfl (hends _)

theorem steady_look : Steady (look : Attempt α α) := fun s _ _ => scan_look s

theorem Steady.bindOutcome {a : Attempt α σ} (h : Steady a)
    (next : Scan α → Run α σ → σ → Outcome τ) :
    Steady fun s => (a s).withOutcome ((a s).outcome.bind (next s (a s))) := by
  intro s hends hposition
  refine h s (fun stop hstop => ?_) hposition
  have hbind : (a s).outcome.bind (next s (a s)) = .ended stop := by rw [hstop]; rfl
  exact hends stop hbind

theorem Steady.map {a : Attempt α σ} (h : Steady a) (f : σ → τ) : Steady (a.map f) :=
  h.bindOutcome fun _ _ x => .matched (f x)

theorem Steady.consuming {a : Attempt α τ} (h : Steady a) : Steady a.consuming :=
  h.bindOutcome fun s r x => if s.position < r.scan.position then .matched x else .failed

theorem Steady.andThen {a : Attempt α σ} {next : σ → Attempt α τ} (onward : Moves Onward a)
    (later : ∀ x, Moves Onward (next x)) (h : Steady a) (k : ∀ x, Steady (next x)) :
    Steady (a.andThen next) := by
  intro s hends hposition
  have hfirst := h s
  have hle := (onward s).position_le
  unfold Attempt.andThen at hends hposition ⊢
  cases hx : (a s).outcome with
  | matched x =>
    simp only [hx] at hends hposition hfirst ⊢
    -- the second attempt does not go back to where the first one began
    have hle' := (later x (a s).scan).position_le
    have hmiddle : (a s).scan = s := by
      refine hfirst (by rintro stop ⟨⟩) ?_
      change (next x (a s).scan).scan.position = s.position at hposition
      omega
    have hlast : (next x (a s).scan).scan = (a s).scan := by
      refine k x (a s).scan hends ?_
      rw [hmiddle] at hposition ⊢
      exact hposition
    exact hlast.trans hmiddle
  | ended stop =>
    simp only [hx] at hends
    exact absurd rfl (hends stop)
  | _ =>
    simp only [hx] at hposition hfirst ⊢
    exact hfirst (by rintro stop ⟨⟩) hposition

theorem Steady.either {a b : Attempt α τ} (onward : Moves Onward a) (later : Moves Onward b)
    (h : Steady a) (k : Steady b) : Steady (a.either b) := by
  intro s hends hposition
  rcases a.either_cases b s with ⟨hfailed, hrun⟩ | ⟨-, hrun⟩
  · rw [hrun] at hends hposition ⊢
    change (b (a s).scan).scan.position = s.position at hposition
    have hle := (onward s).position_le
    have hle' := (later (a s).scan).position_le
    have hmiddle : (a s).scan = s := by
      refine h s ?_ (by omega)
      rw [hfailed]
      rintro stop ⟨⟩
    have hlast : (b (a s).scan).scan = (a s).scan := k (a s).scan hends (by omega)
    exact hlast.trans hmiddle
  · rw [hrun] at hends hposition ⊢
    exact h s hends hposition

theorem composes_steady : Composes (α := α) Steady where
  succeed _ := fun _ _ _ => rfl
  fail := fun _ _ _ => rfl
  map h f := h.map f
  andThen onward later h k := h.andThen onward later k
  either onward later h k := h.either onward later k

theorem Steady.gather {a : Attempt α τ} (onward : Moves Onward a) (h : Steady a)
    (full : Outcome (List τ)) (room : Nat) : Steady fun s => (gather full a room s).run := by
  induction room with
  | zero => exact fun _ _ _ => rfl
  | succ room ih =>
    intro s hends hposition
    have hfirst := h s
    -- neither the round nor the rounds behind it go back
    have hle := (onward s).position_le
    have hle' := (onward.gather kept_onward full room (a s).scan).position_le
    unfold Attempt.gather at hends hposition ⊢
    cases hx : (a s).outcome with
    | matched x =>
      simp only [hx] at hends hposition hfirst ⊢
      change (Attempt.gather full a room (a s).scan).run.scan.position = s.position at hposition
      have hmiddle : (a s).scan = s := hfirst (by rintro stop ⟨⟩) (by omega)
      refine (ih (a s).scan (fun stop hstop => ?_) ?_).trans hmiddle
      · have hmap : (Attempt.gather full a room (a s).scan).run.outcome.map (x :: ·) =
            .ended stop := congrArg (Outcome.map (x :: ·)) hstop
        exact hends stop hmap
      · show (Attempt.gather full a room (a s).scan).run.scan.position = (a s).scan.position
        omega
    | ended stop =>
      simp only [hx] at hends
      exact absurd rfl (hends stop)
    | _ =>
      simp only [hx] at hposition hfirst ⊢
      exact hfirst (by rintro stop ⟨⟩) hposition

theorem Steady.repeated {a : Attempt α τ} (onward : Moves Onward a) (h : Steady a)
    (times : Repetition) (limit : Nat) : Steady (a.repeated times limit) := by
  intro s hends hposition
  rw [scan_repeated] at hposition ⊢
  refine h.gather onward (full times) (room times limit) s (fun stop hstop => ?_) hposition
  have hbind : (a.repeated times limit s).outcome = .ended stop := by
    rw [outcome_repeated]
    show Outcome.bind (Attempt.gather _ _ _ _).run.outcome _ = _
    rw [hstop]
    rfl
  exact hends stop hbind

/-! ## Rounds that have to take something -/

/-- Of an attempt that never fails, a round fails exactly where the attempt succeeds in place. -/
theorem failed_consuming_iff {a : Attempt α τ} (onward : Moves Onward a) (sure : Sure a)
    (s : Scan α) :
    (a.consuming s).outcome = .failed ↔
      (∃ x, (a s).outcome = .matched x) ∧ (a s).scan.position = s.position := by
  have hle := (onward s).position_le
  have hsure := sure s
  unfold Attempt.consuming Run.withOutcome Outcome.bind
  cases hx : (a s).outcome with
  | matched x =>
    simp only [hx]
    constructor
    · intro hfailed
      split at hfailed
      · cases hfailed
      · exact ⟨⟨x, rfl⟩, by omega⟩
    · rintro ⟨-, hposition⟩
      rw [if_neg (by omega)]
  | failed => exact absurd hx hsure
  | _ =>
    simp only [hx]
    constructor
    · rintro ⟨⟩
    · rintro ⟨⟨x, ⟨⟩⟩, -⟩

/-- A round that has to take something fails where the attempt fails or stays where it is. -/
theorem Atomic.consuming {a : Attempt α τ} (h : Atomic a) (onward : Moves Onward a)
    (steady : Steady a) : Atomic a.consuming := by
  intro s hs
  have hle := (onward s).position_le
  unfold Attempt.consuming at hs ⊢
  show (a s).scan = s
  cases hx : (a s).outcome with
  | failed => exact h s hx
  | matched x =>
    refine steady s ?_ ?_
    · rw [hx]
      rintro stop ⟨⟩
    · simp only [hx, Run.withOutcome, Outcome.bind] at hs
      split at hs
      · cases hs
      · omega
  | _ => simp only [hx] at hs; cases hs

/-- A round that fails leaves the scan as it was. -/
theorem scan_of_failed_consuming {a : Attempt α τ} (onward : Moves Onward a) (sure : Sure a)
    (steady : Steady a) {s : Scan α} (h : (a.consuming s).outcome = .failed) :
    (a.consuming s).scan = s :=
  sure.atomic.consuming onward steady s h

end Attempt

namespace Pattern

open Attempt

variable {limit : Nat}

/-! ## Which patterns can match nothing -/

/-- The nullable patterns are those with the empty word in their language. -/
theorem isNullable_iff (p : Pattern) : p.isNullable = true ↔ [] ∈ p.language := by
  induction p with
  | boundary => exact ⟨fun _ => Language.nil_mem_one, fun _ => rfl⟩
  | sequence items ih =>
    rw [isNullable, allNullable_eq, List.all_eq_true, language, languages_eq, nil_mem_prod]
    exact forall₂_congr ih
  | alternation branches ih =>
    rw [isNullable, someNullable_eq, List.any_eq_true, language, languages_eq, nil_mem_sum]
    exact exists_congr fun branch => and_congr_right fun hmem => ih branch hmem
  | repeated body times ih =>
    cases times with
    | oneOrMore =>
      rw [isNullable, language, nil_mem_mul, ih]
      exact (and_iff_left (Language.nil_mem_kstar _)).symm
    | zeroOrMore => exact ⟨fun _ => Language.nil_mem_kstar _, fun _ => rfl⟩
    | zeroOrOne => exact ⟨fun _ => Or.inl Language.nil_mem_one, fun _ => rfl⟩
  | _ => exact ⟨fun h => (Bool.false_ne_true h).elim, fun h => absurd h (nil_notMem_singles _)⟩

/-- A match that succeeds where it began is one of a pattern that can match nothing, and any other
    pattern takes a record whenever it succeeds.  These are the patterns with the empty word in
    their language. -/
theorem nullable_of_matched_in_place (p : Pattern) :
    (∀ s word, (p.attempt s).outcome = .matched word →
        (p.attempt s).scan.position = s.position → p.isNullable = true) ∧
      (p.isNullable = false → ∀ s word, (p.attempt s).outcome = .matched word →
        s.position < (p.attempt s).scan.position) ∧
      (p.isNullable = true ↔ [] ∈ p.language) := by
  have hadvances : p.isNullable = false → ∀ s word, (p.attempt s).outcome = .matched word →
      s.position < (p.attempt s).scan.position := by
    intro hnot s word hword
    exact advances_meaning hnot s word hword
  refine ⟨fun s word hword hposition => ?_, hadvances, isNullable_iff p⟩
  cases hnull : p.isNullable with
  | true => rfl
  | false =>
    have hlt := hadvances hnull s word hword
    omega

/-- The first branch cannot go on behind a record that it has taken, and the second one succeeds
    there without another record.  Where the first one takes nothing, so does the whole. -/
theorem nullable_of_matched_in_place_branch :
    let p : Pattern := .alternation [.sequence [.atom .b, .atom .w], .boundary]
    let s : Scan Record := Scan.ofList [some .h]
    (p.attempt s).outcome = .matched [] ∧ (p.attempt s).scan.position = s.position ∧
      p.isNullable = true ∧ [] ∈ p.language := by
  intro p s
  have hmatched : (p.attempt s).outcome = .matched [] := by decide
  have hposition : (p.attempt s).scan.position = s.position := by decide
  obtain ⟨hnull, -, hlanguage⟩ := nullable_of_matched_in_place p
  have hp : p.isNullable = true := hnull s [] hmatched hposition
  exact ⟨hmatched, hposition, hp, hlanguage.mp hp⟩

/-! ## Nullable patterns never fail -/

theorem sure_repetition {a : Attempt Record (List Record)} {nullable : Bool} {times : Quantifier}
    (h : times = .oneOrMore → nullable = true ∧ Sure a) :
    Sure (repetition nullable times limit a) := by
  have hmore : Repetition.zeroOrMore.least.toNat = 0 := by decide
  have hone : Repetition.zeroOrOne.least.toNat = 0 := by decide
  cases times with
  | oneOrMore =>
    obtain ⟨rfl, hsure⟩ := h rfl
    have hrest := sure_repeated hmore limit a.consuming
    exact (hsure.andThen fun _ => hrest.map _).map _
  | zeroOrMore => cases nullable <;> exact (sure_repeated hmore limit _).map _
  | zeroOrOne => cases nullable <;> exact (sure_repeated hone limit _).map _

/-- A pattern that can match nothing never fails. -/
theorem sure_meaning {p : Pattern} (h : p.isNullable = true) : Sure (meaning limit p) := by
  induction p with
  | boundary => exact sure_look.map _
  | sequence items ih =>
    rw [isNullable, allNullable_eq, List.all_eq_true] at h
    rw [meaning_sequence]
    refine (sure_inOrder fun a ha => ?_).map _
    obtain ⟨item, hitem, rfl⟩ := List.mem_map.mp ha
    exact ih item hitem (h item hitem)
  | alternation branches ih =>
    rw [isNullable, someNullable_eq, List.any_eq_true] at h
    obtain ⟨branch, hbranch, hnull⟩ := h
    rw [meaning_alternation]
    exact sure_firstOf ⟨_, List.mem_map_of_mem hbranch, ih branch hbranch hnull⟩
  | repeated body times ih =>
    rw [meaning_repeated]
    refine sure_repetition ?_
    rintro rfl
    exact ⟨h, ih h⟩
  | _ => exact (Bool.false_ne_true h).elim

/-! ## Rounds that take nothing -/

theorem closed_steady : Closed limit Steady where
  toComposes := composes_steady
  boundary := steady_look.map _
  consuming h := h.consuming
  repeated onward _ h := h.repeated onward _ _

/-- A match that has neither moved nor read past the end leaves the scan as it was. -/
theorem steady_meaning (p : Pattern) : Steady (meaning limit p) :=
  closed_steady.meaning fun _ _ => steady_take _

/-- Nothing is given by a match that stays where it is. -/
theorem eq_nil_of_matched_in_place {p : Pattern} {s : Scan Record} {word : List Record}
    (h : (meaning limit p s).outcome = .matched word)
    (hposition : (meaning limit p s).scan.position = s.position) : word = [] := by
  obtain ⟨-, taken, htook, hsub⟩ := spells_meaning p s word h
  have hcount := htook.position
  obtain rfl : taken = [] := List.length_eq_zero_iff.mp (by omega)
  exact List.sublist_nil.mp hsub

theorem consuming_attempt (p : Pattern) {s : Scan Record} (h : s.cursor.remaining.length < limit) :
    p.attempt.consuming s = (meaning limit p).consuming s := by
  unfold Attempt.consuming
  rw [attempt_eq_meaning p h]

/-- Rounds of a pattern do not depend on the limit, if it exceeds the number of records left. -/
theorem rounds_attempt {p : Pattern} {s t : Scan Record} {words : List (List Record)}
    (h : Rounds (meaning limit p).consuming s words t) (hs : s.cursor.remaining.length < limit) :
    Rounds p.attempt.consuming s words t ∧ t.cursor.remaining.length < limit := by
  induction h with
  | done s => exact ⟨.done s, hs⟩
  | @round s s₁ t word words first later ih =>
    have honward : Onward s (meaning limit p s).scan := onward_meaning p s
    have hless := honward.length_le
    obtain ⟨hout, hscan⟩ := first
    obtain rfl : (meaning limit p s).scan = s₁ := hscan
    obtain ⟨hlater, ht⟩ := ih (by omega)
    refine ⟨.round ⟨?_, ?_⟩ hlater, ht⟩
    · rw [consuming_attempt p hs]
      exact hout
    · rw [consuming_attempt p hs]
      rfl

/-- Rounds of a nullable pattern stop where the last one that took a record has stopped: the one
    behind it costs nothing. -/
theorem rounds_of_consuming {p : Pattern} (h : p.isNullable = true) {s : Scan Record}
    (hs : s.cursor.remaining.length < limit) {words : List (List Record)}
    (hwords : ((meaning limit p).consuming.repeated .zeroOrMore limit s).outcome =
      .matched words) :
    let last := ((meaning limit p).consuming.repeated .zeroOrMore limit s).scan
    Rounds p.attempt.consuming s words last ∧ (p.attempt.consuming last).outcome = .failed := by
  intro last
  obtain ⟨-, t, hrounds, hfailed, hscan⟩ := rounds_of_repeated rfl hwords
  obtain ⟨hrounds, ht⟩ := rounds_attempt hrounds hs
  have hstays : ((meaning limit p).consuming t).scan = t :=
    scan_of_failed_consuming (onward_meaning p) (sure_meaning h) (steady_meaning p) hfailed
  obtain rfl : t = last := hstays.symm.trans hscan
  refine ⟨hrounds, ?_⟩
  rw [consuming_attempt p ht]
  exact hfailed

/-- The rounds of a repetition of a nullable pattern each take a record, and what they give is what
    the repetition gives.  That the first one of one or more may be empty makes no difference. -/
theorem rounds_of_nullable {p : Pattern} (h : p.isNullable = true) {times : Quantifier}
    (unbounded : times ≠ .zeroOrOne) {s : Scan Record} {word : List Record}
    (hword : ((repeated p times).attempt s).outcome = .matched word) :
    let last := ((repeated p times).attempt s).scan
    ∃ words, word = words.flatten ∧ Rounds p.attempt.consuming s words last ∧
      (p.attempt.consuming last).outcome = .failed := by
  have hs : s.cursor.remaining.length < s.cursor.remaining.length + 1 := Nat.lt_succ_self _
  rw [attempt_eq_meaning _ hs, meaning_repeated, h] at hword ⊢
  generalize s.cursor.remaining.length + 1 = limit at hs hword ⊢
  cases times with
  | zeroOrOne => exact absurd rfl unbounded
  | zeroOrMore =>
    obtain ⟨words, hwords, rfl⟩ := matched_of_map hword
    exact ⟨words, rfl, rounds_of_consuming h hs hwords⟩
  | oneOrMore =>
    obtain ⟨⟨first, words⟩, hboth, rfl⟩ := matched_of_map hword
    obtain ⟨x, hx, hlater, hscan⟩ := matched_of_andThen hboth
    obtain ⟨ws, hwords, hpair⟩ := matched_of_map hlater
    obtain ⟨rfl, rfl⟩ := Prod.mk.inj hpair
    have honward : Onward s (meaning limit p s).scan := onward_meaning p s
    have hless := honward.length_le
    obtain ⟨hrounds, hfailed⟩ := rounds_of_consuming h (by omega) hwords
    intro last
    have hlast : last = ((meaning limit p).consuming.repeated .zeroOrMore limit
        (meaning limit p s).scan).scan := hscan
    rw [hlast]
    rcases Nat.lt_or_eq_of_le honward.position_le with hlt | hposition
    · -- the first round takes a record, like those behind it
      refine ⟨x :: ws, rfl, .round ⟨?_, ?_⟩ hrounds, hfailed⟩
      · rw [consuming_attempt p hs]
        unfold Attempt.consuming Run.withOutcome Outcome.bind
        simp only [hx, if_pos hlt]
      · rw [consuming_attempt p hs]
        rfl
    · -- the first round is empty, and the others begin where it began
      have hnil : x = [] := eq_nil_of_matched_in_place hx hposition.symm
      have hstays : (meaning limit p s).scan = s := by
        refine steady_meaning p s ?_ hposition.symm
        rw [hx]
        rintro stop ⟨⟩
      rw [hstays] at hrounds hfailed ⊢
      refine ⟨ws, ?_, hrounds, hfailed⟩
      rw [hnil, List.flatten_cons, List.nil_append]

/-- A match of a nullable pattern succeeds or reads past the end, wherever it begins.  So a round
    that has to take a record fails exactly where the match succeeds in place, and then leaves the
    scan as it was.  A repetition of the pattern that succeeds has come to where it stops by rounds
    that each took a record, from where it began, and a further round fails there. -/
theorem attempt_of_nullable {p : Pattern} (nullable : p.isNullable = true) (s : Scan Record) :
    ((∃ word, (p.attempt s).outcome = .matched word) ∨
        ∃ stop, (p.attempt s).outcome = .ended stop) ∧
      ((p.attempt.consuming s).outcome = .failed ↔
        (∃ word, (p.attempt s).outcome = .matched word) ∧
          (p.attempt s).scan.position = s.position) ∧
      ((p.attempt.consuming s).outcome = .failed → (p.attempt.consuming s).scan = s) ∧
      ∀ times, times ≠ .zeroOrOne → ∀ word,
        ((repeated p times).attempt s).outcome = .matched word →
          let last := ((repeated p times).attempt s).scan
          ∃ words, word = words.flatten ∧ Rounds p.attempt.consuming s words last ∧
            (p.attempt.consuming last).outcome = .failed := by
  have honward : Moves Onward p.attempt := fun t => onward_meaning p t
  have hsure : Sure p.attempt := fun t => sure_meaning nullable t
  have hsteady : Steady p.attempt := fun t => steady_meaning p t
  refine ⟨?_, failed_consuming_iff honward hsure s, scan_of_failed_consuming honward hsure hsteady,
    fun times unbounded word hword => rounds_of_nullable nullable unbounded hword⟩
  have hfinished := finished_attempt p s
  have hnot := hsure s
  cases hx : (p.attempt s).outcome with
  | matched word => exact Or.inl ⟨word, rfl⟩
  | ended stop => exact Or.inr ⟨stop, rfl⟩
  | failed => exact absurd hx hnot
  | unfinished => exact absurd hx hfinished

/-- The second round loses a record in a branch that fails behind it.  It has taken the record all
    the same, and the repetition stops behind it. -/
theorem attempt_of_nullable_branch :
    let p : Pattern := .alternation [.sequence [.atom .b, .atom .w], .boundary]
    let s : Scan Record := Scan.ofList [some .b, some .w, some .b, some .h]
    let last : Scan Record := ⟨⟨3, .ready (some .h) []⟩, .empty⟩
    p.isNullable = true ∧
      ((repeated p .zeroOrMore).attempt s).outcome = .matched [some .b, some .w] ∧
      ((repeated p .zeroOrMore).attempt s).scan = last ∧
      (∃ words, [some .b, some .w] = words.flatten ∧ Rounds p.attempt.consuming s words last) ∧
      (p.attempt.consuming last).outcome = .failed ∧ (p.attempt.consuming last).scan = last := by
  intro p s last
  have hnull : p.isNullable = true := by decide
  have hmatched : ((repeated p .zeroOrMore).attempt s).outcome = .matched [some .b, some .w] := by
    decide
  have hlast : ((repeated p .zeroOrMore).attempt s).scan = last := by decide
  obtain ⟨-, -, -, hrepeated⟩ := attempt_of_nullable hnull s
  obtain ⟨words, hword, hrounds, hfailed⟩ := hrepeated .zeroOrMore (by decide) _ hmatched
  rw [hlast] at hrounds hfailed
  obtain ⟨-, -, hstays, -⟩ := attempt_of_nullable hnull last
  exact ⟨hnull, hmatched, hlast, ⟨words, hword, hrounds⟩, hfailed, hstays hfailed⟩

end Pattern
end Forward
