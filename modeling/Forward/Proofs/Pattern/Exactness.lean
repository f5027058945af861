/-
  Exact matches: when a match gives all the records that it passed over.

  In general it does not.  A branch or a round that fails may have taken records before, and what it
  took is behind the match without being a part of it.  Nothing is lost if whatever is given up is
  given up where it began.  A pattern is `Clean` if it is seen from its form that each failure of it
  leaves the scan as it was (`Clean.atomic`): it takes one record, or it cannot fail, or it fails
  where a clean part in front does.  A pattern is `WellGuarded` if only clean patterns can be given
  up in it: the branches in front of another branch, and the bodies of repetitions.

  `Exact a` says that every success of the attempt `a` gives what it took, all of it and in order.
  It passes to choices and to rounds if what is tried before is atomic, and so to well-guarded
  patterns (`WellGuarded.exact`).
-/
import Forward.Proofs.Pattern.Nullability
import Forward.Proofs.Pattern.Quantifiers

namespace Forward

namespace Attempt

variable {α : Type}

/-- Every success of the attempt gives exactly the elements that it took. -/
def Exact (a : Attempt α (List α)) : Prop :=
  ∀ s word, (a s).outcome = .matched word → Took s word (a s).scan

/-! ## Single elements -/

theorem exact_satisfy (test : α → Bool) : Exact ((satisfy test).map fun x => [x]) := by
  intro s word hword
  obtain ⟨x, hx, rfl⟩ := matched_of_map hword
  exact (took_of_satisfy hx).2

theorem exact_look : Exact ((look : Attempt α α).map fun _ => []) := by
  intro s word hword
  obtain ⟨x, -, rfl⟩ := matched_of_map hword
  show Took s [] (look s).scan
  rw [scan_look]
  exact took_nil s

/-! ## One after the other, one or the other -/

theorem exact_succeed : Exact (succeed ([] : List α)) := by
  intro s word hword
  obtain rfl : [] = word := Outcome.matched.inj hword
  exact took_nil s

theorem Exact.andThen {a b : Attempt α (List α)} (h : Exact a) (k : Exact b) :
    Exact (a.andThen fun xs => b.map (xs ++ ·)) := by
  intro s word hword
  obtain ⟨xs, hx, hnext, hscan⟩ := matched_of_andThen hword
  obtain ⟨ys, hy, rfl⟩ := matched_of_map hnext
  rw [hscan]
  exact (h s xs hx).trans (k (a s).scan ys hy)

theorem exact_series {as : List (Attempt α (List α))} (h : ∀ a ∈ as, Exact a) :
    Exact (series as) := by
  induction as with
  | nil => exact exact_succeed
  | cons a as ih =>
    obtain ⟨hfirst, hlater⟩ := List.forall_mem_cons.mp h
    rw [series_cons]
    exact hfirst.andThen (ih hlater)

/-- Behind an atomic failure the second attempt begins where the first one did. -/
theorem Exact.either {a b : Attempt α (List α)} (atomic : Atomic a) (h : Exact a) (k : Exact b) :
    Exact (a.either b) := by
  intro s word hword
  rcases a.either_cases b s with ⟨hfailed, hrun⟩ | ⟨-, hrun⟩
  · rw [hrun, atomic s hfailed] at hword ⊢
    exact k s word hword
  · rw [hrun] at hword ⊢
    exact h s word hword

/-- The last one of some branches may fail in any way. -/
theorem exact_firstOf {as : List (Attempt α (List α))} (atomic : ∀ a ∈ as.dropLast, Atomic a)
    (h : ∀ a ∈ as, Exact a) : Exact (firstOf as) := by
  induction as with
  | nil =>
    intro s word hword
    cases hword
  | cons a as ih =>
    obtain ⟨hfirst, hlater⟩ := List.forall_mem_cons.mp h
    cases as with
    | nil =>
      rw [firstOf_singleton]
      exact hfirst
    | cons b as =>
      rw [List.dropLast_cons_cons] at atomic
      obtain ⟨hatomic, hatomics⟩ := List.forall_mem_cons.mp atomic
      exact hfirst.either hatomic (ih hatomics hlater)

/-! ## Again and again -/

theorem Exact.consuming {a : Attempt α (List α)} (h : Exact a) : Exact a.consuming := by
  intro s word hword
  exact h s word (matched_of_consuming hword).1

/-- What rounds take one after the other is what they give, put together. -/
theorem Exact.rounds {a : Attempt α (List α)} (h : Exact a) {s t : Scan α} {words : List (List α)}
    (hrounds : Rounds a s words t) : Took s words.flatten t := by
  induction hrounds with
  | done s => exact took_nil s
  | @round s s₁ t word words first later ih =>
    obtain ⟨hword, rfl⟩ := first
    rw [List.flatten_cons]
    exact (h s word hword).trans ih

/-- The attempt that ends the rounds fails, and fails where it began. -/
theorem Exact.repeated {a : Attempt α (List α)} (atomic : Atomic a) (h : Exact a)
    {times : Repetition} (unbounded : times.most = none) (limit : Nat) :
    Exact ((a.repeated times limit).map List.flatten) := by
  intro s word hword
  obtain ⟨words, hwords, rfl⟩ := matched_of_map hword
  obtain ⟨-, t, hrounds, hfailed, hscan⟩ := rounds_of_repeated unbounded hwords
  have hstop : (a.repeated times limit s).scan = t := hscan.symm.trans (atomic t hfailed)
  show Took s words.flatten (a.repeated times limit s).scan
  rw [hstop]
  exact h.rounds hrounds

end Attempt

namespace Pattern

open Attempt

variable {limit : Nat}

theorem exact_repetition {a : Attempt Record (List Record)} (onward : Moves Onward a)
    (steady : Steady a) (atomic : Atomic a) (h : Exact a) (nullable : Bool) (times : Quantifier) :
    Exact (repetition nullable times limit a) := by
  have hrest : Exact (repetition true .zeroOrMore limit a) :=
    h.consuming.repeated (atomic.consuming onward steady) rfl limit
  have honce : Exact ((a.repeated .zeroOrOne limit).map List.flatten) := by
    rw [repeated_zeroOrOne]
    exact h.either atomic exact_succeed
  cases times with
  | zeroOrOne => cases nullable <;> exact honce
  | zeroOrMore =>
    cases nullable with
    | false => exact h.repeated atomic rfl limit
    | true => exact hrest
  | oneOrMore =>
    cases nullable with
    | false => exact h.repeated atomic rfl limit
    | true =>
      rw [repetition_oneOrMore]
      exact exact_series (List.forall_mem_cons.mpr ⟨h, List.forall_mem_singleton.mpr hrest⟩)

/-! ## Clean and well-guarded patterns -/

/-- Does the form of the pattern show that it fails only where it began?  A single record does so,
    and a pattern that never fails, and what can fail only where a clean part in front does. -/
inductive Clean : Pattern → Prop where
  | leaf {p : Pattern} (single : p.isLeaf = true) : Clean p
  | nullable {p : Pattern} (nullable : p.isNullable = true) : Clean p
  | alternation {branches : List Pattern} (all : ∀ branch ∈ branches, Clean branch) :
      Clean (.alternation branches)
  | sequence {first : Pattern} {later : List Pattern} (head : Clean first)
      (tail : ∀ item ∈ later, item.isNullable = true) : Clean (.sequence (first :: later))
  | oneOrMore {body : Pattern} (inside : Clean body) : Clean (.repeated body .oneOrMore)

/-- Is only what is clean given up anywhere in the pattern?  The branches in front of another one
    and the bodies of repetitions are. -/
inductive WellGuarded : Pattern → Prop where
  | atom (letter : Atom) : WellGuarded (.atom letter)
  | any : WellGuarded .any
  | nil : WellGuarded .nil
  | boundary : WellGuarded .boundary
  | oneOf (letters : List Atom) : WellGuarded (.oneOf letters)
  | sequence {items : List Pattern} (all : ∀ item ∈ items, WellGuarded item) :
      WellGuarded (.sequence items)
  | alternation {branches : List Pattern} (clean : ∀ branch ∈ branches.dropLast, Clean branch)
      (all : ∀ branch ∈ branches, WellGuarded branch) : WellGuarded (.alternation branches)
  | repeated {body : Pattern} (times : Quantifier) (clean : Clean body)
      (inside : WellGuarded body) : WellGuarded (.repeated body times)

/-- A clean pattern that fails leaves the scan as it was. -/
theorem Clean.atomic {p : Pattern} (h : p.Clean) : Atomic (meaning limit p) := by
  induction h with
  | leaf single =>
    rw [meaning_leaf single]
    exact (atomic_take _).map _
  | nullable nullable => exact (sure_meaning nullable).atomic
  | alternation all ih =>
    rw [meaning_alternation]
    refine atomic_firstOf fun a ha => ?_
    obtain ⟨branch, hbranch, rfl⟩ := List.mem_map.mp ha
    exact ih branch hbranch
  | sequence head tail ih =>
    rw [meaning_sequence]
    refine (ih.inOrder fun a ha => ?_).map _
    obtain ⟨item, hitem, rfl⟩ := List.mem_map.mp ha
    exact sure_meaning (tail item hitem)
  | @oneOrMore body inside ih =>
    cases hnull : body.isNullable with
    | true =>
      -- the whole is nullable, too
      have hwhole : (Pattern.repeated body .oneOrMore).isNullable = true := by
        rw [isNullable]
        exact hnull
      exact (sure_meaning hwhole).atomic
    | false =>
      have hleast : (Quantifier.times .oneOrMore).least.toNat ≤ 1 := by decide
      rw [meaning_rounds hnull]
      exact (ih.repeated hleast limit).map _

theorem exact_leaf {p : Pattern} (single : p.isLeaf = true) : Exact (meaning limit p) := by
  rw [meaning_leaf single]
  exact exact_satisfy p.accepts

/-- A well-guarded pattern gives all the records that it takes. -/
theorem WellGuarded.exact {p : Pattern} (h : p.WellGuarded) : Exact (meaning limit p) := by
  induction h with
  | atom letter => exact exact_leaf rfl
  | any => exact exact_leaf rfl
  | nil => exact exact_leaf rfl
  | boundary => exact exact_look
  | oneOf letters => exact exact_leaf rfl
  | sequence all ih =>
    rw [meaning_sequence]
    refine exact_series fun a ha => ?_
    obtain ⟨item, hitem, rfl⟩ := List.mem_map.mp ha
    exact ih item hitem
  | alternation clean all ih =>
    rw [meaning_alternation]
    refine exact_firstOf (fun a ha => ?_) fun a ha => ?_
    · rw [← List.map_dropLast] at ha
      obtain ⟨branch, hbranch, rfl⟩ := List.mem_map.mp ha
      exact (clean branch hbranch).atomic
    · obtain ⟨branch, hbranch, rfl⟩ := List.mem_map.mp ha
      exact ih branch hbranch
  | @repeated body times clean inside ih =>
    rw [meaning_repeated]
    exact exact_repetition (onward_meaning body) (steady_meaning body) clean.atomic ih _ times

/-- Where a match of a well-guarded pattern succeeds at a place in a stream of records, it gives all
    the records between this place and the one where it stops. -/
theorem matched_eq_extract {p : Pattern} (guarded : p.WellGuarded) {records word : List Record}
    {s : Scan Record} (place : s.cursor.Over records)
    (h : (p.attempt s).outcome = .matched word) :
    s.position ≤ (p.attempt s).scan.position ∧ (p.attempt s).scan.position ≤ records.length ∧
      word = records.extract s.position (p.attempt s).scan.position := by
  have htook : Took s word (p.attempt s).scan := guarded.exact s word h
  have hposition := htook.position
  exact ⟨by omega, htook.position_le place, htook.eq_extract place⟩

/-- The rounds of `(B|WH?)+` are given up where they began, the last of them in front of the `L`. -/
theorem matched_eq_extract_rounds :
    let body : Pattern :=
      .alternation [.atom .b, .sequence [.atom .w, .repeated (.atom .h) .zeroOrOne]]
    let p : Pattern := .sequence [.repeated body .oneOrMore, .atom .l]
    let records : List Record := [some .b, some .w, some .h, some .b, some .l, none]
    let s : Scan Record := Scan.ofList records
    p.WellGuarded ∧ s.cursor.Over records ∧
      (p.attempt s).outcome = .matched [some .b, some .w, some .h, some .b, some .l] ∧
      (p.attempt s).scan.position = 5 ∧
      [some .b, some .w, some .h, some .b, some .l] = records.extract 0 5 := by
  intro body p records s
  have hsecond : Clean (.sequence [.atom .w, .repeated (.atom .h) .zeroOrOne]) :=
    .sequence (.leaf rfl) (List.forall_mem_singleton.mpr rfl)
  have hclean : body.Clean :=
    .alternation (List.forall_mem_cons.mpr ⟨.leaf rfl, List.forall_mem_singleton.mpr hsecond⟩)
  have hinside : WellGuarded (.sequence [.atom .w, .repeated (.atom .h) .zeroOrOne]) :=
    .sequence (List.forall_mem_cons.mpr
      ⟨.atom .w, List.forall_mem_singleton.mpr (.repeated .zeroOrOne (.leaf rfl) (.atom .h))⟩)
  have hbody : body.WellGuarded :=
    .alternation (List.forall_mem_singleton.mpr (.leaf rfl))
      (List.forall_mem_cons.mpr ⟨.atom .b, List.forall_mem_singleton.mpr hinside⟩)
  have hguarded : p.WellGuarded :=
    .sequence (List.forall_mem_cons.mpr
      ⟨.repeated .oneOrMore hclean hbody, List.forall_mem_singleton.mpr (.atom .l)⟩)
  have hplace : s.cursor.Over records := Cursor.over_ofList records
  have hmatched : (p.attempt s).outcome =
      .matched [some .b, some .w, some .h, some .b, some .l] := by decide
  have hposition : (p.attempt s).scan.position = 5 := by decide
  obtain ⟨-, -, hword⟩ := matched_eq_extract hguarded hplace hmatched
  rw [hposition] at hword
  exact ⟨hguarded, hplace, hmatched, hposition, hword⟩

/-- A branch that is not clean takes a record with it. -/
example :
    let p : Pattern := .alternation [.sequence [.atom .b, .atom .w], .any]
    let s : Scan Record := Scan.ofList [some .b, some .h]
    (p.attempt s).outcome = .matched [some .h] ∧ (p.attempt s).scan.position = 2 := by
  decide

end Pattern

end Forward
