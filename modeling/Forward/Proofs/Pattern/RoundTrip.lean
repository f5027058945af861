/-
  The round trip: a pattern that is printed and read again means what it meant.

  What is read again is `Pattern.reread`, which differs from the pattern only in how sequences and
  alternations are nested.  Nesting has no meaning.  A pattern matches as its branches do, one
  after the other until one does not fail, and each branch as the series of its items
  (`meaning_rereadBranches`), because a series and a choice may be cut anywhere.  It is nullable
  if a branch has nullable items only (`nullable_rereadBranches`), so that repetitions are read
  back with the kind of rounds that they had.
-/
import Forward.Proofs.Laws
import Forward.Proofs.Pattern.Lexing
import Forward.Proofs.Pattern.Meaning
import Forward.Proofs.Pattern.Parsing
import Forward.Proofs.Pattern.Reread

namespace Forward.Pattern

open Attempt

/-! ## Nullability -/

theorem isNullable_ofItems (items : List Pattern) :
    (ofItems items).isNullable = items.all isNullable := by
  rcases items with _ | ⟨item, _ | ⟨next, later⟩⟩
  · rfl
  · show item.isNullable = (item.isNullable && true)
    rw [Bool.and_true]
  · show (Pattern.sequence (item :: next :: later)).isNullable = _
    rw [isNullable, allNullable_eq]

/-- Is there a branch with nullable items only? -/
def branchesNullable (bss : List (List Pattern)) : Bool := bss.any fun items => items.all isNullable

theorem isNullable_joined (bss : List (List Pattern)) :
    (joined bss).isNullable = branchesNullable bss := by
  rcases bss with _ | ⟨first, _ | ⟨next, later⟩⟩
  · rfl
  · show (ofItems first).isNullable = (first.all isNullable || false)
    rw [isNullable_ofItems, Bool.or_false]
  · show (Pattern.alternation ((first :: next :: later).map ofItems)).isNullable = _
    rw [isNullable, someNullable_eq, List.any_map]
    exact congrArg (List.any _) (funext isNullable_ofItems)

theorem nullable_rereadItems {items : List Pattern}
    (h : ∀ item ∈ items, branchesNullable (rereadBranches item) = item.isNullable) :
    (rereadItems items).all isNullable = items.all isNullable := by
  induction items with
  | nil => rfl
  | cons item later ih =>
    have hitem := h item List.mem_cons_self
    have hlater := ih fun other hother => h other (List.mem_cons_of_mem item hother)
    rw [rereadItems, List.all_append, hlater, List.all_cons]
    refine congrArg (· && later.all isNullable) ?_
    cases hkind : item.isAlternation with
    | true =>
      show ((joined (rereadBranches item)).isNullable && true) = item.isNullable
      rw [isNullable_joined, hitem, Bool.and_true]
    | false =>
      obtain ⟨inner, hinner⟩ := exists_rereadBranches hkind
      rw [hinner] at hitem ⊢
      have hflat : [inner].flatten = inner := List.flatten_singleton
      have hone : (inner.all isNullable || false) = item.isNullable := hitem
      rw [Bool.or_false] at hone
      show [inner].flatten.all isNullable = item.isNullable
      rw [hflat, hone]

theorem nullable_rereadEach {branches : List Pattern}
    (h : ∀ branch ∈ branches, branchesNullable (rereadBranches branch) = branch.isNullable) :
    branchesNullable (rereadEach branches) = branches.any isNullable := by
  induction branches with
  | nil => rfl
  | cons branch later ih =>
    have hbranch := h branch List.mem_cons_self
    have hlater := ih fun other hother => h other (List.mem_cons_of_mem branch hother)
    rw [branchesNullable] at hbranch hlater ⊢
    rw [rereadEach, List.any_append, hbranch, hlater, List.any_cons]

/-- A pattern is nullable if a branch of it is read with nullable items only. -/
theorem nullable_rereadBranches (p : Pattern) :
    branchesNullable (rereadBranches p) = p.isNullable := by
  induction p with
  | atom letter => rfl
  | any => rfl
  | nil => rfl
  | boundary => rfl
  | oneOf letters => rfl
  | sequence items ih =>
    show ((rereadItems items).all isNullable || false) = (Pattern.sequence items).isNullable
    rw [Bool.or_false, nullable_rereadItems ih, isNullable, allNullable_eq]
  | alternation branches ih =>
    rw [rereadBranches, nullable_rereadEach ih, isNullable, someNullable_eq]
  | repeated body times ih =>
    rw [← isNullable_joined] at ih
    show ((Pattern.repeated (joined (rereadBranches body)) times).isNullable && true || false) = _
    rw [Bool.and_true, Bool.or_false]
    cases times with
    | oneOrMore => rw [isNullable, isNullable, ih]
    | zeroOrMore => rfl
    | zeroOrOne => rfl

theorem isNullable_reread (p : Pattern) : p.reread.isNullable = p.isNullable := by
  rw [reread, isNullable_joined, nullable_rereadBranches]

/-! ## Meaning -/

variable {limit : Nat}

/-- The attempt of some items, one after the other. -/
def itemsMeaning (limit : Nat) (items : List Pattern) : Attempt Record (List Record) :=
  series (items.map (meaning limit))

/-- The attempt of some branches, each given by its items. -/
def branchesMeaning (limit : Nat) (bss : List (List Pattern)) : Attempt Record (List Record) :=
  firstOf (bss.map (itemsMeaning limit))

theorem meaning_ofItems (items : List Pattern) :
    meaning limit (ofItems items) = itemsMeaning limit items := by
  rcases items with _ | ⟨item, _ | ⟨next, later⟩⟩
  · exact meaning_sequence []
  · exact (series_singleton (meaning limit item)).symm
  · exact meaning_sequence (item :: next :: later)

theorem meaning_joined (bss : List (List Pattern)) :
    meaning limit (joined bss) = branchesMeaning limit bss := by
  rcases bss with _ | ⟨first, _ | ⟨next, later⟩⟩
  · exact meaning_alternation []
  · show meaning limit (ofItems first) = firstOf [itemsMeaning limit first]
    rw [meaning_ofItems, firstOf_singleton]
  · show meaning limit (.alternation ((first :: next :: later).map ofItems)) = _
    rw [meaning_alternation, List.map_map]
    exact congrArg firstOf (List.map_congr_left fun items _ => meaning_ofItems items)

/-- What a repetition means depends on its body only through its meaning and its nullability. -/
theorem meaning_repeated_congr {p q : Pattern} (hnull : q.isNullable = p.isNullable)
    (hmeaning : meaning limit q = meaning limit p) (times : Quantifier) :
    meaning limit (.repeated q times) = meaning limit (.repeated p times) := by
  rw [meaning_repeated, meaning_repeated, hnull, hmeaning]

/-- The items of two lists, one list after the other. -/
theorem itemsMeaning_append (ps qs : List Pattern) :
    itemsMeaning limit (ps ++ qs) = (itemsMeaning limit ps).andThen fun taken =>
      (itemsMeaning limit qs).map (taken ++ ·) := by
  rw [itemsMeaning, List.map_append, series_append]
  rfl

theorem itemsMeaning_cons (item : Pattern) (later : List Pattern) :
    itemsMeaning limit (item :: later) = (meaning limit item).andThen fun taken =>
      (itemsMeaning limit later).map (taken ++ ·) :=
  series_cons (meaning limit item) (later.map (meaning limit))

/-- The branches of two lists, those of the second if all of the first fail. -/
theorem branchesMeaning_append (bss css : List (List Pattern)) :
    branchesMeaning limit (bss ++ css) =
      (branchesMeaning limit bss).either (branchesMeaning limit css) := by
  rw [branchesMeaning, List.map_append, firstOf_append]
  rfl

theorem branchesMeaning_singleton (items : List Pattern) :
    branchesMeaning limit [items] = itemsMeaning limit items :=
  firstOf_singleton (itemsMeaning limit items)

/-- The items of a sequence mean the same when they are read again, given that each of them
    does. -/
theorem meaning_rereadItems {items : List Pattern}
    (h : ∀ item ∈ items, branchesMeaning limit (rereadBranches item) = meaning limit item) :
    itemsMeaning limit (rereadItems items) = itemsMeaning limit items := by
  induction items with
  | nil => rfl
  | cons item later ih =>
    have hitem := h item List.mem_cons_self
    have hlater := ih fun other hother => h other (List.mem_cons_of_mem item hother)
    rw [rereadItems, itemsMeaning_append, hlater, itemsMeaning_cons]
    refine congrArg (Attempt.andThen · _) ?_
    cases hkind : item.isAlternation with
    | true =>
      show series [meaning limit (joined (rereadBranches item))] = meaning limit item
      rw [series_singleton, meaning_joined, hitem]
    | false =>
      obtain ⟨inner, hinner⟩ := exists_rereadBranches hkind
      rw [hinner] at hitem ⊢
      have hflat : [inner].flatten = inner := List.flatten_singleton
      show itemsMeaning limit [inner].flatten = meaning limit item
      rw [hflat, ← hitem, branchesMeaning_singleton]

/-- So do the branches of an alternation. -/
theorem meaning_rereadEach {branches : List Pattern}
    (h : ∀ branch ∈ branches, branchesMeaning limit (rereadBranches branch) = meaning limit branch) :
    branchesMeaning limit (rereadEach branches) = firstOf (branches.map (meaning limit)) := by
  induction branches with
  | nil => rfl
  | cons branch later ih =>
    have hbranch := h branch List.mem_cons_self
    have hlater := ih fun other hother => h other (List.mem_cons_of_mem branch hother)
    rw [rereadEach, branchesMeaning_append, hbranch, hlater]
    rfl

/-- A pattern means what the branches mean that it is read as. -/
theorem meaning_rereadBranches (p : Pattern) :
    branchesMeaning limit (rereadBranches p) = meaning limit p := by
  have halone : ∀ q : Pattern, branchesMeaning limit [[q]] = meaning limit q := by
    intro q
    rw [branchesMeaning_singleton]
    exact series_singleton (meaning limit q)
  induction p with
  | atom letter => exact halone _
  | any => exact halone _
  | nil => exact halone _
  | boundary => exact halone _
  | oneOf letters => exact halone _
  | sequence items ih =>
    rw [rereadBranches, branchesMeaning_singleton, meaning_rereadItems ih, meaning_sequence]
    rfl
  | alternation branches ih =>
    rw [rereadBranches, meaning_rereadEach ih, meaning_alternation]
  | repeated body times ih =>
    rw [← meaning_joined] at ih
    rw [rereadBranches, halone]
    exact meaning_repeated_congr (isNullable_reread body) ih times

theorem meaning_reread (p : Pattern) : meaning limit p.reread = meaning limit p := by
  rw [reread, meaning_joined, meaning_rereadBranches]

/-- Matching the reread pattern is matching the pattern, wherever a scan stands. -/
theorem attempt_reread (p : Pattern) : p.reread.attempt = p.attempt := by
  funext s
  show meaning _ p.reread s = meaning _ p s
  rw [meaning_reread]

/-! ## From text to text -/

/-- The text of a legible pattern is read as the reread pattern. -/
theorem parse_text {p : Pattern} (h : p.Legible) :
    (parse (Token.scan p.text).value).value = .ok p.reread := by
  have hderives := derives_tokens h
  have hspace := hderives.space_notMem
  have hscan : (Token.scan p.text).value = p.tokens := Token.scan_text hspace
  rw [hscan]
  apply parse_of_derives
  rw [nonBlank_eq_self hspace]
  exact hderives

/-- Whatever the reader accepts is legible, and a legible pattern is printed as a text that is read
    as a pattern with the same nullability and the same matches: these come out alike, leave the
    same scan behind and always come to an answer. -/
theorem parse_text_preserves_matching :
    (∀ tokens p, (parse tokens).value = .ok p → p.Legible) ∧
      ∀ p : Pattern, p.Legible → ∃ q, (parse (Token.scan p.text).value).value = .ok q ∧
        q.isNullable = p.isNullable ∧
        ∀ s : Scan Record, (q.attempt s).outcome = (p.attempt s).outcome ∧
          (q.attempt s).scan = (p.attempt s).scan ∧ (p.attempt s).Finished := by
  refine ⟨fun tokens p h => (derives_of_parse h).legible, fun p h => ?_⟩
  refine ⟨p.reread, parse_text h, isNullable_reread p, fun s => ?_⟩
  rw [attempt_reread]
  exact ⟨rfl, rfl, finished_attempt p s⟩

/-- A sequence in a sequence, with an alternation of one branch in it, is not read as it was. -/
theorem parse_text_preserves_matching_nested :
    let p : Pattern := .sequence [.sequence [.any, .alternation [.nil]], .oneOf [.b]]
    p.Legible ∧ p.text = ".(✖)[B]" ∧
      (parse (Token.scan p.text).value).value = .ok (.sequence [.any, .nil, .oneOf [.b]]) ∧
      ∀ s : Scan Record, (attempt (.sequence [.any, .nil, .oneOf [.b]]) s).outcome =
        (p.attempt s).outcome := by
  intro p
  have hlegible : p.Legible := by
    refine .sequence fun item hitem => ?_
    rcases List.mem_cons.mp hitem with rfl | hitem
    · refine .sequence fun inner hinner => ?_
      rcases List.mem_cons.mp hinner with rfl | hinner
      · exact .any
      · rw [List.mem_singleton.mp hinner]
        exact .alternation (by simp) fun branch hbranch => List.mem_singleton.mp hbranch ▸ .nil
    · rw [List.mem_singleton.mp hitem]
      exact .oneOf (by simp)
  have hread : (parse (Token.scan p.text).value).value = .ok (.sequence [.any, .nil, .oneOf [.b]]) :=
    parse_text hlegible
  obtain ⟨q, hq, -, hsame⟩ := parse_text_preserves_matching.2 p hlegible
  rw [hread] at hq
  cases hq
  exact ⟨hlegible, by decide, hread, fun s => (hsame s).1⟩

end Forward.Pattern
