/-
  Canonical patterns: those that come back unchanged when they are printed and read again.

  A pattern is canonical if the nesting in it is the nesting that the reader finds: no sequence is
  an item of a sequence or has one item only, and no alternation is a branch of an alternation or
  has less than two branches.  Such a pattern is what its tokens are read as
  (`reread_of_canonical`).

  The converse is a matter of size.  Reading back drops every node that left no mark in the tokens,
  and adds none: what is read has at most as many nodes as the pattern, and exactly as many only if
  the pattern was canonical (`size_reread`).  So a pattern that comes back as it was is canonical.
-/
import Forward.Proofs.Pattern.RoundTrip

namespace Forward.Pattern

/-! ## Canonical patterns -/

/-- Is the pattern a sequence? -/
def isSequence : Pattern → Bool
  | .sequence _ => true
  | _ => false

/-- Is the nesting of the pattern the one that its tokens show? -/
inductive Canonical : Pattern → Prop where
  | atom (letter : Atom) : Canonical (.atom letter)
  | any : Canonical .any
  | nil : Canonical .nil
  | boundary : Canonical .boundary
  | oneOf {letters : List Atom} (inhabited : letters ≠ []) : Canonical (.oneOf letters)
  | sequence {items : List Pattern} (several : items.length = 0 ∨ 2 ≤ items.length)
      (flat : ∀ item ∈ items, item.isSequence = false) (all : ∀ item ∈ items, Canonical item) :
      Canonical (.sequence items)
  | alternation {branches : List Pattern} (several : 2 ≤ branches.length)
      (flat : ∀ branch ∈ branches, branch.isAlternation = false)
      (all : ∀ branch ∈ branches, Canonical branch) : Canonical (.alternation branches)
  | repeated {body : Pattern} (times : Quantifier) (inside : Canonical body) :
      Canonical (.repeated body times)

theorem Canonical.legible {p : Pattern} (h : p.Canonical) : p.Legible := by
  induction h with
  | atom letter => exact .atom letter
  | any => exact .any
  | nil => exact .nil
  | boundary => exact .boundary
  | oneOf inhabited => exact .oneOf inhabited
  | sequence several flat all ih => exact .sequence ih
  | alternation several flat all ih =>
    refine .alternation ?_ ih
    rintro rfl
    exact absurd several (by decide)
  | repeated times inside ih => exact .repeated times ih

/-! ## Canonical patterns are read as they are -/

/-- The items of a pattern that is a branch. -/
def itemsOf : Pattern → List Pattern
  | .sequence items => items
  | p => [p]

/-- The branches of a pattern, each given by its items. -/
def branchesOf : Pattern → List (List Pattern)
  | .alternation branches => branches.map itemsOf
  | p => [itemsOf p]

theorem branchesOf_of_not_alternation {p : Pattern} (h : p.isAlternation = false) :
    branchesOf p = [itemsOf p] := by
  cases p with
  | alternation branches => cases h
  | _ => rfl

theorem ofItems_of_length {items : List Pattern} (h : items.length ≠ 1) :
    ofItems items = .sequence items := by
  rcases items with _ | ⟨item, _ | ⟨next, later⟩⟩
  · rfl
  · exact absurd rfl h
  · rfl

/-- Two branches or more are not taken apart. -/
theorem joined_of_several {bss : List (List Pattern)} (several : 2 ≤ bss.length) :
    joined bss = .alternation (bss.map ofItems) := by
  rcases bss with _ | ⟨first, _ | ⟨next, later⟩⟩
  · exact absurd several (Nat.not_succ_le_zero 1)
  · exact absurd several (Nat.not_succ_le_self 1)
  · rfl

theorem ofItems_itemsOf {p : Pattern} (h : p.Canonical) : ofItems (itemsOf p) = p := by
  cases h with
  | @sequence items several flat all =>
    have hlength : items.length ≠ 1 := by omega
    exact ofItems_of_length hlength
  | _ => rfl

/-- The branches of a canonical pattern make this pattern. -/
theorem joined_branchesOf {p : Pattern} (h : p.Canonical) : joined (branchesOf p) = p := by
  cases hkind : p.isAlternation with
  | false =>
    rw [branchesOf_of_not_alternation hkind]
    exact ofItems_itemsOf h
  | true =>
    cases h with
    | @alternation branches several flat all =>
      -- each branch is made of its items again
      have hitems : (branches.map itemsOf).map ofItems = branches := by
        have hsame : branches.map (ofItems ∘ itemsOf) = branches.map id :=
          List.map_congr_left fun branch hbranch => ofItems_itemsOf (all branch hbranch)
        rw [List.map_map, hsame, List.map_id]
      have hseveral : 2 ≤ (branches.map itemsOf).length := by
        rw [List.length_map]
        exact several
      rw [branchesOf, joined_of_several hseveral, hitems]
    | _ => cases hkind

/-- With no sequence among them, the items of a sequence are read one by one. -/
theorem rereadItems_of_flat {items : List Pattern}
    (flat : ∀ item ∈ items, item.isSequence = false) : rereadItems items = items.map reread := by
  induction items with
  | nil => rfl
  | cons item later ih =>
    obtain ⟨hflat, hlater⟩ := List.forall_mem_cons.mp flat
    rw [rereadItems, ih hlater]
    cases item with
    | sequence items => cases hflat
    | _ => rfl

/-- The items of a sequence are read as they are, if each of them is read as its branches and none
    of them is a sequence. -/
theorem rereadItems_eq {items : List Pattern} (flat : ∀ item ∈ items, item.isSequence = false)
    (canonical : ∀ item ∈ items, item.Canonical)
    (h : ∀ item ∈ items, rereadBranches item = branchesOf item) : rereadItems items = items := by
  have hsame : items.map reread = items.map id := by
    refine List.map_congr_left fun item hitem => ?_
    rw [reread, h item hitem, joined_branchesOf (canonical item hitem)]
    rfl
  rw [rereadItems_of_flat flat, hsame, List.map_id]

/-- The branches of an alternation are read one by one, if each of them is read as its branches and
    none of them is an alternation. -/
theorem rereadEach_eq {branches : List Pattern}
    (flat : ∀ branch ∈ branches, branch.isAlternation = false)
    (h : ∀ branch ∈ branches, rereadBranches branch = branchesOf branch) :
    rereadEach branches = branches.map itemsOf := by
  induction branches with
  | nil => rfl
  | cons branch later ih =>
    obtain ⟨hflat, hflats⟩ := List.forall_mem_cons.mp flat
    obtain ⟨hbranch, hbranches⟩ := List.forall_mem_cons.mp h
    rw [rereadEach, ih hflats hbranches, hbranch, branchesOf_of_not_alternation hflat]
    rfl

theorem rereadBranches_of_canonical {p : Pattern} (h : p.Canonical) :
    rereadBranches p = branchesOf p := by
  induction h with
  | sequence several flat all ih =>
    rw [rereadBranches, rereadItems_eq flat all ih]
    rfl
  | alternation several flat all ih => exact rereadEach_eq flat ih
  | repeated times inside ih =>
    rw [rereadBranches, ih, joined_branchesOf inside]
    rfl
  | _ => rfl

/-- A canonical pattern is what its tokens are read as. -/
theorem reread_of_canonical {p : Pattern} (h : p.Canonical) : p.reread = p := by
  rw [reread, rereadBranches_of_canonical h, joined_branchesOf h]

/-! ## Sizes -/

mutual

/-- How many nodes a pattern has. -/
def size : Pattern → Nat
  | .atom _ => 1
  | .any => 1
  | .nil => 1
  | .boundary => 1
  | .oneOf _ => 1
  | .sequence items => sizeAll items + 1
  | .alternation branches => sizeAll branches + 1
  | .repeated body _ => size body + 1

/-- How many nodes the patterns of a list have. -/
def sizeAll : List Pattern → Nat
  | [] => 0
  | p :: ps => size p + sizeAll ps

end

theorem sizeAll_append (ps qs : List Pattern) : sizeAll (ps ++ qs) = sizeAll ps + sizeAll qs := by
  induction ps with
  | nil => exact (Nat.zero_add _).symm
  | cons p ps ih => rw [List.cons_append, sizeAll, sizeAll, ih, Nat.add_assoc]

/-- A sequence is one node more than its items, unless it is a single item. -/
theorem size_ofItems (items : List Pattern) :
    size (ofItems items) = sizeAll items + if items.length = 1 then 0 else 1 := by
  rcases items with _ | ⟨item, _ | ⟨next, later⟩⟩
  · rfl
  · rfl
  · have hlength : (item :: next :: later).length ≠ 1 := by simp
    rw [if_neg hlength]
    rfl

/-- How many nodes the branches have that are given by these items. -/
def weight (bss : List (List Pattern)) : Nat := sizeAll (bss.map ofItems)

theorem weight_append (bss css : List (List Pattern)) :
    weight (bss ++ css) = weight bss + weight css := by
  rw [weight, List.map_append, sizeAll_append]
  rfl

/-- An alternation is one node more than its branches, unless it is a single branch. -/
theorem size_joined (bss : List (List Pattern)) :
    size (joined bss) = weight bss + if bss.length = 1 then 0 else 1 := by
  rcases bss with _ | ⟨first, _ | ⟨next, later⟩⟩
  · rfl
  · rfl
  · have hlength : (first :: next :: later).length ≠ 1 := by simp
    rw [if_neg hlength]
    rfl

/-! ## What is read back is not larger -/

/-- Reading the pattern back does not make it larger, and makes it smaller if it is not
    canonical. -/
structure Shrinks (p : Pattern) : Prop where
  le : size p.reread ≤ size p
  canonical : size p.reread = size p → p.Canonical

/-- If the patterns of a list are read one after the other and what is read from each of them is not
    larger than it is, then the whole is not larger than the list, and as large only if nothing
    smaller was read from any of them. -/
theorem le_sizeAll (measure : List Pattern → Nat) (fits : Pattern → Prop) {ps : List Pattern}
    (nil : measure [] = 0)
    (cons : ∀ p ∈ ps, ∃ n, (∀ later, measure (p :: later) = n + measure later) ∧ n ≤ size p ∧
      (n = size p → fits p)) :
    measure ps ≤ sizeAll ps ∧ (measure ps = sizeAll ps → ∀ p ∈ ps, fits p) := by
  induction ps with
  | nil => exact ⟨Nat.le_of_eq nil, fun _ p hp => by cases hp⟩
  | cons p later ih =>
    obtain ⟨⟨n, hread, hle, hfits⟩, hlater⟩ := List.forall_mem_cons.mp cons
    obtain ⟨hlaterle, hlaterfits⟩ := ih hlater
    have hmeasure := hread later
    have hsize : sizeAll (p :: later) = size p + sizeAll later := rfl
    constructor
    · omega
    · intro hsame
      exact List.forall_mem_cons.mpr ⟨hfits (by omega), hlaterfits (by omega)⟩

/-- What is read from an item has at most as many nodes, and less if it is no canonical item of a
    sequence. -/
theorem Shrinks.item {item : Pattern} (h : Shrinks item) :
    ∃ n, (∀ later, sizeAll (rereadItems (item :: later)) = n + sizeAll (rereadItems later)) ∧
      n ≤ size item ∧ (n = size item → item.Canonical ∧ item.isSequence = false) := by
  have hle := h.le
  cases hkind : item.isAlternation with
  | true =>
    have hflat : item.isSequence = false := by
      cases item with
      | alternation branches => rfl
      | _ => cases hkind
    refine ⟨size item.reread, ?_, hle, fun hsame => ⟨h.canonical hsame, hflat⟩⟩
    intro later
    rw [rereadItems, hkind]
    rfl
  | false =>
    obtain ⟨inner, hinner⟩ := exists_rereadBranches hkind
    have hread : item.reread = ofItems inner := by
      rw [reread, hinner]
      rfl
    have hsize := size_ofItems inner
    rw [← hread] at hsize
    refine ⟨sizeAll inner, ?_, by omega, ?_⟩
    · intro later
      rw [rereadItems, hkind, hinner]
      show sizeAll ([inner].flatten ++ rereadItems later) = _
      rw [List.flatten_singleton, sizeAll_append]
    · intro hsame
      -- with nothing lost the item is canonical and was read as a single item
      have hcanonical : item.Canonical := h.canonical (by omega)
      have hlength : inner.length = 1 := by
        split at hsize
        · next hone => exact hone
        · omega
      refine ⟨hcanonical, ?_⟩
      cases hcanonical with
      | @sequence items several flat all =>
        have hitems : [inner] = [items] := by
          rw [← hinner, rereadBranches_of_canonical (.sequence several flat all)]
          rfl
        obtain rfl := List.singleton_inj.mp hitems
        omega
      | _ => rfl

/-- What is read from a branch has at most as many nodes, and less if it is no canonical branch of
    an alternation. -/
theorem Shrinks.branch {branch : Pattern} (h : Shrinks branch) :
    ∃ n, (∀ later, weight (rereadEach (branch :: later)) = n + weight (rereadEach later)) ∧
      n ≤ size branch ∧ (n = size branch → branch.Canonical ∧ branch.isAlternation = false) := by
  have hle := h.le
  have hsize : size branch.reread = _ := size_joined (rereadBranches branch)
  refine ⟨weight (rereadBranches branch), fun later => weight_append _ _, by omega, ?_⟩
  intro hsame
  have hcanonical : branch.Canonical := h.canonical (by omega)
  have hlength : (rereadBranches branch).length = 1 := by
    split at hsize
    · next hone => exact hone
    · omega
  refine ⟨hcanonical, ?_⟩
  cases hcanonical with
  | @alternation branches several flat all =>
    rw [rereadBranches_of_canonical (.alternation several flat all)] at hlength
    have hmap : (branches.map itemsOf).length = 1 := hlength
    rw [List.length_map] at hmap
    omega
  | _ => rfl

/-- Reading a legible pattern back makes it smaller, or leaves it as it was because it is
    canonical. -/
theorem size_reread {p : Pattern} (h : p.Legible) : Shrinks p := by
  induction h with
  | atom letter => exact ⟨Nat.le_refl _, fun _ => .atom letter⟩
  | any => exact ⟨Nat.le_refl _, fun _ => .any⟩
  | nil => exact ⟨Nat.le_refl _, fun _ => .nil⟩
  | boundary => exact ⟨Nat.le_refl _, fun _ => .boundary⟩
  | oneOf inhabited => exact ⟨Nat.le_refl _, fun _ => .oneOf inhabited⟩
  | @sequence items all ih =>
    obtain ⟨hle, hfits⟩ := le_sizeAll (fun ps => sizeAll (rereadItems ps))
      (fun p => p.Canonical ∧ p.isSequence = false) rfl fun item hitem => (ih item hitem).item
    have hread : size (reread (.sequence items)) = _ := size_ofItems (rereadItems items)
    have hwhole : size (.sequence items) = sizeAll items + 1 := rfl
    constructor
    · split at hread <;> omega
    · intro hsame
      have hlength : (rereadItems items).length ≠ 1 := by
        intro hone
        rw [if_pos hone] at hread
        omega
      rw [if_neg hlength] at hread
      have hitems := hfits (by omega)
      have hflat : ∀ item ∈ items, item.isSequence = false := fun item hitem => (hitems item hitem).2
      have hall : ∀ item ∈ items, item.Canonical := fun item hitem => (hitems item hitem).1
      -- nothing was lost, so the items were read as they are, and there is not one only
      rw [rereadItems_eq hflat hall fun item hitem => rereadBranches_of_canonical (hall item hitem)]
        at hlength
      exact .sequence (by omega) hflat hall
  | @alternation branches inhabited all ih =>
    obtain ⟨hle, hfits⟩ := le_sizeAll (fun ps => weight (rereadEach ps))
      (fun p => p.Canonical ∧ p.isAlternation = false) rfl
      fun branch hbranch => (ih branch hbranch).branch
    have hread : size (reread (.alternation branches)) = _ := size_joined (rereadEach branches)
    have hwhole : size (.alternation branches) = sizeAll branches + 1 := rfl
    constructor
    · split at hread <;> omega
    · intro hsame
      have hlength : (rereadEach branches).length ≠ 1 := by
        intro hone
        rw [if_pos hone] at hread
        omega
      rw [if_neg hlength] at hread
      have hbranches := hfits (by omega)
      have hflat : ∀ branch ∈ branches, branch.isAlternation = false :=
        fun branch hbranch => (hbranches branch hbranch).2
      have hall : ∀ branch ∈ branches, branch.Canonical :=
        fun branch hbranch => (hbranches branch hbranch).1
      rw [rereadEach_eq hflat fun branch hbranch => rereadBranches_of_canonical (hall branch hbranch),
        List.length_map] at hlength
      have hpos := List.length_pos_iff.mpr inhabited
      exact .alternation (by omega) hflat hall
  | @repeated body times inside ih =>
    have hread : size (reread (.repeated body times)) = size body.reread + 1 := rfl
    have hwhole : size (.repeated body times) = size body + 1 := rfl
    have hle := ih.le
    constructor
    · omega
    · intro hsame
      exact .repeated times (ih.canonical (by omega))

/-- A legible pattern that is read as it was is canonical. -/
theorem canonical_of_reread {p : Pattern} (legible : p.Legible) (h : p.reread = p) :
    p.Canonical :=
  (size_reread legible).canonical (congrArg size h)

/-! ## From text to text -/

/-- The text of a pattern is read as that pattern exactly if it is canonical; so two canonical
    patterns with the same text are the same. -/
theorem parse_text_eq_ok_iff_canonical :
    (∀ p : Pattern, (parse (Token.scan p.text).value).value = .ok p ↔ p.Canonical) ∧
      ∀ p q : Pattern, p.Canonical → q.Canonical → p.text = q.text → p = q := by
  have hread : ∀ {p : Pattern}, p.Canonical → (parse (Token.scan p.text).value).value = .ok p := by
    intro p h
    rw [parse_text h.legible, reread_of_canonical h]
  constructor
  · intro p
    constructor
    · intro h
      have hlegible : p.Legible := (derives_of_parse h).legible
      have hsame := (parse_text hlegible).symm.trans h
      exact canonical_of_reread hlegible (Except.ok.inj hsame)
    · exact hread
  · intro p q hp hq htext
    have hq' := hread hq
    rw [← htext] at hq'
    exact Except.ok.inj ((hread hp).symm.trans hq')

/-- `(|.)*W` is read as it is, and a sequence of one record is not. -/
theorem parse_text_eq_ok_iff_canonical_choice :
    let p : Pattern :=
      .sequence [.repeated (.alternation [.sequence [], .any]) .zeroOrMore, .atom .w]
    let q : Pattern := .sequence [.any]
    p.Canonical ∧ (parse (Token.scan p.text).value).value = .ok p ∧ ¬ q.Canonical ∧
      (parse (Token.scan q.text).value).value ≠ .ok q := by
  intro p q
  have hempty : Canonical (.sequence []) :=
    .sequence (Or.inl rfl) (List.forall_mem_nil _) (List.forall_mem_nil _)
  have hchoice : Canonical (.alternation [.sequence [], .any]) := by
    apply Canonical.alternation
    · decide
    · exact List.forall_mem_cons.mpr ⟨rfl, List.forall_mem_singleton.mpr rfl⟩
    · exact List.forall_mem_cons.mpr ⟨hempty, List.forall_mem_singleton.mpr .any⟩
  have hp : p.Canonical := by
    apply Canonical.sequence
    · exact Or.inr (Nat.le_refl 2)
    · exact List.forall_mem_cons.mpr ⟨rfl, List.forall_mem_singleton.mpr rfl⟩
    · exact List.forall_mem_cons.mpr
        ⟨.repeated .zeroOrMore hchoice, List.forall_mem_singleton.mpr (.atom .w)⟩
  have hq : ¬ Canonical (.sequence [.any]) := by
    intro h
    cases h with
    | sequence several flat all => exact absurd several (by decide)
  obtain ⟨hiff, -⟩ := parse_text_eq_ok_iff_canonical
  exact ⟨hp, (hiff p).mpr hp, hq, fun hparse => hq ((hiff q).mp hparse)⟩

end Forward.Pattern
