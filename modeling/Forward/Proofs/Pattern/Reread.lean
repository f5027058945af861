/-
  Rereading: what a pattern becomes when its tokens are read again.

  The printer writes no parentheses around a sequence inside a sequence, nor around an alternation
  inside an alternation, and an empty sequence not at all.  So the reader does not find the nesting
  again.  It finds branches and, in each, items: `rereadBranches p` are the branches that the
  tokens of `p` are read as.  A sequence in a sequence gives its items to it, an alternation in an
  alternation its branches, and only an alternation in a sequence and the body of a repetition keep
  together, each as a single item.

  `Pattern.reread p` is the pattern made of these branches.  The tokens of `p` derive it
  (`derives_tokens`) if `p` is legible: no set of atoms in it is empty, because `[]` is not a
  phrase, and no alternation is, because nothing at all is read as an empty sequence.  Every
  phrase has a legible value (`Derives.legible`).
-/
import Forward.Proofs.Pattern.Derivation

namespace Forward.Pattern

open PatternRule (alternate)

/-! ## Branches and items -/

/-- The pattern for a list of branches, each given by its items. -/
def joined : List (List Pattern) → Pattern
  | [] => .alternation []
  | first :: later => alternate first later

mutual

/-- The branches that the tokens of a pattern are read as, each given by its items. -/
def rereadBranches : Pattern → List (List Pattern)
  | .atom letter => [[.atom letter]]
  | .any => [[.any]]
  | .nil => [[.nil]]
  | .boundary => [[.boundary]]
  | .oneOf letters => [[.oneOf letters]]
  | .sequence items => [rereadItems items]
  | .alternation branches => rereadEach branches
  | .repeated body times => [[.repeated (joined (rereadBranches body)) times]]

/-- The items that the items of a sequence are read as.  Only an alternation is kept together. -/
def rereadItems : List Pattern → List Pattern
  | [] => []
  | item :: later =>
    (if item.isAlternation then [joined (rereadBranches item)] else (rereadBranches item).flatten) ++
      rereadItems later

/-- The branches that the branches of an alternation are read as. -/
def rereadEach : List Pattern → List (List Pattern)
  | [] => []
  | branch :: later => rereadBranches branch ++ rereadEach later

end

/-- The pattern that the tokens of a pattern are read as. -/
def reread (p : Pattern) : Pattern := joined (rereadBranches p)

example : reread (.sequence [.sequence [.any], .sequence [], .alternation [.alternation [.nil]]]) =
    .sequence [.any, .nil] := by decide

/-- Every pattern but an alternation is read as a single branch. -/
theorem exists_rereadBranches {p : Pattern} (h : p.isAlternation = false) :
    ∃ items, rereadBranches p = [items] := by
  cases p with
  | alternation branches => cases h
  | _ => exact ⟨_, rfl⟩

/-! ## Legible patterns -/

/-- Can the pattern be read back from its tokens?  Sets of atoms and alternations must not be
    empty. -/
inductive Legible : Pattern → Prop where
  | atom (letter : Atom) : Legible (.atom letter)
  | any : Legible .any
  | nil : Legible .nil
  | boundary : Legible .boundary
  | oneOf {letters : List Atom} (inhabited : letters ≠ []) : Legible (.oneOf letters)
  | sequence {items : List Pattern} (all : ∀ item ∈ items, Legible item) :
      Legible (.sequence items)
  | alternation {branches : List Pattern} (inhabited : branches ≠ [])
      (all : ∀ branch ∈ branches, Legible branch) : Legible (.alternation branches)
  | repeated {body : Pattern} (times : Quantifier) (inside : Legible body) :
      Legible (.repeated body times)

/-- All patterns in the value of a phrase are legible. -/
def Category.Legible : (c : Category) → c.Value → Prop
  | .factor, p => p.Legible
  | .quantified, p => p.Legible
  | .items, ps => ∀ p ∈ ps, p.Legible
  | .branch, p => p.Legible
  | .branches, ps => ∀ p ∈ ps, p.Legible
  | .alternation, p => p.Legible

/-- What the grammar derives can be read back. -/
theorem Derives.legible {c : Category} {ts : List Token} {v : c.Value} (h : Derives c ts v) :
    c.Legible v := by
  induction h with
  | atom letter => exact .atom letter
  | any => exact .any
  | nil => exact .nil
  | boundary => exact .boundary
  | oneOf inhabited => exact .oneOf inhabited
  | group inside ih => exact ih
  | once body ih => exact ih
  | repeated times body ih => exact .repeated times ih
  | noItem => exact fun p hp => by cases hp
  | item first later ihFirst ihLater => exact List.forall_mem_cons.mpr ⟨ihFirst, ihLater⟩
  | single only ih => exact ih _ List.mem_cons_self
  | sequence all several ih => exact .sequence ih
  | noBranch => exact fun p hp => by cases hp
  | another next later ihNext ihLater => exact List.forall_mem_cons.mpr ⟨ihNext, ihLater⟩
  | plain only ih => exact ih
  | choice first later several ihFirst ihLater =>
    exact .alternation (by simp) (List.forall_mem_cons.mpr ⟨ihFirst, ihLater⟩)

/-! ## Phrases in a row -/

theorem Derives.append_items {ts us : List Token} {ps qs : List Pattern}
    (h : Derives .items ts ps) (k : Derives .items us qs) : Derives .items (ts ++ us) (ps ++ qs) := by
  induction ps generalizing ts with
  | nil =>
    cases h
    exact k
  | cons p ps ih =>
    cases h with
    | item first later =>
      rw [List.append_assoc]
      exact .item first (ih later)

theorem Derives.append_branches {ts us : List Token} {ps qs : List Pattern}
    (h : Derives .branches ts ps) (k : Derives .branches us qs) :
    Derives .branches (ts ++ us) (ps ++ qs) := by
  induction ps generalizing ts with
  | nil =>
    cases h
    exact k
  | cons p ps ih =>
    cases h with
    | @another vs ws _ _ next later =>
      have hrest := Derives.another next (ih later)
      rw [← List.append_assoc] at hrest
      exact hrest

/-- The tokens are those of a first branch and of further ones, with these items. -/
inductive Branching : List Token → List (List Pattern) → Prop where
  | intro {ts us : List Token} {first : List Pattern} {later : List (List Pattern)}
      (head : Derives .items ts first) (tail : Derives .branches us (later.map ofItems)) :
      Branching (ts ++ us) (first :: later)

/-- A single branch. -/
theorem Derives.branching {ts : List Token} {items : List Pattern} (h : Derives .items ts items) :
    Branching ts [items] := by
  have hnone : Derives .branches [] (([] : List (List Pattern)).map Pattern.ofItems) := .noBranch
  have hone := Branching.intro h hnone
  rwa [List.append_nil] at hone

/-- A single item. -/
theorem Derives.alone {ts : List Token} {p : Pattern} (h : Derives .quantified ts p) :
    Branching ts [[p]] := by
  have hitem := Derives.item h .noItem
  rw [List.append_nil] at hitem
  exact hitem.branching

theorem Branching.items {ts : List Token} {items : List Pattern} (h : Branching ts [items]) :
    Derives .items ts items := by
  cases h with
  | intro head tail =>
    cases tail
    rwa [List.append_nil]

/-- Branches in a row are the pattern that joins them. -/
theorem Branching.alternation {ts : List Token} {bss : List (List Pattern)}
    (h : Branching ts bss) : Derives .alternation ts (joined bss) := by
  cases h with
  | intro head tail => exact head.alternate tail

/-- Behind a bar all branches are further ones. -/
theorem Branching.branches {ts : List Token} {bss : List (List Pattern)} (h : Branching ts bss) :
    Derives .branches (.pipe :: ts) (bss.map ofItems) := by
  cases h with
  | intro head tail => exact .another head.ofItems tail

theorem Branching.append {ts us : List Token} {bss css : List (List Pattern)}
    (h : Branching ts bss) (k : Derives .branches us (css.map ofItems)) :
    Branching (ts ++ us) (bss ++ css) := by
  cases h with
  | @intro vs ws first later head tail =>
    have hlater := tail.append_branches k
    rw [← List.map_append] at hlater
    rw [List.append_assoc]
    exact .intro head hlater

/-! ## The tokens of a pattern -/

/-- The items of a sequence are read as items, if each of them is read as branches. -/
theorem derives_itemTokens {items : List Pattern}
    (h : ∀ item ∈ items, Branching item.tokens (rereadBranches item)) :
    Derives .items (itemTokens items) (rereadItems items) := by
  induction items with
  | nil => exact .noItem
  | cons item later ih =>
    have hitem := h item List.mem_cons_self
    have hlater := ih fun other hother => h other (List.mem_cons_of_mem item hother)
    rw [itemTokens, rereadItems]
    cases hkind : item.isAlternation with
    | true =>
      -- the printer has put parentheses around the alternation
      exact .item (.once (.group hitem.alternation)) hlater
    | false =>
      -- it is a single branch, and its items stand among those of the sequence
      obtain ⟨inner, hinner⟩ := exists_rereadBranches hkind
      rw [hinner] at hitem ⊢
      have hflat : [inner].flatten = inner := List.flatten_singleton
      show Derives .items (item.tokens ++ itemTokens later) ([inner].flatten ++ rereadItems later)
      rw [hflat]
      exact hitem.items.append_items hlater

/-- Later branches are read as further branches, if each of them is read as branches. -/
theorem derives_laterBranchTokens {branches : List Pattern}
    (h : ∀ branch ∈ branches, Branching branch.tokens (rereadBranches branch)) :
    Derives .branches (laterBranchTokens branches) ((rereadEach branches).map ofItems) := by
  induction branches with
  | nil => exact .noBranch
  | cons branch later ih =>
    have hbranch := h branch List.mem_cons_self
    have hlater := ih fun other hother => h other (List.mem_cons_of_mem branch hother)
    rw [laterBranchTokens, rereadEach, List.map_append]
    exact hbranch.branches.append_branches hlater

/-- A body that is not made of parts is a factor, and in parentheses every body is one. -/
theorem derives_bodyTokens {body : Pattern} (legible : body.Legible)
    (h : Branching body.tokens (rereadBranches body)) :
    Derives .factor (enclosedIf body.isComposite body.tokens) body.reread := by
  cases legible with
  | atom letter => exact .atom letter
  | any => exact .any
  | nil => exact .nil
  | boundary => exact .boundary
  | oneOf inhabited => exact .oneOf inhabited
  | sequence all => exact .group h.alternation
  | alternation inhabited all => exact .group h.alternation
  | repeated times inside => exact .group h.alternation

/-- The tokens of a legible pattern are read as its branches. -/
theorem Legible.branching {p : Pattern} (h : p.Legible) :
    Branching p.tokens (rereadBranches p) := by
  induction h with
  | atom letter => exact (Derives.once (.atom letter)).alone
  | any => exact (Derives.once .any).alone
  | nil => exact (Derives.once .nil).alone
  | boundary => exact (Derives.once .boundary).alone
  | oneOf inhabited => exact (Derives.once (.oneOf inhabited)).alone
  | sequence all ih => exact (derives_itemTokens ih).branching
  | @alternation branches inhabited all ih =>
    obtain ⟨branch, later, rfl⟩ := List.exists_cons_of_ne_nil inhabited
    obtain ⟨hbranch, hlater⟩ := List.forall_mem_cons.mp ih
    rw [tokens, branchTokens, rereadBranches, rereadEach]
    exact hbranch.append (derives_laterBranchTokens hlater)
  | @repeated body times inside ih =>
    have hfactor := derives_bodyTokens inside ih
    exact (Derives.repeated times hfactor).alone

/-- The tokens of a legible pattern derive the reread pattern. -/
theorem derives_tokens {p : Pattern} (h : p.Legible) : Derives .alternation p.tokens p.reread :=
  h.branching.alternation

end Forward.Pattern
