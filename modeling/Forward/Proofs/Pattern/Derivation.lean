/-
  The grammar of patterns as a relation: which lists of tokens are a phrase, and of what.

      alternation := branch ('|' branch)*
      branch      := quantified*
      quantified  := factor ('+' | '*' | '?')?
      factor      := atom | '.' | '✖' | 'x' | '[' atom+ ']' | '(' alternation ')'

  `Derives c ts v` says that the tokens `ts` are a phrase of the category `c` with the value `v`.
  Nothing in it looks ahead or decides in which order to try what: each constructor is one way to
  put a phrase together, and says what the value is made of.  Parentheses leave no mark, a branch
  of one item is that item, and an alternation of one branch is that branch.

  The lemmas say how phrases begin (`Derives.head_factor` and its companions), and that the
  values are put together as the reader of patterns does it (`Derives.ofItems`,
  `Derives.alternate`).
-/
import Forward.Pattern.Grammar

namespace Forward.Pattern

open PatternRule (startsFactor quantifier? alternate)

/-- The categories of phrases. -/
inductive Category where
  | factor
  | quantified
  /-- The items of a branch. -/
  | items
  | branch
  /-- The branches behind the first one, each with a bar before it. -/
  | branches
  | alternation

/-- What the phrases of a category have as their values. -/
abbrev Category.Value : Category → Type
  | .factor => Pattern
  | .quantified => Pattern
  | .items => List Pattern
  | .branch => Pattern
  | .branches => List Pattern
  | .alternation => Pattern

/-- Which tokens are a phrase, and what its value is. -/
inductive Derives : (c : Category) → List Token → c.Value → Prop where
  | atom (letter : Atom) : Derives .factor [.atom letter] (.atom letter)
  | any : Derives .factor [.dot] .any
  | nil : Derives .factor [.cross] .nil
  | boundary : Derives .factor [.peek] .boundary
  | oneOf {letters : List Atom} (inhabited : letters ≠ []) :
      Derives .factor (.leftSquare :: letters.map .atom ++ [.rightSquare]) (.oneOf letters)
  | group {ts : List Token} {p : Pattern} (inside : Derives .alternation ts p) :
      Derives .factor (.leftParen :: ts ++ [.rightParen]) p
  | once {ts : List Token} {p : Pattern} (body : Derives .factor ts p) : Derives .quantified ts p
  | repeated {ts : List Token} {p : Pattern} (times : Quantifier) (body : Derives .factor ts p) :
      Derives .quantified (ts ++ [times.token]) (.repeated p times)
  | noItem : Derives .items [] []
  | item {ts us : List Token} {p : Pattern} {ps : List Pattern} (first : Derives .quantified ts p)
      (later : Derives .items us ps) : Derives .items (ts ++ us) (p :: ps)
  | single {ts : List Token} {p : Pattern} (only : Derives .items ts [p]) : Derives .branch ts p
  | sequence {ts : List Token} {ps : List Pattern} (all : Derives .items ts ps)
      (several : ps.length ≠ 1) : Derives .branch ts (.sequence ps)
  | noBranch : Derives .branches [] []
  | another {ts us : List Token} {p : Pattern} {ps : List Pattern} (next : Derives .branch ts p)
      (later : Derives .branches us ps) : Derives .branches (.pipe :: ts ++ us) (p :: ps)
  | plain {ts : List Token} {p : Pattern} (only : Derives .branch ts p) : Derives .alternation ts p
  | choice {ts us : List Token} {p : Pattern} {ps : List Pattern} (first : Derives .branch ts p)
      (later : Derives .branches us ps) (several : ps ≠ []) :
      Derives .alternation (ts ++ us) (.alternation (p :: ps))

/-! ## Putting values together -/

/-- The items of a branch make a branch. -/
theorem Derives.ofItems {ts : List Token} {ps : List Pattern} (h : Derives .items ts ps) :
    Derives .branch ts (ofItems ps) := by
  rcases ps with _ | ⟨p, _ | ⟨q, ps⟩⟩
  · exact .sequence h (by simp)
  · exact .single h
  · exact .sequence h (by simp)

/-- A first branch and further ones make an alternation. -/
theorem Derives.alternate {ts us : List Token} {first : List Pattern} {later : List (List Pattern)}
    (h : Derives .items ts first) (k : Derives .branches us (later.map Pattern.ofItems)) :
    Derives .alternation (ts ++ us) (alternate first later) := by
  cases later with
  | nil =>
    cases k
    rw [List.append_nil]
    exact .plain h.ofItems
  | cons next more => exact .choice h.ofItems k (by simp)

/-! ## How phrases begin

  Every factor begins with a token that begins nothing else, so one token of lookahead tells
  whether another item, a quantifier or another branch follows. -/

theorem startsFactor_letter (letter : Atom) : startsFactor (some (.atom letter)) = true := by
  cases letter <;> rfl

theorem Derives.head_factor {ts : List Token} {p : Pattern} (h : Derives .factor ts p) :
    startsFactor ts.head? = true := by
  cases h with
  | atom letter => exact startsFactor_letter letter
  | _ => rfl

theorem Derives.ne_nil_of_factor {ts : List Token} {p : Pattern} (h : Derives .factor ts p) :
    ts ≠ [] := by
  rintro rfl
  exact absurd h.head_factor (by decide)

theorem Derives.head_quantified {ts : List Token} {p : Pattern} (h : Derives .quantified ts p) :
    startsFactor ts.head? = true := by
  cases h with
  | once body => exact body.head_factor
  | @repeated us p times body =>
    obtain ⟨t, us, rfl⟩ := List.exists_cons_of_ne_nil body.ne_nil_of_factor
    exact body.head_factor

theorem Derives.ne_nil_of_quantified {ts : List Token} {p : Pattern}
    (h : Derives .quantified ts p) : ts ≠ [] := by
  rintro rfl
  exact absurd h.head_quantified (by decide)

/-- Items begin with a factor, if there are any. -/
theorem Derives.head_items {ts : List Token} {ps : List Pattern} (h : Derives .items ts ps) :
    ts = [] ∨ startsFactor ts.head? = true := by
  cases h with
  | noItem => exact Or.inl rfl
  | @item us vs p ps first later =>
    obtain ⟨t, us, rfl⟩ := List.exists_cons_of_ne_nil first.ne_nil_of_quantified
    exact Or.inr first.head_quantified

/-- Further branches begin with a bar, if there are any. -/
theorem Derives.head_branches {ts : List Token} {ps : List Pattern} (h : Derives .branches ts ps) :
    ts = [] ∨ ts.head? = some .pipe := by
  cases h with
  | noBranch => exact Or.inl rfl
  | another next later => exact Or.inr rfl

end Forward.Pattern
