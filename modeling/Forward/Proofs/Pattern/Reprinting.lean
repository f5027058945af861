/-
  Reprinting: what becomes of a pattern that is printed and read again, over and over.

  The printer leaves out what has no meaning, and so one round may make room for another one.
  `()(B|W)|H` is read with a sequence around the group, and printed as `(B|W)|H`.  Read again, the
  group is a branch by itself, and is printed without its parentheses.

  There it ends.  The reader never makes a sequence of one item or an alternation of one branch, so
  that what it gives is `Collapsed`.  Of the text of such a pattern it makes no sequence inside a
  sequence either: what is read again is `Settled` (`Collapsed.settled_reread`).  All that can be
  left over in a settled pattern is an alternation among the branches of another one.  The reader
  does not find these again, and the text does not show them (`Settled.unchanged`).  So the second
  text is printed again from then on, and read as the same pattern each time.
-/
import Forward.Proofs.Pattern.Blanks
import Forward.Proofs.Pattern.Canonical

namespace Forward

/-! ## Reading what was printed -/

/-- The text of tokens without a blank is cut into these tokens, one character each. -/
theorem Token.cut_symbols {ts : List Token} (h : Token.space ∉ ts) (n : Nat) :
    Cut n (ts.filterMap symbol) (oneEach n ts) [] := by
  induction ts generalizing n with
  | nil => exact .trailing (List.forall_mem_nil _)
  | cons t ts ih =>
    obtain ⟨c, hc⟩ := exists_symbol (List.ne_of_not_mem_cons h).symm
    have hlater := ih (List.not_mem_of_not_mem_cons h) (n + 1)
    rw [List.filterMap_cons_some hc]
    exact .symbol hc hlater

namespace Pattern

/-- The text of a legible pattern is read as the reread pattern. -/
theorem read_text {p : Pattern} (h : p.Legible) : (read p.text).value = .ok p.reread := by
  have hderives := derives_tokens h
  have hspace := hderives.space_notMem
  have hcut := Token.cut_symbols hspace 0
  rw [← String.toList_ofList (l := p.tokens.filterMap Token.symbol)] at hcut
  have hread := value_read_of_ok (hcut.scanAll.1 rfl)
  rw [Token.map_fst_oneEach, parse_of_derives (by rw [nonBlank_eq_self hspace]; exact hderives)]
    at hread
  exact hread

/-- What is read from a text is the value of a phrase. -/
theorem exists_derives_of_read {source : String} {p : Pattern} (h : (read source).value = .ok p) :
    ∃ ts, Derives .alternation ts p := by
  cases hscan : (Token.scanAll source).value with
  | error e =>
    rw [value_read_of_error hscan] at h
    cases h
  | ok ts =>
    rw [value_read_of_ok hscan] at h
    cases hparse : (parse (ts.map Prod.fst)).value with
    | error e => rw [hparse] at h; cases h
    | ok q =>
      rw [hparse] at h
      obtain rfl : q = p := Except.ok.inj h
      exact ⟨_, derives_of_parse hparse⟩

/-! ## What is read from tokens -/

/-- Is the pattern one that the reader can give?  There is no sequence of one item in it, no
    alternation of less than two branches and no empty set of atoms. -/
inductive Collapsed : Pattern → Prop where
  | atom (letter : Atom) : Collapsed (.atom letter)
  | any : Collapsed .any
  | nil : Collapsed .nil
  | boundary : Collapsed .boundary
  | oneOf {letters : List Atom} (inhabited : letters ≠ []) : Collapsed (.oneOf letters)
  | sequence {items : List Pattern} (several : items.length ≠ 1)
      (all : ∀ item ∈ items, Collapsed item) : Collapsed (.sequence items)
  | alternation {branches : List Pattern} (several : 2 ≤ branches.length)
      (all : ∀ branch ∈ branches, Collapsed branch) : Collapsed (.alternation branches)
  | repeated {body : Pattern} (times : Quantifier) (inside : Collapsed body) :
      Collapsed (.repeated body times)

/-- All patterns in the value of a phrase are collapsed. -/
def Category.Collapsed : (c : Category) → c.Value → Prop
  | .factor, p => p.Collapsed
  | .quantified, p => p.Collapsed
  | .items, ps => ∀ p ∈ ps, p.Collapsed
  | .branch, p => p.Collapsed
  | .branches, ps => ∀ p ∈ ps, p.Collapsed
  | .alternation, p => p.Collapsed

/-- What the grammar derives is collapsed. -/
theorem Derives.collapsed {c : Category} {ts : List Token} {v : c.Value} (h : Derives c ts v) :
    c.Collapsed v := by
  induction h with
  | atom letter => exact .atom letter
  | any => exact .any
  | nil => exact .nil
  | boundary => exact .boundary
  | oneOf inhabited => exact .oneOf inhabited
  | group inside ih => exact ih
  | once body ih => exact ih
  | repeated times body ih => exact .repeated times ih
  | noItem => exact List.forall_mem_nil _
  | item first later ihFirst ihLater => exact List.forall_mem_cons.mpr ⟨ihFirst, ihLater⟩
  | single only ih => exact ih _ List.mem_cons_self
  | sequence all several ih => exact .sequence several ih
  | noBranch => exact List.forall_mem_nil _
  | another next later ihNext ihLater => exact List.forall_mem_cons.mpr ⟨ihNext, ihLater⟩
  | plain only ih => exact ih
  | @choice ts us p ps first later several ihFirst ihLater =>
    have hlength : 0 < ps.length := List.length_pos_iff.mpr several
    refine .alternation ?_ (List.forall_mem_cons.mpr ⟨ihFirst, ihLater⟩)
    rw [List.length_cons]
    omega

/-! ## Settled patterns -/

/-- Is the pattern collapsed, with no sequence among the items of a sequence? -/
inductive Settled : Pattern → Prop where
  | atom (letter : Atom) : Settled (.atom letter)
  | any : Settled .any
  | nil : Settled .nil
  | boundary : Settled .boundary
  | oneOf {letters : List Atom} (inhabited : letters ≠ []) : Settled (.oneOf letters)
  | sequence {items : List Pattern} (several : items.length ≠ 1)
      (flat : ∀ item ∈ items, item.isSequence = false) (all : ∀ item ∈ items, Settled item) :
      Settled (.sequence items)
  | alternation {branches : List Pattern} (several : 2 ≤ branches.length)
      (all : ∀ branch ∈ branches, Settled branch) : Settled (.alternation branches)
  | repeated {body : Pattern} (times : Quantifier) (inside : Settled body) :
      Settled (.repeated body times)

theorem Settled.collapsed {p : Pattern} (h : p.Settled) : p.Collapsed := by
  induction h with
  | atom letter => exact .atom letter
  | any => exact .any
  | nil => exact .nil
  | boundary => exact .boundary
  | oneOf inhabited => exact .oneOf inhabited
  | sequence several flat all ih => exact .sequence several ih
  | alternation several all ih => exact .alternation several ih
  | repeated times inside ih => exact .repeated times ih

/-- Can the pattern be an item of a settled sequence? -/
def SettledItem (p : Pattern) : Prop := p.Settled ∧ p.isSequence = false

theorem settled_ofItems {items : List Pattern} (h : ∀ item ∈ items, SettledItem item) :
    (ofItems items).Settled := by
  by_cases hone : items.length = 1
  · obtain ⟨item, rfl⟩ := List.length_eq_one_iff.mp hone
    exact (h item List.mem_cons_self).1
  · rw [ofItems_of_length hone]
    exact .sequence hone (fun item hitem => (h item hitem).2) fun item hitem => (h item hitem).1

theorem settled_joined {bss : List (List Pattern)} (some : bss ≠ [])
    (h : ∀ items ∈ bss, ∀ item ∈ items, SettledItem item) : (joined bss).Settled := by
  rcases bss with _ | ⟨first, _ | ⟨next, later⟩⟩
  · exact absurd rfl some
  · exact settled_ofItems (h first List.mem_cons_self)
  · refine .alternation (Nat.le_add_left 2 _) fun branch hbranch => ?_
    obtain ⟨items, hitems, rfl⟩ := List.mem_map.mp hbranch
    exact settled_ofItems (h items hitems)

/-! ## The first round -/

/-- How a collapsed pattern is read again: at least one branch is found, two of them in an
    alternation, and all items are settled and none is a sequence. -/
structure Branched (p : Pattern) : Prop where
  some : rereadBranches p ≠ []
  several : p.isAlternation = true → 2 ≤ (rereadBranches p).length
  settled : ∀ items ∈ rereadBranches p, ∀ item ∈ items, SettledItem item

/-- What is read as a single item is branched. -/
theorem branched_of_alone {p q : Pattern} (h : rereadBranches p = [[q]])
    (hkind : p.isAlternation = false) (item : SettledItem q) : Branched p where
  some := by rw [h]; exact List.cons_ne_nil _ _
  several htrue := by rw [hkind] at htrue; cases htrue
  settled := by
    rw [h]
    exact List.forall_mem_singleton.mpr (List.forall_mem_singleton.mpr item)

theorem Branched.settled_reread {p : Pattern} (h : Branched p) : p.reread.Settled :=
  settled_joined h.some h.settled

/-- Of the items of a sequence a sequence gives its own items, and an alternation is one. -/
theorem settledItem_of_mem_rereadItems {items : List Pattern} (h : ∀ item ∈ items, Branched item) :
    ∀ q ∈ rereadItems items, SettledItem q := by
  induction items with
  | nil => exact List.forall_mem_nil _
  | cons item later ih =>
    obtain ⟨hitem, hlater⟩ := List.forall_mem_cons.mp h
    intro q hq
    rw [rereadItems, List.mem_append] at hq
    rcases hq with hq | hq
    · cases hkind : item.isAlternation with
      | true =>
        rw [hkind] at hq
        obtain rfl : q = item.reread := List.mem_singleton.mp hq
        refine ⟨hitem.settled_reread, ?_⟩
        rw [reread, joined_of_several (hitem.several hkind)]
        rfl
      | false =>
        rw [hkind] at hq
        obtain ⟨inner, hinner, hmem⟩ := List.mem_flatten.mp hq
        exact hitem.settled inner hinner q hmem
    · exact ih hlater q hq

/-- The branches of an alternation are read as at least as many branches. -/
theorem branched_rereadEach {branches : List Pattern} (h : ∀ branch ∈ branches, Branched branch) :
    branches.length ≤ (rereadEach branches).length ∧
      ∀ items ∈ rereadEach branches, ∀ item ∈ items, SettledItem item := by
  induction branches with
  | nil => exact ⟨Nat.le_refl 0, List.forall_mem_nil _⟩
  | cons branch later ih =>
    obtain ⟨hbranch, hlater⟩ := List.forall_mem_cons.mp h
    obtain ⟨hlength, hsettled⟩ := ih hlater
    have hsome : 0 < (rereadBranches branch).length := List.length_pos_iff.mpr hbranch.some
    rw [rereadEach]
    constructor
    · rw [List.length_append, List.length_cons]
      omega
    · exact List.forall_mem_append.mpr ⟨hbranch.settled, hsettled⟩

theorem Collapsed.branched {p : Pattern} (h : p.Collapsed) : Branched p := by
  induction h with
  | atom letter => exact branched_of_alone rfl rfl ⟨.atom letter, rfl⟩
  | any => exact branched_of_alone rfl rfl ⟨.any, rfl⟩
  | nil => exact branched_of_alone rfl rfl ⟨.nil, rfl⟩
  | boundary => exact branched_of_alone rfl rfl ⟨.boundary, rfl⟩
  | oneOf inhabited => exact branched_of_alone rfl rfl ⟨.oneOf inhabited, rfl⟩
  | sequence several all ih =>
    refine ⟨List.cons_ne_nil _ _, by rintro ⟨⟩, ?_⟩
    exact List.forall_mem_singleton.mpr (settledItem_of_mem_rereadItems ih)
  | @alternation branches several all ih =>
    obtain ⟨hlength, hsettled⟩ := branched_rereadEach ih
    refine ⟨?_, fun _ => Nat.le_trans several hlength, hsettled⟩
    exact List.length_pos_iff.mp (show 0 < (rereadEach branches).length by omega)
  | repeated times inside ih =>
    exact branched_of_alone rfl rfl ⟨.repeated times ih.settled_reread, rfl⟩

/-- What is read again from the text of a collapsed pattern is settled. -/
theorem Collapsed.settled_reread {p : Pattern} (h : p.Collapsed) : p.reread.Settled :=
  h.branched.settled_reread

/-! ## The second round -/

theorem laterBranchTokens_append (ps qs : List Pattern) :
    laterBranchTokens (ps ++ qs) = laterBranchTokens ps ++ laterBranchTokens qs := by
  induction ps with
  | nil => rfl
  | cons p ps ih =>
    rw [List.cons_append, laterBranchTokens, laterBranchTokens, ih, List.append_assoc]

/-- Behind a bar all branches are later ones. -/
theorem laterBranchTokens_eq {ps : List Pattern} (h : ps ≠ []) :
    laterBranchTokens ps = .pipe :: branchTokens ps := by
  cases ps with
  | nil => exact absurd rfl h
  | cons p ps => rfl

/-- A pattern is printed as the branches that it is joined from. -/
theorem tokens_joined {bss : List (List Pattern)} (some : bss ≠ []) :
    tokens (joined bss) = branchTokens (bss.map ofItems) := by
  rcases bss with _ | ⟨first, _ | ⟨next, later⟩⟩
  · exact absurd rfl some
  · exact (List.append_nil (tokens (ofItems first))).symm
  · rfl

/-- The pattern is printed as it was before it was read again, and with parentheses where it was. -/
structure Unchanged (p : Pattern) : Prop where
  tokens : p.reread.tokens = p.tokens
  isAlternation : p.reread.isAlternation = p.isAlternation
  isComposite : p.reread.isComposite = p.isComposite

theorem itemTokens_map_reread {items : List Pattern} (h : ∀ item ∈ items, Unchanged item) :
    itemTokens (items.map reread) = itemTokens items := by
  induction items with
  | nil => rfl
  | cons item later ih =>
    obtain ⟨hitem, hlater⟩ := List.forall_mem_cons.mp h
    rw [List.map_cons, itemTokens, itemTokens, hitem.isAlternation, hitem.tokens, ih hlater]

/-- However many branches a branch is read as, they are printed as it is. -/
theorem laterBranchTokens_rereadEach {branches : List Pattern}
    (branched : ∀ branch ∈ branches, Branched branch) (h : ∀ branch ∈ branches, Unchanged branch) :
    laterBranchTokens ((rereadEach branches).map ofItems) = laterBranchTokens branches := by
  induction branches with
  | nil => rfl
  | cons branch later ih =>
    obtain ⟨hbranched, hbrancheds⟩ := List.forall_mem_cons.mp branched
    obtain ⟨hbranch, hlater⟩ := List.forall_mem_cons.mp h
    have hsome : (rereadBranches branch).map ofItems ≠ [] := by
      rw [Ne, List.map_eq_nil_iff]
      exact hbranched.some
    have htokens : branchTokens ((rereadBranches branch).map ofItems) = branch.tokens := by
      rw [← tokens_joined hbranched.some]
      exact hbranch.tokens
    rw [rereadEach, List.map_append, laterBranchTokens_append, laterBranchTokens_eq hsome, htokens,
      ih hbrancheds hlater, laterBranchTokens]

/-- Reading a settled pattern again shows no difference in its text. -/
theorem Settled.unchanged {p : Pattern} (h : p.Settled) : Unchanged p := by
  induction h with
  | @sequence items several flat all ih =>
    have hlength : (items.map reread).length ≠ 1 := by
      rw [List.length_map]
      exact several
    have hread : reread (.sequence items) = .sequence (items.map reread) := by
      rw [reread, rereadBranches, rereadItems_of_flat flat]
      exact ofItems_of_length hlength
    refine ⟨?_, by rw [hread]; rfl, by rw [hread]; rfl⟩
    rw [hread, tokens, tokens, itemTokens_map_reread ih]
  | @alternation branches several all ih =>
    have hbranched : ∀ branch ∈ branches, Branched branch :=
      fun branch hbranch => (all branch hbranch).collapsed.branched
    obtain ⟨hlength, -⟩ := branched_rereadEach hbranched
    have hread : reread (.alternation branches) =
        .alternation ((rereadEach branches).map ofItems) :=
      joined_of_several (Nat.le_trans several hlength)
    refine ⟨?_, by rw [hread]; rfl, by rw [hread]; rfl⟩
    -- the branches are printed alike with a bar before them, and so without it
    have hbars := laterBranchTokens_rereadEach hbranched ih
    have hsome : branches ≠ [] := List.length_pos_iff.mp (by omega)
    have hread' : (rereadEach branches).map ofItems ≠ [] :=
      List.length_pos_iff.mp (by rw [List.length_map]; omega)
    rw [laterBranchTokens_eq hsome, laterBranchTokens_eq hread'] at hbars
    rw [hread, tokens, tokens]
    exact (List.cons.inj hbars).2
  | @repeated body times inside ih =>
    refine ⟨?_, rfl, rfl⟩
    show enclosedIf body.reread.isComposite body.reread.tokens ++ [times.token] = _
    rw [ih.isComposite, ih.tokens]
    rfl
  | _ => exact ⟨rfl, rfl, rfl⟩

/-- From the second round on the text stays as it is. -/
theorem text_reread_reread {p : Pattern} (h : p.Collapsed) :
    p.reread.reread.text = p.reread.text := by
  have htokens := h.settled_reread.unchanged.tokens
  rw [text, text, htokens]

end Pattern

namespace Recognizer

open Pattern

/-! ## Round after round -/

/-- What a recognizer has become when it has been printed and read again, so many times. -/
def reprinted (r : Recognizer) : Nat → Except ReadError Recognizer
  | 0 => .ok r
  | n + 1 => (reprinted r n).bind fun q => (ofSource q.pattern.text).value

theorem ofSource_text {p : Pattern} (h : p.Legible) :
    (ofSource p.text).value = .ok ⟨p.reread⟩ := by
  show (read p.text).value.map Recognizer.mk = _
  rw [read_text h]
  rfl

/-- A recognizer that is read from a text can be printed and read again as often as one likes.  From
    the second round on it stays the same, and it is printed as it was after the first one. -/
theorem reprinted_settles {source : String} {r : Recognizer}
    (h : (ofSource source).value = .ok r) :
    ∃ second third, (ofSource r.pattern.text).value = .ok second ∧
      (ofSource second.pattern.text).value = .ok third ∧
      third.pattern.text = second.pattern.text ∧
      (ofSource third.pattern.text).value = .ok third ∧
      ∀ n, 2 ≤ n → reprinted r n = .ok third := by
  obtain ⟨p⟩ := r
  obtain ⟨ts, hderives⟩ : ∃ ts, Derives .alternation ts p := by
    have hmap : (read source).value.map Recognizer.mk = .ok ⟨p⟩ := h
    cases hread : (read source).value with
    | error e => rw [hread] at hmap; cases hmap
    | ok q =>
      rw [hread] at hmap
      obtain rfl : q = p := Recognizer.mk.inj (Except.ok.inj hmap)
      exact exists_derives_of_read hread
  have hlegible : p.Legible := hderives.legible
  have hsecond : (ofSource p.text).value = .ok ⟨p.reread⟩ := ofSource_text hlegible
  have hthird : (ofSource p.reread.text).value = .ok ⟨p.reread.reread⟩ :=
    ofSource_text (derives_tokens hlegible).legible
  have htext : p.reread.reread.text = p.reread.text := text_reread_reread hderives.collapsed
  have hstays : (ofSource p.reread.reread.text).value = .ok ⟨p.reread.reread⟩ := by
    rw [htext]
    exact hthird
  refine ⟨⟨p.reread⟩, ⟨p.reread.reread⟩, hsecond, hthird, htext, hstays, ?_⟩
  intro n hn
  induction hn with
  | refl =>
    show ((ofSource p.text).value.bind fun q => (ofSource q.pattern.text).value) = _
    rw [hsecond]
    exact hthird
  | @step n hn ih =>
    rw [reprinted, ih]
    exact hstays

/-- Two rounds are needed where an empty group stands beside another one. -/
theorem reprinted_settles_group :
    let first : Recognizer := ⟨.alternation [.sequence [.sequence [], .alternation [.atom .b,
      .atom .w]], .atom .h]⟩
    let second : Recognizer := ⟨.alternation [.alternation [.atom .b, .atom .w], .atom .h]⟩
    let third : Recognizer := ⟨.alternation [.atom .b, .atom .w, .atom .h]⟩
    (ofSource "()(B|W)|H").value = .ok first ∧
      first.pattern.text = "(B|W)|H" ∧ (ofSource "(B|W)|H").value = .ok second ∧
      second.pattern.text = "B|W|H" ∧ (ofSource "B|W|H").value = .ok third ∧
      reprinted first 1 ≠ reprinted first 2 ∧ ∀ n, 2 ≤ n → reprinted first n = .ok third := by
  intro first second third
  have hfirst : (ofSource "()(B|W)|H").value = .ok first := by rfl
  have htext : first.pattern.text = "(B|W)|H" := by decide
  have htext' : second.pattern.text = "B|W|H" := by decide
  have hsecond : (ofSource "(B|W)|H").value = .ok second := by rfl
  have hthird : (ofSource "B|W|H").value = .ok third := by rfl
  obtain ⟨second', third', hsecond', hthird', -, -, hrounds⟩ := reprinted_settles hfirst
  rw [htext, hsecond] at hsecond'
  obtain rfl : second = second' := Except.ok.inj hsecond'
  rw [htext', hthird] at hthird'
  obtain rfl : third = third' := Except.ok.inj hthird'
  have hone : reprinted first 1 = .ok second := by
    show (ofSource first.pattern.text).value = _
    rw [htext, hsecond]
  refine ⟨hfirst, htext, hsecond, htext', hthird, ?_, hrounds⟩
  rw [hone, hrounds 2 (Nat.le_refl 2)]
  intro hsame
  exact absurd (Except.ok.inj hsame) (by decide)

end Recognizer
end Forward
