/-
  Depth: how deep the expansions of rules stand inside one another.

  A rule may be attempted inside itself, directly or through others, and it is expanded anew each
  time.  Nothing about the matchers gets smaller on the way: that it comes to an end is due to the
  elements that are taken in between.  `Defers g bound ahead m` says of a matcher `m` that it
  expands rules behind `ahead` elements at the earliest, and that the bound is enough for an answer
  where less than `bound` elements stand behind these.

  Two things one after the other defer expansions as far as each of them does, and what stands
  behind something that takes an element need not defer them itself (`Defers.both_of_advances`).  If
  in this way every rule of a grammar stands for something that defers expansions by an element, the
  grammar never comes back to a rule in the same place (`defers_of_rules`).  A bound of as many
  rules as there are elements is enough, and the expansions inside an expansion begin behind it.
  Positions are then a measure of the depth: no more expansions stand inside one another than there
  are positions for them (`Trace.Descends.depth_le`).
-/
import Forward.Proofs.Events

namespace Forward

variable {α σ τ : Type} {ρ : Type → Type}

/-! ## The depth of a trace -/

mutual

/-- How many expansions stand inside one another in an event. -/
def Event.depth : Event α → Nat
  | .captured _ _ _ => 0
  | .unbound _ => 0
  | .expanded _ inside => Trace.depth inside + 1
  | .spanned _ inside => Trace.depth inside
  | .repeated _ _ inside => Trace.depth inside

/-- How many expansions stand inside one another. -/
def Trace.depth : List (Event α) → Nat
  | [] => 0
  | event :: later => max event.depth (Trace.depth later)

end

/-- Rules are expanded behind `lo` and not behind `hi`, and inside an expansion only behind it. -/
def Trace.Descends (trace : Trace α) (lo hi : Nat) : Prop :=
  ∀ start inside, Occurs (.expanded start inside) trace →
    lo < start ∧ start ≤ hi ∧
      ∀ deeper further, Occurs (.expanded deeper further) inside → start < deeper

theorem Occurs.mono {event : Event α} {first second : Trace α} (h : Occurs event first)
    (sub : first ⊆ second) : Occurs event second := by
  cases h with
  | top h => exact .top (sub h)
  | enclosed h deeper => exact .enclosed (sub h) deeper

theorem Trace.Descends.of_subset {first second : Trace α} {lo hi : Nat}
    (h : Trace.Descends second lo hi) (sub : first ⊆ second) : Trace.Descends first lo hi :=
  fun start inside hevent => h start inside (hevent.mono sub)

/-- What an event encloses descends like the event. -/
theorem Trace.Descends.inside {event : Event α} {lo hi : Nat} (h : Trace.Descends [event] lo hi) :
    Trace.Descends event.inside lo hi :=
  fun start inside hevent => h start inside (.enclosed List.mem_cons_self hevent)

/-- Inside an expansion, what descends does so from where the expansion begins. -/
theorem Trace.Descends.expanded {start lo hi : Nat} {inside : Trace α}
    (h : Trace.Descends [.expanded start inside] lo hi) :
    lo < start ∧ start ≤ hi ∧ Trace.Descends inside start hi := by
  obtain ⟨hlo, hhi, hdeeper⟩ := h start inside (.top List.mem_cons_self)
  refine ⟨hlo, hhi, fun deeper further hevent => ?_⟩
  obtain ⟨-, hle, hfurther⟩ := h.inside deeper further hevent
  exact ⟨hdeeper deeper further hevent, hle, hfurther⟩

mutual

theorem Event.depth_le_of_descends {event : Event α} {lo hi : Nat}
    (h : Trace.Descends [event] lo hi) : event.depth ≤ hi - lo := by
  cases event with
  | captured name value position => exact Nat.zero_le _
  | unbound name => exact Nat.zero_le _
  | expanded start inside =>
    -- each expansion uses up a position of its own
    obtain ⟨hlo, hhi, hinside⟩ := h.expanded
    have hdepth := Trace.Descends.depth_le hinside
    show Trace.depth inside + 1 ≤ hi - lo
    omega
  | spanned span inside =>
    exact Trace.Descends.depth_le (show Trace.Descends inside lo hi from h.inside)
  | repeated start attempts inside =>
    exact Trace.Descends.depth_le (show Trace.Descends inside lo hi from h.inside)

/-- There are at most as many expansions inside one another as there are positions for them. -/
theorem Trace.Descends.depth_le {trace : List (Event α)} {lo hi : Nat}
    (h : Trace.Descends trace lo hi) : Trace.depth trace ≤ hi - lo := by
  cases trace with
  | nil => exact Nat.zero_le _
  | cons event later =>
    have hevent := h.of_subset (List.cons_subset_cons event (List.nil_subset later))
    have hlater := h.of_subset (List.subset_cons_self event later)
    exact Nat.max_le.mpr ⟨Event.depth_le_of_descends hevent, Trace.Descends.depth_le hlater⟩

end

/-! ## Expansions of a run -/

/-- An expansion in a run begins at least `ahead` elements behind the start of the run and not
    behind its end, and the expansions inside it begin behind it. -/
def ExpandsBehind (ahead : Nat) (s : Scan α) (event : Event α) (t : Scan α) : Prop :=
  ∀ start inside, event = .expanded start inside →
    s.position + ahead ≤ start ∧ start ≤ t.position ∧
      ∀ deeper further, Occurs (.expanded deeper further) inside → start < deeper

theorem widens_expandsBehind (ahead : Nat) : Widens (ExpandsBehind (α := α) ahead) where
  widen := by
    intro r s t u event hrs hevent htu start inside heq
    obtain ⟨hstart, hend, hdeeper⟩ := hevent start inside heq
    have hfirst := hrs.position_le
    have hlast := htu.position_le
    exact ⟨by omega, by omega, hdeeper⟩

theorem Attempt.Notes.descends {a : Attempt α τ} (h : Attempt.Notes (ExpandsBehind 1) a)
    (s : Scan α) : Trace.Descends (a s).trace s.position (a s).scan.position :=
  fun start inside hevent => h s _ hevent start inside rfl

/-! ## Matchers that defer the expansion of rules -/

namespace Matcher

open Attempt

variable [BEq α]

/-- With this bound the matcher comes to an answer wherever there are less than `bound + ahead`
    elements, and rules are expanded at least `ahead` elements behind its start. -/
structure Defers (g : Grammar α ρ) (bound ahead : Nat) (m : Matcher α ρ τ) : Prop where
  finishes : Finishes (bound + ahead) (m.run g bound)
  expands : Notes (ExpandsBehind ahead) (m.run g bound)

variable {g : Grammar α ρ} {bound ahead : Nat}

theorem defers_item [DecidableEq α] (x : α) : (item x : Matcher α ρ α).Defers g bound ahead :=
  ⟨finishes_take _, notes_take _⟩

theorem defers_symbol (table : α → Option τ) :
    (symbol table : Matcher α ρ τ).Defers g bound ahead :=
  ⟨finishes_take table, notes_take table⟩

theorem defers_peek : (peek : Matcher α ρ α).Defers g bound ahead :=
  ⟨finishes_look, notes_look⟩

theorem defers_pure (value : τ) : (pure value : Matcher α ρ τ).Defers g bound ahead :=
  ⟨composes_finishes.succeed value, (composes_notes (widens_expandsBehind ahead)).succeed value⟩

theorem Defers.map {m : Matcher α ρ σ} (h : m.Defers g bound ahead) (f : σ → τ) :
    (map f m).Defers g bound ahead :=
  ⟨h.finishes.map f, h.expands.map f⟩

theorem Defers.andThen {m : Matcher α ρ σ} {next : σ → Matcher α ρ τ}
    (h : m.Defers g bound ahead) (k : ∀ x, (next x).Defers g bound ahead) :
    (andThen m next).Defers g bound ahead where
  finishes := h.finishes.andThen (m.run_onward g bound) fun x => (k x).finishes
  expands := h.expands.andThen (widens_expandsBehind ahead) (m.run_onward g bound)
    (fun x => (next x).run_onward g bound) fun x => (k x).expands

theorem Defers.both {first : Matcher α ρ σ} {second : Matcher α ρ τ}
    (h : first.Defers g bound ahead) (k : second.Defers g bound ahead) :
    (both first second).Defers g bound ahead where
  finishes := composes_finishes.both (first.run_onward g bound) (second.run_onward g bound)
    h.finishes k.finishes
  expands := (composes_notes (widens_expandsBehind ahead)).both (first.run_onward g bound)
    (second.run_onward g bound) h.expands k.expands

theorem Defers.optional {m : Matcher α ρ τ} (h : m.Defers g bound ahead) :
    (optional m).Defers g bound ahead :=
  ⟨h.finishes.optional, h.expands.optional⟩

/-- A repetition whose rounds take an element has room for them all. -/
theorem Defers.repeated {body : Matcher α ρ τ} (h : body.Defers g bound 0)
    (advances : Advances (body.run g bound)) (times : Repetition) :
    (repeated times body).Defers g bound 0 where
  finishes := h.finishes.repeated (body.run_onward g bound) (Or.inr advances)
  expands := h.expands.repeated (widens_expandsBehind 0) (body.run_onward g bound) fun _ _ => by
    rintro start inside ⟨⟩

theorem advances_item [DecidableEq α] (x : α) : Advances ((item x : Matcher α ρ α).run g bound) :=
  advances_take _

theorem advances_symbol (table : α → Option τ) :
    Advances ((symbol table : Matcher α ρ τ).run g bound) :=
  advances_take table

/-- Two things take an element if the first one does. -/
theorem advances_both {first : Matcher α ρ σ} (h : Advances (first.run g bound))
    (second : Matcher α ρ τ) : Advances ((both first second).run g bound) :=
  h.andThen_left fun _ => (second.run_moves kept_onward g bound).map _

/-- Behind something that takes an element nothing more has to be deferred. -/
theorem Defers.both_of_advances {first : Matcher α ρ σ} {second : Matcher α ρ τ}
    (h : first.Defers g bound 1) (advances : Advances (first.run g bound))
    (k : second.Defers g bound 0) : (Matcher.both first second).Defers g bound 1 where
  finishes := by
    intro s hs
    have hfirst := h.finishes s hs
    have hadd := (first.run_onward g bound s).length_add
    show ((first.run g bound).andThen _ s).Finished
    rcases (first.run g bound).andThen_cases _ s with ⟨x, hx, hrun⟩ | ⟨o, hrun, -, hstop⟩
    · -- one element less than the bound has room for
      have hlt := advances s x hx
      rw [hrun]
      exact k.finishes.map _ _ (by omega)
    · rw [hrun]
      exact fun hunfinished => hfirst (hstop hunfinished)
  expands := by
    intro s event hevent
    have wide := widens_expandsBehind (α := α) 1
    change Occurs event ((first.run g bound).andThen _ s).trace at hevent
    show ExpandsBehind 1 s event ((first.run g bound).andThen _ s).scan
    rcases (first.run g bound).andThen_cases _ s with ⟨x, hx, hrun⟩ | ⟨o, hrun, -⟩
    · rw [hrun] at hevent ⊢
      rcases hevent.of_append with hfirst | hsecond
      · exact wide.widen (.refl s) (h.expands s event hfirst) (second.run_onward g bound _)
      · intro start inside heq
        have hlt := advances s x hx
        obtain ⟨hstart, hend⟩ := k.expands _ event hsecond start inside heq
        exact ⟨by omega, hend⟩
    · rw [hrun] at hevent ⊢
      exact h.expands s event hevent

/-! ## Rules -/

/-- A rule is expanded at once, and defers nothing, but it needs one more of the bound. -/
theorem Defers.rule {name : ρ τ} (h : (g τ name).Defers g bound 1) :
    (rule name : Matcher α ρ τ).Defers g (bound + 1) 0 where
  finishes := h.finishes
  expands := by
    intro s event hevent
    rcases hevent.of_singleton with rfl | hinside
    · rintro start inside ⟨⟩
      have honward := (g τ name).run_onward g bound s
      refine ⟨Nat.le_refl s.position, honward.position_le, fun deeper further hdeeper => ?_⟩
      exact (h.expands s _ hdeeper deeper further rfl).1
    · intro start inside heq
      obtain ⟨hstart, hend⟩ := h.expands s event hinside start inside heq
      exact ⟨Nat.le_of_succ_le hstart, hend⟩

/-- If every rule stands for something that defers further expansions by an element, there is room
    for all expansions in a bound of as many elements as there are. -/
theorem defers_of_rules
    (rules : ∀ bound, (∀ {σ : Type} (name : ρ σ), (rule name : Matcher α ρ σ).Defers g bound 0) →
      ∀ {σ : Type} (name : ρ σ), (g σ name).Defers g bound 1)
    (bound : Nat) (name : ρ τ) : (rule name : Matcher α ρ τ).Defers g bound 0 := by
  induction bound generalizing τ with
  | zero =>
    refine ⟨fun s hs => absurd hs (Nat.not_lt_zero _), fun s event hevent => ?_⟩
    obtain rfl := hevent.of_singleton.resolve_right (not_occurs_nil event)
    rintro start inside ⟨⟩
    exact ⟨Nat.le_refl s.position, Nat.le_refl s.position,
      fun deeper further hdeeper => absurd hdeeper (not_occurs_nil _)⟩
  | succ bound ih => exact .rule (rules bound (fun name => ih name) name)

end Matcher
end Forward
