/-
  Spans: where the stretches lie that a run tells of.

  A match whose stretch is asked for reports its span when it succeeds, and what happened meanwhile
  stands inside this report.  So the trace of a run is a forest of spans, also where the match that
  asked for one is given up later.

  `Trace.Fits trace lo hi` says that the forest is laid out between two positions: what is reported
  one after the other lies one behind the other, and what stands inside a span lies within it.  Since
  nothing moves backwards, the trace of every run fits between the two ends of the run
  (`Matcher.trace_fits`).  What is to be known about the spans is read off from that: their ends are
  in order (`Trace.Fits.span`), those inside are contained, and those one after the other do not
  overlap (`Trace.Fits.inTurn`).

  The spans that a sequence or a repetition gives as values are in order for the same reason.  They
  are followed from one place to the next, since a value does not say where it was reported.
-/
import Forward.Proofs.Events
import Forward.Proofs.Reach
import Forward.Proofs.Yields

namespace Forward

variable {α σ τ : Type} {ρ : Type → Type}

/-! ## Traces between two positions -/

mutual

/-- The event lies between the positions `lo` and `hi`.  A span lies there with both of its ends, and
    what it encloses lies between these. -/
def Event.Fits : Event α → Nat → Nat → Prop
  | .captured _ _ _, lo, hi => lo ≤ hi
  | .unbound _, lo, hi => lo ≤ hi
  | .expanded _ inside, lo, hi => Trace.Fits inside lo hi
  | .spanned span inside, lo, hi =>
    lo ≤ span.start ∧ Trace.Fits inside span.start span.stop ∧ span.stop ≤ hi
  | .repeated _ _ inside, lo, hi => Trace.Fits inside lo hi

/-- The events lie between the positions `lo` and `hi`, each behind the one before it. -/
def Trace.Fits : List (Event α) → Nat → Nat → Prop
  | [], lo, hi => lo ≤ hi
  | event :: later, lo, hi => ∃ middle, event.Fits lo middle ∧ Trace.Fits later middle hi

end

mutual

theorem Event.Fits.le {event : Event α} {lo hi : Nat} (h : event.Fits lo hi) : lo ≤ hi := by
  cases event with
  | captured name value position => exact h
  | unbound name => exact h
  | expanded start inside => exact Trace.Fits.le (show Trace.Fits inside lo hi from h)
  | spanned span inside =>
    obtain ⟨hstart, hinside, hstop⟩ := h
    have hspan := Trace.Fits.le hinside
    omega
  | repeated start attempts inside => exact Trace.Fits.le (show Trace.Fits inside lo hi from h)

theorem Trace.Fits.le {trace : List (Event α)} {lo hi : Nat} (h : Trace.Fits trace lo hi) :
    lo ≤ hi := by
  cases trace with
  | nil => exact h
  | cons event later =>
    obtain ⟨middle, hevent, hlater⟩ := h
    exact Nat.le_trans hevent.le (Trace.Fits.le hlater)

end

mutual

/-- What lies between two positions also lies between one before them and the second one. -/
theorem Event.Fits.lower {event : Event α} {lo hi before : Nat} (h : event.Fits lo hi)
    (le : before ≤ lo) : event.Fits before hi := by
  cases event with
  | captured name value position => exact Nat.le_trans le h
  | unbound name => exact Nat.le_trans le h
  | expanded start inside => exact Trace.Fits.lower (show Trace.Fits inside lo hi from h) le
  | spanned span inside => exact ⟨Nat.le_trans le h.1, h.2⟩
  | repeated start attempts inside => exact Trace.Fits.lower (show Trace.Fits inside lo hi from h) le

theorem Trace.Fits.lower {trace : List (Event α)} {lo hi before : Nat}
    (h : Trace.Fits trace lo hi) (le : before ≤ lo) : Trace.Fits trace before hi := by
  cases trace with
  | nil => exact Nat.le_trans le h
  | cons event later =>
    obtain ⟨middle, hevent, hlater⟩ := h
    exact ⟨middle, hevent.lower le, hlater⟩

end

/-- An event by itself is a trace. -/
theorem Trace.fits_singleton {event : Event α} {lo hi : Nat} (h : event.Fits lo hi) :
    Trace.Fits [event] lo hi :=
  ⟨hi, h, Nat.le_refl hi⟩

theorem Trace.fits_append {first second : Trace α} {lo hi : Nat} :
    Trace.Fits (first ++ second) lo hi ↔
      ∃ middle, Trace.Fits first lo middle ∧ Trace.Fits second middle hi := by
  induction first generalizing lo with
  | nil =>
    constructor
    · intro h
      exact ⟨lo, Nat.le_refl lo, h⟩
    · rintro ⟨middle, le, h⟩
      exact h.lower le
  | cons event later ih =>
    constructor
    · rintro ⟨behind, hevent, hrest⟩
      obtain ⟨middle, hlater, hsecond⟩ := ih.mp hrest
      exact ⟨middle, ⟨behind, hevent, hlater⟩, hsecond⟩
    · rintro ⟨middle, ⟨behind, hevent, hlater⟩, hsecond⟩
      exact ⟨behind, hevent, ih.mpr ⟨middle, hlater, hsecond⟩⟩

/-! ## What is seen of it in the spans -/

theorem Trace.Fits.of_mem {trace : Trace α} {lo hi : Nat} (h : Trace.Fits trace lo hi)
    {event : Event α} (hevent : event ∈ trace) :
    ∃ lo' hi', lo ≤ lo' ∧ event.Fits lo' hi' ∧ hi' ≤ hi := by
  induction trace generalizing lo with
  | nil => cases hevent
  | cons first later ih =>
    obtain ⟨middle, hfirst, hlater⟩ := h
    rcases List.mem_cons.mp hevent with rfl | hmem
    · exact ⟨lo, middle, Nat.le_refl lo, hfirst, hlater.le⟩
    · obtain ⟨lo', hi', hle, hfits, hle'⟩ := ih hlater hmem
      exact ⟨lo', hi', Nat.le_trans hfirst.le hle, hfits, hle'⟩

theorem Event.Fits.inside {event : Event α} {lo hi : Nat} (h : event.Fits lo hi) :
    ∃ lo' hi', lo ≤ lo' ∧ Trace.Fits event.inside lo' hi' ∧ hi' ≤ hi := by
  cases event with
  | spanned span inside => exact ⟨span.start, span.stop, h⟩
  | _ => exact ⟨lo, hi, Nat.le_refl lo, h, Nat.le_refl hi⟩

/-- What occurs in a trace, at any depth, lies within it. -/
theorem Occurs.fits {trace : Trace α} {event : Event α} (h : Occurs event trace) {lo hi : Nat}
    (hfits : Trace.Fits trace lo hi) : ∃ lo' hi', lo ≤ lo' ∧ event.Fits lo' hi' ∧ hi' ≤ hi := by
  induction h generalizing lo hi with
  | top hmem => exact hfits.of_mem hmem
  | enclosed hmem deeper ih =>
    obtain ⟨lo₁, hi₁, hlo₁, houter, hhi₁⟩ := hfits.of_mem hmem
    obtain ⟨lo₂, hi₂, hlo₂, hinside, hhi₂⟩ := houter.inside
    obtain ⟨lo₃, hi₃, hlo₃, hevent, hhi₃⟩ := ih hinside
    exact ⟨lo₃, hi₃, by omega, hevent, by omega⟩

/-- A span that occurs in a trace lies within it, and what it encloses lies within the span. -/
theorem Trace.Fits.span {trace : Trace α} {lo hi : Nat} (h : Trace.Fits trace lo hi) {span : Span}
    {inside : Trace α} (hspan : Occurs (.spanned span inside) trace) :
    lo ≤ span.start ∧ Trace.Fits inside span.start span.stop ∧ span.stop ≤ hi := by
  obtain ⟨lo', hi', hlo, ⟨hstart, hinside, hstop⟩, hhi⟩ := hspan.fits h
  exact ⟨by omega, hinside, by omega⟩

/-- A span that is reported before another one, at the same depth of the trace or inside something
    there, ends before the other one starts. -/
def Trace.InTurn (trace : Trace α) : Prop :=
  ∀ before after span inside span' inside', trace = before ++ after →
    Occurs (.spanned span inside) before → Occurs (.spanned span' inside') after →
    span.stop ≤ span'.start

theorem Trace.Fits.inTurn {trace : Trace α} {lo hi : Nat} (h : Trace.Fits trace lo hi) :
    trace.InTurn := by
  rintro before after span inside span' inside' rfl hspan hspan'
  obtain ⟨middle, hbefore, hafter⟩ := Trace.fits_append.mp h
  exact Nat.le_trans (hbefore.span hspan).2.2 (hafter.span hspan').1

/-! ## Attempts that report in order -/

namespace Attempt

/-- What the attempt reports lies between the two ends of its run. -/
def Fits (a : Attempt α τ) : Prop :=
  ∀ s, Trace.Fits (a s).trace s.position (a s).scan.position

/-- Where nothing is reported, it is enough not to go backwards. -/
theorem fits_of_silent {a : Attempt α τ} (onward : Moves Onward a) (h : ∀ s, (a s).trace = []) :
    Fits a := by
  intro s
  rw [h s]
  exact (onward s).position_le

theorem fits_take (choose : α → Option τ) : Fits (take choose) :=
  fits_of_silent (moves_take kept_onward choose) fun s => (take_touches choose s).1

theorem fits_look : Fits (look : Attempt α α) :=
  fits_of_silent (moves_look kept_onward) trace_look

theorem fits_backreference [BEq α] (name : String) :
    Fits (backreference name : Attempt α α) := by
  intro s
  unfold backreference
  cases s.captures.get? name with
  | none => exact Trace.fits_singleton (Nat.le_refl s.position)
  | some value => exact fits_take _ s

theorem Fits.andThen {a : Attempt α σ} {next : σ → Attempt α τ} (h : Fits a)
    (k : ∀ s x, (a s).outcome = .matched x → Fits (next x)) : Fits (a.andThen next) := by
  intro s
  rcases a.andThen_cases next s with ⟨x, hx, hrun⟩ | ⟨o, hrun, -⟩
  · rw [hrun]
    exact Trace.fits_append.mpr ⟨_, h s, k s x hx _⟩
  · rw [hrun]
    exact h s

theorem Fits.either {a b : Attempt α τ} (h : Fits a) (k : Fits b) : Fits (a.either b) := by
  intro s
  rcases a.either_cases b s with ⟨-, hrun⟩ | ⟨-, hrun⟩
  · rw [hrun]
    exact Trace.fits_append.mpr ⟨_, h s, k _⟩
  · rw [hrun]
    exact h s

theorem Fits.gather {a : Attempt α τ} (h : Fits a) (full : Outcome (List τ)) (room : Nat) :
    Fits fun s => (gather full a room s).run := by
  induction room with
  | zero => exact fun s => Nat.le_refl s.position
  | succ room ih =>
    intro s
    rcases gather_cases full a room s with ⟨x, -, hrun⟩ | ⟨o, hrun, -⟩
    · simp only [hrun]
      exact Trace.fits_append.mpr ⟨_, h s, ih _⟩
    · simp only [hrun]
      exact h s

theorem Fits.repeated {a : Attempt α τ} (h : Fits a) (times : Repetition) (limit : Nat) :
    Fits (a.repeated times limit) := by
  intro s
  have hrounds : Trace.Fits (a.gathered times limit s).trace s.position
      (a.gathered times limit s).scan.position := h.gather (full times) (room times limit) s
  rw [scan_repeated]
  cases hmost : times.most with
  | some most =>
    rw [trace_repeated_of_bounded (by rw [hmost]; rintro ⟨⟩)]
    exact hrounds
  | none =>
    rw [trace_repeated_of_unbounded hmost]
    exact Trace.fits_singleton hrounds

theorem Fits.optional {a : Attempt α τ} (h : Fits a) : Fits a.optional := by
  intro s
  have hbody := h s
  unfold Attempt.optional
  dsimp only
  split <;> exact hbody

/-- A capture is reported where its body stopped. -/
theorem Fits.capture {a : Attempt α α} (h : Fits a) (name : String) : Fits (a.capture name) := by
  intro s
  have hbody := h s
  unfold Attempt.capture
  dsimp only
  split
  · exact Trace.fits_append.mpr ⟨_, hbody, Trace.fits_singleton (Nat.le_refl _)⟩
  all_goals exact hbody

/-- A span reaches from one end of the run to the other. -/
theorem Fits.spanned {a : Attempt α τ} (h : Fits a) : Fits a.spanned := by
  intro s
  have hbody := h s
  unfold Attempt.spanned
  dsimp only
  split
  · exact Trace.fits_singleton ⟨Nat.le_refl _, hbody, Nat.le_refl _⟩
  all_goals exact hbody

theorem inherited_fits [BEq α] :
    Inherited (α := α) (fun _ => True) (fun _ => True) Fits where
  take := fits_take
  look := fits_look
  backreference name _ := fits_backreference name
  succeed _ s := Nat.le_refl s.position
  fail s := Nat.le_refl s.position
  giveUp s := Nat.le_refl s.position
  select h _ := h
  andThen h k := h.andThen k
  either h k := h.either k
  repeated h := h.repeated
  optional h := h.optional
  capture h name _ := h.capture name
  spanned h := h.spanned
  expansion h s := Trace.fits_singleton (h s)

end Attempt

/-- What a run reports lies between its two ends. -/
theorem Matcher.trace_fits [BEq α] (g : Grammar α ρ) (bound : Nat) (m : Matcher α ρ τ)
    (s : Scan α) :
    Trace.Fits (m.run g bound s).trace s.position (m.run g bound s).scan.position :=
  m.run_of_inherited Attempt.inherited_fits g (fun _ _ _ => trivial) (fun _ _ => trivial) bound s

/-! ## Spans as values -/

namespace Attempt

/-- A success with a span is a success, and the span reaches from one end of it to the other. -/
theorem matched_of_spanned {a : Attempt α τ} {s : Scan α} {v : τ × Span}
    (h : (a.spanned s).outcome = .matched v) :
    (a s).outcome = .matched v.1 ∧ v.2 = ⟨s.position, (a s).scan.position⟩ := by
  rw [(Yields.spanned ⟨rfl, rfl⟩).outcome] at h
  cases hx : (a s).outcome with
  | matched x =>
    rw [hx] at h
    obtain rfl := Outcome.matched.inj h
    exact ⟨rfl, rfl⟩
  | _ => rw [hx] at h; cases h

/-- The span of a success is reported, with the report of the attempt inside. -/
theorem trace_of_spanned {a : Attempt α τ} {s : Scan α} {v : τ × Span}
    (h : (a.spanned s).outcome = .matched v) :
    (a.spanned s).trace = [.spanned v.2 (a s).trace] := by
  obtain ⟨hx, hspan⟩ := matched_of_spanned h
  rw [hspan]
  unfold Attempt.spanned
  simp only [hx]
  rfl

theorem scan_spanned (a : Attempt α τ) (s : Scan α) : (a.spanned s).scan = (a s).scan :=
  (Yields.spanned ⟨rfl, rfl⟩).scan

/-- A span whose attempt was made behind that of another one starts where the other one ends, or
    behind that. -/
theorem stop_le_start {a : Attempt α σ} {b : Attempt α τ} {t u : Scan α} {x : σ × Span}
    {y : τ × Span} (hx : (a.spanned t).outcome = .matched x)
    (between : Onward (a.spanned t).scan u) (hy : (b.spanned u).outcome = .matched y) :
    x.2.stop ≤ y.2.start := by
  rw [(matched_of_spanned hx).2, (matched_of_spanned hy).2, ← scan_spanned a t]
  exact between.position_le

/-- A sequence that succeeds has the value of each of its parts, made somewhere behind its start. -/
theorem matched_of_inOrder {as : List (Attempt α τ)} (onward : ∀ a ∈ as, Moves Onward a)
    {s : Scan α} {values : List τ} (h : (inOrder as s).outcome = .matched values) {i : Nat}
    {a : Attempt α τ} (ha : as[i]? = some a) :
    ∃ x t, values[i]? = some x ∧ Onward s t ∧ (a t).outcome = .matched x := by
  induction as generalizing s values i with
  | nil => cases ha
  | cons first later ih =>
    obtain ⟨hmoves, hlater⟩ := List.forall_mem_cons.mp onward
    obtain ⟨v, hv, hrest, -⟩ := matched_of_andThen h
    obtain ⟨vs, hvs, rfl⟩ := matched_of_map hrest
    cases i with
    | zero =>
      obtain rfl : first = a := Option.some.inj ha
      exact ⟨v, s, rfl, .refl s, hv⟩
    | succ i =>
      obtain ⟨x, t, hx, honward, hmatched⟩ := ih hlater hvs ha
      exact ⟨x, t, hx, kept_onward.trans (hmoves s) honward, hmatched⟩

/-- Of two parts of a sequence the later one is made behind the earlier one. -/
theorem matched_of_inOrder_of_lt {as : List (Attempt α τ)} (onward : ∀ a ∈ as, Moves Onward a)
    {s : Scan α} {values : List τ} (h : (inOrder as s).outcome = .matched values) {i j : Nat}
    (hij : i < j) {a b : Attempt α τ} (ha : as[i]? = some a) (hb : as[j]? = some b) :
    ∃ x y t u, values[i]? = some x ∧ values[j]? = some y ∧ (a t).outcome = .matched x ∧
      Onward (a t).scan u ∧ (b u).outcome = .matched y := by
  induction as generalizing s values i j with
  | nil => cases ha
  | cons first later ih =>
    obtain ⟨-, hlater⟩ := List.forall_mem_cons.mp onward
    obtain ⟨v, hv, hrest, -⟩ := matched_of_andThen h
    obtain ⟨vs, hvs, rfl⟩ := matched_of_map hrest
    obtain ⟨j, rfl⟩ : ∃ k, j = k + 1 := ⟨j - 1, by omega⟩
    cases i with
    | zero =>
      obtain rfl : first = a := Option.some.inj ha
      obtain ⟨y, u, hy, honward, hmatched⟩ := matched_of_inOrder hlater hvs hb
      exact ⟨v, y, s, u, rfl, hy, hv, honward, hmatched⟩
    | succ i => exact ih hlater hvs (Nat.lt_of_succ_lt_succ hij) ha hb

/-- Attempts that succeed as often as there is room for, or until one fails, are rounds. -/
theorem rounds_of_gather {a : Attempt α τ} {full : Outcome (List τ)}
    (hfull : ∀ values, full = .matched values → values = []) {room : Nat} {s : Scan α}
    {values : List τ} (h : (gather full a room s).run.outcome = .matched values) :
    ∃ t, Rounds a s values t := by
  induction room generalizing s values with
  | zero =>
    obtain rfl := hfull values h
    exact ⟨s, .done s⟩
  | succ room ih =>
    rcases gather_cases full a room s with ⟨x, hx, hrun⟩ | ⟨o, hrun, hempty, -⟩
    · rw [hrun] at h
      obtain ⟨later, hlater, rfl⟩ :=
        matched_of_map (a := fun s => (Attempt.gather full a room s).run) h
      obtain ⟨t, hrounds⟩ := ih hlater
      exact ⟨t, .round ⟨hx, rfl⟩ hrounds⟩
    · rw [hrun] at h
      obtain rfl := hempty values h
      exact ⟨s, .done s⟩

/-- The spans of rounds are in order, and none of them starts in front of the first round. -/
theorem Rounds.spans_inTurn {a : Attempt α τ} (onward : Moves Onward a) {s t : Scan α}
    {values : List (τ × Span)} (h : Rounds a.spanned s values t) :
    values.Pairwise (fun x y => x.2.stop ≤ y.2.start) ∧ ∀ x ∈ values, s.position ≤ x.2.start := by
  induction h with
  | done s => exact ⟨.nil, by rintro _ ⟨⟩⟩
  | @round s s₁ s₂ x values first later ih =>
    obtain ⟨hpairs, hbehind⟩ := ih
    have hspan := (matched_of_spanned first.outcome).2
    have hscan : (a s).scan = s₁ := (scan_spanned a s).symm.trans first.scan
    have hle : s.position ≤ s₁.position := by
      rw [← hscan]
      exact (onward s).position_le
    have hstart : x.2.start = s.position := congrArg Span.start hspan
    have hstop : x.2.stop = s₁.position := by rw [hspan, hscan]
    refine ⟨List.pairwise_cons.mpr ⟨fun y hy => ?_, hpairs⟩, fun y hy => ?_⟩
    · have := hbehind y hy
      omega
    · rcases List.mem_cons.mp hy with rfl | hlater
      · exact Nat.le_of_eq hstart.symm
      · have := hbehind y hlater
        omega

end Attempt

/-! ## The spans of a run -/

namespace Matcher

open Attempt

variable [BEq α]

section Values

variable (g : Grammar α ρ) (bound : Nat) {s : Scan α}

/-- Of two parts of a sequence that give their spans, the span of the later one is behind. -/
theorem stop_le_start_of_inOrder {n : Nat} {parts : Fin n → Matcher α ρ (σ × Span)} {i j : Fin n}
    {first second : Matcher α ρ σ} {values : List (σ × Span)} (hij : i < j)
    (hfirst : parts i = spanned first) (hsecond : parts j = spanned second)
    (h : ((inOrder parts).run g bound s).outcome = .matched values) :
    ∃ x y, values[i]? = some x ∧ values[j]? = some y ∧ x.2.stop ≤ y.2.start := by
  have hmoves : ∀ a ∈ List.ofFn fun i => (parts i).run g bound, Moves Onward a := by
    intro a ha
    obtain ⟨i, rfl⟩ := List.mem_ofFn.mp ha
    exact (parts i).run_moves kept_onward g bound
  have hpart : ∀ i : Fin n, (List.ofFn fun i => (parts i).run g bound)[i.val]? =
      some ((parts i).run g bound) := by
    intro i
    rw [List.getElem?_ofFn, dif_pos i.isLt]
  obtain ⟨x, y, t, u, hx, hy, hmatched, between, hmatched'⟩ :=
    matched_of_inOrder_of_lt hmoves h hij (hpart i) (hpart j)
  rw [hfirst] at hmatched between
  rw [hsecond] at hmatched'
  exact ⟨x, y, hx, hy, stop_le_start hmatched between hmatched'⟩

theorem stop_le_start_of_both {first : Matcher α ρ σ} {second : Matcher α ρ τ} {x : σ × Span}
    {y : τ × Span}
    (h : ((both (spanned first) (spanned second)).run g bound s).outcome = .matched (x, y)) :
    x.2.stop ≤ y.2.start := by
  obtain ⟨x', hx, hrest, -⟩ := matched_of_andThen h
  obtain ⟨y', hy, hpair⟩ := matched_of_map hrest
  obtain ⟨rfl, rfl⟩ := Prod.mk.inj hpair
  exact stop_le_start hx (.refl _) hy

theorem stop_le_start_of_repeated {times : Repetition} {body : Matcher α ρ σ}
    {values : List (σ × Span)}
    (h : ((repeated times (spanned body)).run g bound s).outcome = .matched values) :
    values.Pairwise fun x y => x.2.stop ≤ y.2.start := by
  obtain ⟨hgathered, -⟩ := matched_of_repeated h
  obtain ⟨t, hrounds⟩ := rounds_of_gather (fun _ => eq_nil_of_full) hgathered
  exact (hrounds.spans_inTurn (body.run_moves kept_onward g bound)).1

end Values

/-- The spans of a run over a stream.

    * Each span that is reported in the course of the run ends where it starts or behind that, and
      lies between the two ends of the run, which does not leave the stream.  So it has a length.
    * A span that is reported inside another one is contained in it.
    * Of spans that are reported one after the other, at any depth, the earlier one ends where the
      later one starts, or in front of that.
    * A match that gives its span has reported it, with what it reported besides inside.
    * The spans that parts of a sequence, two things one after the other, or the rounds of a
      repetition give do not overlap and are in order. -/
theorem spans_run (g : Grammar α ρ) (bound : Nat) (m : Matcher α ρ τ) {xs : List α} {s : Scan α}
    (place : s.cursor.Over xs) :
    let r := m.run g bound s
    (∀ span inside, Occurs (.spanned span inside) r.trace →
      s.position ≤ span.start ∧ span.start ≤ span.stop ∧ span.stop ≤ r.scan.position ∧
        r.scan.position ≤ xs.length ∧ span.length = .ok (span.stop - span.start) ∧
        ∀ inner deeper, Occurs (.spanned inner deeper) inside →
          span.start ≤ inner.start ∧ inner.stop ≤ span.stop) ∧
    (∀ trace, (trace = r.trace ∨ ∃ event, Occurs event r.trace ∧ trace = event.inside) →
      Trace.InTurn trace) ∧
    (∀ {σ : Type} (body : Matcher α ρ σ) value span,
      ((spanned body).run g bound s).outcome = .matched (value, span) →
      ((spanned body).run g bound s).trace = [.spanned span (body.run g bound s).trace]) ∧
    (∀ {σ : Type} {n : Nat} (parts : Fin n → Matcher α ρ (σ × Span)) (i j : Fin n)
      (first second : Matcher α ρ σ) values, i < j → parts i = spanned first →
      parts j = spanned second → ((inOrder parts).run g bound s).outcome = .matched values →
      ∃ x y, values[i]? = some x ∧ values[j]? = some y ∧ x.2.stop ≤ y.2.start) ∧
    (∀ {π σ : Type} (first : Matcher α ρ π) (second : Matcher α ρ σ) x y,
      ((both (spanned first) (spanned second)).run g bound s).outcome = .matched (x, y) →
      x.2.stop ≤ y.2.start) ∧
    (∀ {σ : Type} (times : Repetition) (body : Matcher α ρ σ) values,
      ((repeated times (spanned body)).run g bound s).outcome = .matched values →
      values.Pairwise fun x y => x.2.stop ≤ y.2.start) := by
  intro r
  have hfits := m.trace_fits g bound s
  have hend : r.scan.position ≤ xs.length := by
    obtain ⟨taken, htook⟩ := (m.run_onward g bound s).took
    exact htook.position_le place
  refine ⟨fun span inside hspan => ?_, ?_, fun body value span => trace_of_spanned,
    fun parts i j first second values => stop_le_start_of_inOrder g bound,
    fun first second x y => stop_le_start_of_both g bound,
    fun times body values => stop_le_start_of_repeated g bound⟩
  · obtain ⟨hstart, hinside, hstop⟩ := hfits.span hspan
    refine ⟨hstart, hinside.le, hstop, hend, Span.length_of_le hinside.le, ?_⟩
    intro inner deeper hinner
    obtain ⟨hfrom, -, hto⟩ := hinside.span hinner
    exact ⟨hfrom, hto⟩
  · rintro trace (rfl | ⟨event, hevent, rfl⟩)
    · exact hfits.inTurn
    · obtain ⟨lo, hi, -, hplaced, -⟩ := hevent.fits hfits
      obtain ⟨lo', hi', -, hinside, -⟩ := hplaced.inside
      exact hinside.inTurn

/-- Pairs of letters, the first of them with a span of its own.  The third round is given up after
    its first letter: the span of that one is reported by itself, behind those of the other rounds. -/
theorem spans_run_given_up :
    let pair : Matcher Char NoRule ((Char × Span) × Char) := both (spanned (item 'a')) (item 'b')
    let xs := ['a', 'b', 'a', 'b', 'a', ';']
    let s := Scan.ofList xs
    let r := (zeroOrMore (spanned pair)).run .empty 4 s
    s.cursor.Over xs ∧ r.outcome = .matched [((('a', ⟨0, 1⟩), 'b'), ⟨0, 2⟩),
      ((('a', ⟨2, 3⟩), 'b'), ⟨2, 4⟩)] ∧
    r.trace = [.repeated 0 3 [.spanned ⟨0, 2⟩ [.spanned ⟨0, 1⟩ []],
      .spanned ⟨2, 4⟩ [.spanned ⟨2, 3⟩ []], .spanned ⟨4, 5⟩ []]] ∧
    (∀ span inside, Occurs (.spanned span inside) r.trace →
      span.start ≤ span.stop ∧ span.stop ≤ 5 ∧ span.length = .ok (span.stop - span.start)) ∧
    Trace.InTurn r.trace := by
  intro pair xs s r
  have place : s.cursor.Over xs := Cursor.over_ofList xs
  have hposition : r.scan.position = 5 := by cbv
  obtain ⟨hspans, hturn, -⟩ := spans_run .empty 4 (zeroOrMore (spanned pair)) place
  refine ⟨place, by cbv, by cbv, fun span inside hspan => ?_, hturn _ (Or.inl rfl)⟩
  obtain ⟨-, hends, hstop, -, hlength, -⟩ := hspans span inside hspan
  exact ⟨hends, Nat.le_trans hstop (Nat.le_of_eq hposition), hlength⟩

end Matcher
end Forward
