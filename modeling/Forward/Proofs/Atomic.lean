/-
  Atomic failures: when nothing is lost by never putting anything back.

  A matcher is atomic if it leaves the scan as it was wherever it fails.  `AtomicForms` says which
  forms are atomic by themselves and which are if their parts are: what reads at most one element,
  what cannot fail, and what fails only where its first part does.

  A match goes on after a failure in three places: from a choice to a later one, behind the last
  round of a repetition, and past something that may be missing.  `Matcher.runRestoring` puts the
  scan back there, as it was before the attempt that failed.  If only atomic matchers are tried in
  these places, in whatever the match can come to, then putting back changes nothing
  (`Matcher.run_transactional`).
-/
import Forward.Proofs.Reach

namespace Forward

variable {α σ τ : Type} {ρ : Type → Type}

namespace Attempt

/-- Wherever the attempt fails, it leaves the scan as it was. -/
def Atomic (a : Attempt α τ) : Prop := ∀ s, (a s).outcome = .failed → (a s).scan = s

/-- The attempt never fails. -/
def Sure (a : Attempt α τ) : Prop := ∀ s, (a s).outcome ≠ .failed

theorem Sure.atomic {a : Attempt α τ} (h : Sure a) : Atomic a := fun s hs => absurd hs (h s)

/-! ## Where a failure comes from -/

/-- Making something of every value adds no failure. -/
theorem failed_of_map {a : Attempt α σ} {f : σ → τ} {s : Scan α}
    (h : (a.map f s).outcome = .failed) : (a s).outcome = .failed := by
  unfold Attempt.map Run.map Run.withOutcome Outcome.map Outcome.bind at h
  cases hx : (a s).outcome with
  | failed => rfl
  | _ => simp only [hx, reduceCtorEq] at h

theorem failed_of_andThen {a : Attempt α σ} {next : σ → Attempt α τ} {s : Scan α}
    (h : (a.andThen next s).outcome = .failed) :
    ((a s).outcome = .failed ∧ (a.andThen next s).scan = (a s).scan) ∨
      ∃ x, (a s).outcome = .matched x ∧ (next x (a s).scan).outcome = .failed ∧
        (a.andThen next s).scan = (next x (a s).scan).scan := by
  unfold Attempt.andThen at h ⊢
  cases hx : (a s).outcome with
  | matched x =>
    simp only [hx] at h ⊢
    exact Or.inr ⟨x, rfl, h, rfl⟩
  | failed =>
    simp only [hx]
    exact Or.inl ⟨trivial, rfl⟩
  | _ => simp only [hx] at h; cases h

/-! ## Single elements -/

theorem atomic_take (choose : α → Option τ) : Atomic (take choose) := by
  intro s h
  cases hrem : s.cursor.remaining with
  | cons x xs =>
    rw [take_of_remaining hrem] at h ⊢
    cases hx : choose x with
    | none => rfl
    | some value => rw [hx] at h; cases h
  | nil =>
    rw [take_of_exhausted hrem] at h ⊢
    cases hshown : s.cursor.shown with
    | none => rfl
    | some last =>
      cases hlast : choose last with
      | none => simp only [hlast]
      | some value => simp only [hshown, hlast, reduceCtorEq] at h

theorem atomic_backreference [BEq α] (name : String) :
    Atomic (backreference name : Attempt α α) := by
  intro s
  unfold backreference
  cases s.captures.get? name with
  | none => exact fun _ => rfl
  | some value => exact atomic_take _ s

theorem scan_look (s : Scan α) : (look s).scan = s := by
  unfold look
  split <;> rfl

theorem sure_look : Sure (look : Attempt α α) := by
  intro s
  unfold look
  split <;> rintro ⟨⟩

/-! ## One after the other -/

theorem Sure.andThen {a : Attempt α σ} {next : σ → Attempt α τ} (h : Sure a)
    (k : ∀ x, Sure (next x)) : Sure (a.andThen next) := by
  intro s hs
  rcases failed_of_andThen hs with ⟨hfirst, -⟩ | ⟨x, -, hnext, -⟩
  · exact h s hfirst
  · exact k x _ hnext

theorem Sure.map {a : Attempt α σ} (h : Sure a) (f : σ → τ) : Sure (a.map f) :=
  fun s hs => h s (failed_of_map hs)

theorem sure_inOrder {as : List (Attempt α τ)} (h : ∀ a ∈ as, Sure a) : Sure (inOrder as) := by
  induction as with
  | nil => rintro s ⟨⟩
  | cons a as ih =>
    obtain ⟨hfirst, hlater⟩ := List.forall_mem_cons.mp h
    exact hfirst.andThen fun _ => (ih hlater).map _

theorem Atomic.map {a : Attempt α σ} (h : Atomic a) (f : σ → τ) : Atomic (a.map f) :=
  fun s hs => h s (failed_of_map hs)

/-- If what comes later cannot fail, only the first attempt does. -/
theorem Atomic.andThen {a : Attempt α σ} {next : σ → Attempt α τ} (h : Atomic a)
    (k : ∀ x, Sure (next x)) : Atomic (a.andThen next) := by
  intro s hs
  rcases failed_of_andThen hs with ⟨hfirst, hscan⟩ | ⟨x, -, hnext, -⟩
  · rw [hscan]
    exact h s hfirst
  · exact absurd hnext (k x _)

/-- A look in front of an attempt takes nothing. -/
theorem atomic_look_andThen {next : α → Attempt α τ} (h : ∀ x, Atomic (next x)) :
    Atomic (look.andThen next) := by
  intro s hs
  rcases failed_of_andThen hs with ⟨hfirst, -⟩ | ⟨x, -, hnext, hscan⟩
  · exact absurd hfirst (sure_look s)
  · rw [scan_look] at hnext hscan
    rw [hscan]
    exact h x s hnext

theorem Atomic.inOrder {a : Attempt α τ} {as : List (Attempt α τ)} (h : Atomic a)
    (k : ∀ b ∈ as, Sure b) : Atomic (inOrder (a :: as)) :=
  h.andThen fun _ => (sure_inOrder k).map _

/-! ## One or the other -/

theorem Atomic.either {a b : Attempt α τ} (h : Atomic a) (k : Atomic b) : Atomic (a.either b) := by
  intro s hs
  rcases a.either_cases b s with ⟨hfirst, hrun⟩ | ⟨hfirst, hrun⟩
  · -- the second attempt starts where the first one did
    rw [hrun, h s hfirst] at hs ⊢
    exact k s hs
  · rw [hrun] at hs
    exact absurd hs hfirst

theorem atomic_firstOf {as : List (Attempt α τ)} (h : ∀ a ∈ as, Atomic a) :
    Atomic (firstOf as) := by
  induction as with
  | nil => exact fun _ _ => rfl
  | cons a as ih =>
    obtain ⟨hfirst, hlater⟩ := List.forall_mem_cons.mp h
    exact hfirst.either (ih hlater)

/-- A choice never fails if one of its branches never does. -/
theorem sure_firstOf {as : List (Attempt α τ)} (h : ∃ a ∈ as, Sure a) : Sure (firstOf as) := by
  induction as with
  | nil => obtain ⟨a, ha, -⟩ := h; cases ha
  | cons a as ih =>
    intro s hs
    obtain ⟨b, hb, hsure⟩ := h
    rcases a.either_cases (firstOf as) s with ⟨hfailed, hrun⟩ | ⟨hnot, hrun⟩
    · rw [firstOf, hrun] at hs
      rcases List.mem_cons.mp hb with rfl | hb
      · exact hsure s hfailed
      · exact ih ⟨b, hb, hsure⟩ _ hs
    · rw [firstOf, hrun] at hs
      exact hnot hs

theorem sure_optional (a : Attempt α τ) : Sure a.optional := by
  intro s hs
  unfold Attempt.optional at hs
  cases hx : (a s).outcome <;> simp only [hx] at hs <;> cases hs

/-! ## Again and again -/

theorem full_ne_failed (times : Repetition) : (full times : Outcome (List τ)) ≠ .failed := by
  unfold full
  split <;> rintro ⟨⟩

/-- Rounds in a bounded room are no more than it has room for. -/
theorem length_le_of_gather {full : Outcome (List τ)}
    (hfull : ∀ values, full = .matched values → values = []) {a : Attempt α τ} {room : Nat}
    {s : Scan α} {values : List τ} (h : (gather full a room s).run.outcome = .matched values) :
    values.length ≤ room := by
  induction room generalizing s values with
  | zero =>
    rw [hfull values h]
    exact Nat.le_refl 0
  | succ room ih =>
    rcases gather_cases full a room s with ⟨x, -, hrun⟩ | ⟨o, hrun, hempty, -⟩
    · rw [hrun] at h
      have hmap : (gather full a room (a s).scan).run.outcome.map (x :: ·) = .matched values := h
      cases ho : (gather full a room (a s).scan).run.outcome with
      | matched later =>
        rw [ho] at hmap
        obtain rfl : x :: later = values := Outcome.matched.inj hmap
        exact Nat.succ_le_succ (ih ho)
      | _ => rw [ho] at hmap; cases hmap
    · rw [hrun] at h
      rw [hempty values h]
      exact Nat.zero_le _

/-- A failure ends the rounds and is none of the whole. -/
theorem gather_ne_failed {full : Outcome (List τ)} (hfull : full ≠ .failed) (a : Attempt α τ)
    (room : Nat) (s : Scan α) : (gather full a room s).run.outcome ≠ .failed := by
  induction room generalizing s with
  | zero => exact hfull
  | succ room ih =>
    have hlater := ih (a s).scan
    unfold gather
    cases hx : (a s).outcome with
    | matched x =>
      simp only [hx]
      show Outcome.map _ _ ≠ .failed
      cases ho : (gather full a room (a s).scan).run.outcome with
      | failed => exact absurd ho hlater
      | _ => rintro ⟨⟩
    | _ =>
      simp only [hx]
      rintro ⟨⟩

/-- Where the first round fails there is none, and nothing is lost. -/
theorem Atomic.gather {a : Attempt α τ} (h : Atomic a) {full : Outcome (List τ)} {room : Nat}
    {s : Scan α} (hnone : (gather full a room s).run.outcome = .matched []) :
    (Attempt.gather full a room s).run.scan = s := by
  cases room with
  | zero => rfl
  | succ room =>
    unfold Attempt.gather at hnone ⊢
    cases hx : (a s).outcome with
    | matched x =>
      simp only [hx] at hnone
      have hmap : (Attempt.gather full a room (a s).scan).run.outcome.map (x :: ·) = .matched [] :=
        hnone
      cases ho : (Attempt.gather full a room (a s).scan).run.outcome <;> rw [ho] at hmap <;>
        cases hmap
    | failed =>
      simp only [hx]
      exact h s hx
    | _ => simp only [hx] at hnone; cases hnone

/-- There is never a round too many. -/
theorem admits_of_gathered {a : Attempt α τ} {times : Repetition} {limit : Nat} {s : Scan α}
    {values : List τ} (h : (a.gathered times limit s).outcome = .matched values)
    (least : times.least.toNat ≤ values.length) : times.admits values.length = true := by
  unfold Repetition.admits
  rw [Bool.and_eq_true]
  refine ⟨decide_eq_true least, ?_⟩
  cases hmost : times.most with
  | none => rfl
  | some most =>
    have hlength := length_le_of_gather (fun _ hfull => eq_nil_of_full hfull) h
    rw [room, hmost] at hlength
    exact decide_eq_true hlength

/-- A repetition that needs no round never fails. -/
theorem sure_repeated {times : Repetition} (least : times.least.toNat = 0) (limit : Nat)
    (a : Attempt α τ) : Sure (a.repeated times limit) := by
  intro s hs
  rw [outcome_repeated] at hs
  cases ho : (a.gathered times limit s).outcome with
  | matched values =>
    rw [ho] at hs
    have hcount : counted times values = .failed := hs
    rw [counted, admits_of_gathered ho (by omega)] at hcount
    cases hcount
  | failed => exact gather_ne_failed (full_ne_failed times) a (room times limit) s ho
  | _ => rw [ho] at hs; cases hs

/-- A repetition that needs no more than one round fails only where the first one does. -/
theorem Atomic.repeated {a : Attempt α τ} (h : Atomic a) {times : Repetition}
    (least : times.least.toNat ≤ 1) (limit : Nat) : Atomic (a.repeated times limit) := by
  intro s hs
  rw [outcome_repeated] at hs
  rw [scan_repeated]
  cases ho : (a.gathered times limit s).outcome with
  | matched values =>
    rw [ho] at hs
    have hcount : counted times values = .failed := hs
    -- one round would be enough
    cases values with
    | nil => exact h.gather ho
    | cons x later =>
      have hleast : times.least.toNat ≤ (x :: later).length := by
        rw [List.length_cons]
        omega
      rw [counted, admits_of_gathered ho hleast] at hcount
      cases hcount
  | failed => exact absurd ho (gather_ne_failed (full_ne_failed times) a (room times limit) s)
  | _ => rw [ho] at hs; cases hs

/-! ## Remembering -/

theorem Atomic.capture {a : Attempt α α} (h : Atomic a) (name : String) :
    Atomic (a.capture name) := by
  intro s hs
  unfold Attempt.capture at hs ⊢
  cases hx : (a s).outcome with
  | failed =>
    simp only [hx]
    exact h s hx
  | _ => simp only [hx, reduceCtorEq] at hs

theorem Atomic.spanned {a : Attempt α τ} (h : Atomic a) : Atomic a.spanned := by
  intro s hs
  unfold Attempt.spanned at hs ⊢
  cases hx : (a s).outcome with
  | failed =>
    simp only [hx]
    exact h s hx
  | _ => simp only [hx] at hs; cases hs

/-! ## Putting back -/

/-- The attempt, with the scan put back where it fails. -/
def restoring (a : Attempt α τ) : Attempt α τ := fun s =>
  let r := a s
  match r.outcome with
  | .failed => { r with scan := s }
  | .matched _ => r
  | .ended _ => r
  | .unfinished => r

/-- The attempts of a list in turn, until one does not fail; in front of each but the first one the
    scan is put back. -/
def firstOfRestoring : List (Attempt α τ) → Attempt α τ
  | [] => fail
  | [a] => a
  | a :: b :: later => a.restoring.either (firstOfRestoring (b :: later))

/-- There is nothing to put back after an atomic failure. -/
theorem Atomic.restoring_eq {a : Attempt α τ} (h : Atomic a) : a.restoring = a := by
  funext s
  unfold restoring
  cases hx : (a s).outcome with
  | failed =>
    simp only [hx]
    have hscan := h s hx
    calc Run.mk .failed s (a s).trace
        = Run.mk (a s).outcome (a s).scan (a s).trace := by rw [hx, hscan]
      _ = a s := rfl
  | _ => simp only [hx]

/-- If all choices but the last one are atomic, there is nothing to put back. -/
theorem firstOfRestoring_eq {n : Nat} {choices : Fin n → Attempt α τ}
    (h : ∀ i j, i < j → Atomic (choices i)) :
    firstOfRestoring (List.ofFn choices) = firstOf (List.ofFn choices) := by
  induction n with
  | zero => rfl
  | succ n ih =>
    have hlater := ih fun i j hij => h i.succ j.succ (Fin.succ_lt_succ_iff.mpr hij)
    cases n with
    | zero => exact (firstOf_singleton (choices 0)).symm
    | succ n =>
      have hfirst : Atomic (choices 0) := h 0 1 Fin.zero_lt_one
      rw [List.ofFn_succ, firstOf, ← hlater, List.ofFn_succ, firstOfRestoring, hfirst.restoring_eq]

theorem andThen_congr {a : Attempt α σ} {next later : σ → Attempt α τ}
    (h : ∀ s x, (a s).outcome = .matched x → next x = later x) :
    a.andThen next = a.andThen later := by
  funext s
  unfold andThen
  cases hx : (a s).outcome with
  | matched x => simp only [hx, h s x hx]
  | _ => simp only [hx]

end Attempt

/-! ## Matchers and grammars -/

section

variable [BEq α]

/-- How a matcher is attempted if the scan is put back wherever the match goes on after a failure.
    As before, `expand` attempts a rule, and `limit` bounds each repetition that has no bound of its
    own. -/
def Matcher.attemptRestoring (expand : (τ : Type) → ρ τ → Attempt α τ) (limit : Nat) :
    {τ : Type} → Matcher α ρ τ → Attempt α τ
  | _, .satisfy p => Attempt.satisfy p
  | _, .symbol table => Attempt.take table
  | _, .peek => Attempt.look
  | _, .pure value => Attempt.succeed value
  | _, .inOrder parts =>
    Attempt.inOrder (List.ofFn fun i => (parts i).attemptRestoring expand limit)
  | _, .firstOf choices =>
    Attempt.firstOfRestoring (List.ofFn fun i => (choices i).attemptRestoring expand limit)
  | _, .both first second =>
    (first.attemptRestoring expand limit).both (second.attemptRestoring expand limit)
  | _, .either first second =>
    (first.attemptRestoring expand limit).restoring.either (second.attemptRestoring expand limit)
  | _, .repeated times body =>
    (body.attemptRestoring expand limit).restoring.repeated times limit
  | _, .optional body => (body.attemptRestoring expand limit).restoring.optional
  | _, .map f body => (body.attemptRestoring expand limit).map f
  | _, .filterMap f body => (body.attemptRestoring expand limit).filterMap f
  | _, .andThen first next =>
    (first.attemptRestoring expand limit).andThen fun value =>
      (next value).attemptRestoring expand limit
  | _, .rule name => (expand _ name).expansion
  | _, .capture name body => (body.attemptRestoring expand limit).capture name
  | _, .backreference name => Attempt.backreference name
  | _, .spanned body => (body.attemptRestoring expand limit).spanned
  | _, .consuming body => (body.attemptRestoring expand limit).consuming

/-- How a rule is attempted in this way with `bound` rules inside one another. -/
def Grammar.expandRestoring (g : Grammar α ρ) : Nat → (τ : Type) → ρ τ → Attempt α τ
  | 0, _, _ => Attempt.giveUp
  | bound + 1, τ, name => (g τ name).attemptRestoring (g.expandRestoring bound) bound

/-- Attempt a matcher where a scan stands, and put the scan back wherever the match goes on after a
    failure. -/
def Matcher.runRestoring (g : Grammar α ρ) (bound : Nat) (m : Matcher α ρ τ) : Attempt α τ :=
  m.attemptRestoring (g.expandRestoring bound) bound

namespace Matcher

/-- Wherever a match of `m` fails, it leaves the scan as it was. -/
def Atomic (g : Grammar α ρ) (m : Matcher α ρ τ) : Prop := ∀ bound, (m.run g bound).Atomic

/-- No match of `m` fails. -/
def Sure (g : Grammar α ρ) (m : Matcher α ρ τ) : Prop := ∀ bound, (m.run g bound).Sure

/-- What is tried with something else to go on with is atomic: every choice but the last one, the
    body of a repetition, and what may be missing. -/
def Guarded (g : Grammar α ρ) : {τ : Type} → Matcher α ρ τ → Prop
  | _, .firstOf choices => ∀ i j, i < j → (choices i).Atomic g
  | _, .either first _ => first.Atomic g
  | _, .repeated _ body => body.Atomic g
  | _, .optional body => body.Atomic g
  | _, _ => True

/-- All that a match of `m` can come to is guarded. -/
def Committed (g : Grammar α ρ) (m : Matcher α ρ τ) : Prop :=
  ∀ {σ : Type} (k : Matcher α ρ σ), Reaches g m k → k.Guarded g

end Matcher

/-- Which forms are atomic, and which are if their parts are. -/
structure AtomicForms (g : Grammar α ρ) : Prop where
  satisfy : ∀ p, (.satisfy p : Matcher α ρ α).Atomic g
  symbol : ∀ {τ : Type} (table : α → Option τ), (.symbol table : Matcher α ρ τ).Atomic g
  backreference : ∀ name, (.backreference name : Matcher α ρ α).Atomic g
  peek : (.peek : Matcher α ρ α).Atomic g
  pure : ∀ {τ : Type} (value : τ), (.pure value : Matcher α ρ τ).Atomic g
  optional : ∀ {τ : Type} (body : Matcher α ρ τ), (Matcher.optional body).Atomic g
  firstOf : ∀ {τ : Type} {n : Nat} {choices : Fin n → Matcher α ρ τ},
    (∀ i, (choices i).Atomic g) → (Matcher.firstOf choices).Atomic g
  either : ∀ {τ : Type} {first second : Matcher α ρ τ}, first.Atomic g → second.Atomic g →
    (Matcher.either first second).Atomic g
  map : ∀ {σ τ : Type} {body : Matcher α ρ σ}, body.Atomic g → ∀ f : σ → τ,
    (Matcher.map f body).Atomic g
  spanned : ∀ {τ : Type} {body : Matcher α ρ τ}, body.Atomic g → (Matcher.spanned body).Atomic g
  capture : ∀ {body : Matcher α ρ α}, body.Atomic g → ∀ name,
    (Matcher.capture name body).Atomic g
  rule : ∀ {τ : Type} {name : ρ τ}, (g τ name).Atomic g → (Matcher.rule name).Atomic g
  /-- A look in front of a matcher that is chosen by what it shows. -/
  peekThen : ∀ {τ : Type} {next : α → Matcher α ρ τ}, (∀ x, (next x).Atomic g) →
    (Matcher.andThen .peek next).Atomic g
  /-- A repetition that needs no more than one round. -/
  repeated : ∀ {τ : Type} {body : Matcher α ρ τ}, body.Atomic g → ∀ {times : Repetition},
    times.least.toNat ≤ 1 → (Matcher.repeated times body).Atomic g
  /-- A first part, and later ones that never fail. -/
  inOrder : ∀ {τ : Type} {n : Nat} {parts : Fin (n + 1) → Matcher α ρ τ}, (parts 0).Atomic g →
    (∀ i : Fin n, (parts i.succ).Sure g) → (Matcher.inOrder parts).Atomic g
  both : ∀ {σ τ : Type} {first : Matcher α ρ σ} {second : Matcher α ρ τ}, first.Atomic g →
    second.Sure g → (Matcher.both first second).Atomic g

open Attempt

theorem atomicForms (g : Grammar α ρ) : AtomicForms g where
  satisfy p _ := atomic_take _
  symbol table _ := atomic_take table
  backreference name _ := atomic_backreference name
  peek _ := sure_look.atomic
  pure value _ := by rintro s ⟨⟩
  optional body _ := (sure_optional _).atomic
  firstOf h bound := by
    refine atomic_firstOf fun a ha => ?_
    obtain ⟨i, rfl⟩ := List.mem_ofFn.mp ha
    exact h i bound
  either h k bound := (h bound).either (k bound)
  map h f bound := (h bound).map f
  spanned h bound := (h bound).spanned
  capture h name bound := (h bound).capture name
  rule h bound := by
    cases bound with
    | zero => rintro s ⟨⟩
    | succ bound => exact h bound
  peekThen h bound := atomic_look_andThen fun x => h x bound
  repeated h _ least bound := (h bound).repeated least bound
  inOrder {_ _ parts} h k bound := by
    show Attempt.Atomic (Attempt.inOrder (List.ofFn fun i => (parts i).run g bound))
    rw [List.ofFn_succ]
    refine (h bound).inOrder fun b hb => ?_
    obtain ⟨i, rfl⟩ := List.mem_ofFn.mp hb
    exact k i bound
  both h k bound := (h bound).andThen fun _ => (k bound).map _

/-- In what a committed match can come to, putting back changes nothing if it does not in the
    rules. -/
theorem Reaches.runRestoring_eq_of_rules {g : Grammar α ρ} {m : Matcher α ρ τ}
    (committed : m.Committed g) (bound : Nat)
    (rules : ∀ {σ : Type} (name : ρ σ), Reaches g m (.rule name) →
      g.expandRestoring bound σ name = g.expand bound σ name)
    {k : Matcher α ρ σ} (h : Reaches g m k) : k.runRestoring g bound = k.run g bound := by
  unfold Matcher.runRestoring Matcher.run
  induction k with
  | satisfy | symbol | peek | pure | backreference => rfl
  | inOrder parts ih =>
    have hparts := funext fun i => ih i (h.part i)
    exact congrArg (fun f => Attempt.inOrder (List.ofFn f)) hparts
  | firstOf choices ih =>
    have hchoices := funext fun i => ih i (h.choice i)
    have hatomic : ∀ i j, i < j → ((choices i).attempt (g.expand bound) bound).Atomic :=
      fun i j hij => committed _ h i j hij bound
    rw [Matcher.attemptRestoring, hchoices]
    exact firstOfRestoring_eq hatomic
  | both first second ihFirst ihSecond =>
    rw [Matcher.attemptRestoring, ihFirst h.bothFirst, ihSecond h.bothSecond]
    rfl
  | either first second ihFirst ihSecond =>
    have hatomic : (first.attempt (g.expand bound) bound).Atomic := committed _ h bound
    rw [Matcher.attemptRestoring, ihFirst h.eitherFirst, ihSecond h.eitherSecond,
      hatomic.restoring_eq]
    rfl
  | repeated times body ih =>
    have hatomic : (body.attempt (g.expand bound) bound).Atomic := committed _ h bound
    rw [Matcher.attemptRestoring, ih h.round, hatomic.restoring_eq]
    rfl
  | optional body ih =>
    have hatomic : (body.attempt (g.expand bound) bound).Atomic := committed _ h bound
    rw [Matcher.attemptRestoring, ih h.optional, hatomic.restoring_eq]
    rfl
  | map f body ih => exact congrArg (Attempt.map f) (ih h.map)
  | filterMap f body ih => exact congrArg (Attempt.filterMap f) (ih h.filterMap)
  | andThen first next ihFirst ihNext =>
    rw [Matcher.attemptRestoring, ihFirst h.andThen]
    -- what comes after a value need only agree for the values that there can be
    exact andThen_congr fun _ x hx => ihNext x (h.next hx)
  | rule name => exact congrArg Attempt.expansion (rules name h)
  | capture name body ih => exact congrArg (Attempt.capture name) (ih h.capture)
  | spanned body ih => exact congrArg Attempt.spanned (ih h.spanned)
  | consuming body ih => exact congrArg Attempt.consuming (ih h.consuming)

/-- In everything that is reached from a committed matcher, putting back changes nothing. -/
theorem Reaches.runRestoring_eq_run {g : Grammar α ρ} {m : Matcher α ρ τ}
    (committed : m.Committed g) (bound : Nat) {k : Matcher α ρ σ} (h : Reaches g m k) :
    k.runRestoring g bound = k.run g bound := by
  induction bound generalizing σ with
  | zero => exact h.runRestoring_eq_of_rules committed 0 fun _ _ => rfl
  | succ bound ih =>
    exact h.runRestoring_eq_of_rules committed (bound + 1) fun name hname => ih hname.rule

/-- What reads at most one element or cannot fail is atomic, and so is what fails only where an
    atomic part does (`AtomicForms`).  If a match of `m` tries nothing but atomic matchers where it
    goes on after their failure, then its runs are those of the engine that puts cursor and captures
    back before it goes on: they come out alike, report the same and leave the same scan.  This
    holds for every bound, and so for every run that comes to an answer. -/
theorem Matcher.run_transactional (g : Grammar α ρ) :
    AtomicForms g ∧ ∀ {τ : Type} (m : Matcher α ρ τ), m.Committed g → ∀ (bound : Nat) (s : Scan α),
      m.runRestoring g bound s = m.run g bound s :=
  ⟨atomicForms g, fun _ committed bound s =>
    congrFun (Reaches.self.runRestoring_eq_run committed bound) s⟩

/-- Letters and signs, each letter remembered, and at the end perhaps the last letter once more:
    only single elements are given up, and so nothing is ever put back. -/
theorem Matcher.run_transactional_letters :
    let letter : Matcher Char NoRule Char := .capture "letter" (.elem ['a', 'b'])
    let m : Matcher Char NoRule (List Char × Occurrence Char) :=
      .both (.zeroOrMore (.either letter (.item '+'))) (.optional (.backreference "letter"))
    m.Committed .empty ∧ ∀ bound s, m.runRestoring .empty bound s = m.run .empty bound s := by
  intro letter m
  obtain ⟨forms, hrestoring⟩ := Matcher.run_transactional (α := Char) .empty
  have hletter : letter.Atomic .empty := forms.capture (forms.satisfy _) "letter"
  have hround : (Matcher.either letter (.item '+')).Atomic .empty :=
    forms.either hletter (forms.satisfy _)
  have heach : m.Each fun k => k.Guarded .empty :=
    ⟨trivial, ⟨hround, hletter, ⟨trivial, trivial⟩, trivial⟩, forms.backreference "letter", trivial⟩
  have hcommitted : m.Committed .empty := fun k h => (h.each (fun name => name.elim) heach).here
  exact ⟨hcommitted, hrestoring m hcommitted⟩

/-- Where a choice that is no single element is given up, the two engines differ. -/
example :
    let m : Matcher Char NoRule (Char × Char) :=
      .either (.both (.item 'a') (.item 'b')) (.both (.item 'a') (.item 'c'))
    let s : Scan Char := .ofList ['a', 'c']
    (m.run .empty 1 s).outcome = .failed ∧
      (m.runRestoring .empty 1 s).outcome = .matched ('a', 'c') := by
  decide

end

end Forward
