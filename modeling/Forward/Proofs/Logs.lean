/-
  Logs: what is noted in the course of a run.

  A run does things in many places: in parts that succeed, in choices that are given up, in rounds
  that come to nothing.  A log goes along with the run and notes something wherever an element is
  read and wherever a value is captured, whatever becomes of the part in which it happens.  What is
  noted there is said by a `Ledger`; everything else about a log is said once, by the ways in which
  attempts are built.

  A log accounts for a run if a relation holds between the scan in front, what is noted, what is
  reported, and the scan behind.  A relation that holds where a ledger notes something passes
  through all that is built (`Matcher.accounted_log`).

  Two ledgers are kept.  `Ledger.reads` notes the elements that reads return, and `Ledger.captures`
  the captures that are made.  Nothing is put back, so that no element is returned twice: the
  takings of a run are what stands between its two ends (`Matcher.took_takings`).
-/
import Forward.Proofs.Moves
import Forward.Proofs.Reach

namespace Forward

variable {α ε σ τ : Type} {ρ : Type → Type}

/-- What is noted in the course of an attempt, where a scan stands. -/
abbrev Log (α ε : Type) := Scan α → List ε

namespace Log

/-! ## Each way to build attempts -/

/-- There is nothing to note. -/
def nothing : Log α ε := fun _ => []

/-- What the first attempt notes, and after a success what the next one notes. -/
def andThen (a : Attempt α σ) (first : Log α ε) (next : σ → Log α ε) : Log α ε := fun s =>
  match (a s).outcome with
  | .matched x => first s ++ next x (a s).scan
  | .failed => first s
  | .ended _ => first s
  | .unfinished => first s

/-- What the first attempt notes, and after a failure what the second one notes. -/
def either (a : Attempt α τ) (first second : Log α ε) : Log α ε := fun s =>
  match (a s).outcome with
  | .failed => first s ++ second (a s).scan
  | .matched _ => first s
  | .ended _ => first s
  | .unfinished => first s

/-- What all attempts of a list note, one after the other. -/
def inOrder : List (Attempt α τ × Log α ε) → Log α ε
  | [] => nothing
  | (a, first) :: later => andThen a first fun _ => inOrder later

/-- What the attempts of a list note, until one does not fail. -/
def firstOf : List (Attempt α τ × Log α ε) → Log α ε
  | [] => nothing
  | (a, first) :: later => either a first (firstOf later)

/-- What up to `room` rounds note. -/
def rounds (a : Attempt α τ) (round : Log α ε) : Nat → Log α ε
  | 0 => nothing
  | room + 1 => andThen a round fun _ => rounds a round room

end Log

/-! ## Ledgers -/

/-- What is noted where an element is to be read, and where a value is captured under a name. -/
structure Ledger (α ε : Type) where
  take : {τ : Type} → (α → Option τ) → Log α ε
  capture : String → α → List ε

/-- As for an element equal to the one captured under `name`. -/
def Ledger.backreference [BEq α] (ledger : Ledger α ε) (name : String) : Log α ε := fun s =>
  match s.captures.get? name with
  | none => []
  | some value => ledger.take (fun x => if x == value then some x else none) s

/-- What a matcher notes, where `expand` attempts a rule, `note` is what that notes, and `limit`
    bounds each repetition that has no bound of its own. -/
def Matcher.logOf [BEq α] (ledger : Ledger α ε) (expand : (τ : Type) → ρ τ → Attempt α τ)
    (note : (τ : Type) → ρ τ → Log α ε) (limit : Nat) : {τ : Type} → Matcher α ρ τ → Log α ε
  | _, .satisfy p => ledger.take fun x => if p x then some x else none
  | _, .symbol table => ledger.take table
  | _, .peek => Log.nothing
  | _, .pure _ => Log.nothing
  | _, .inOrder parts => Log.inOrder (List.ofFn fun i =>
    ((parts i).attempt expand limit, (parts i).logOf ledger expand note limit))
  | _, .firstOf choices => Log.firstOf (List.ofFn fun i =>
    ((choices i).attempt expand limit, (choices i).logOf ledger expand note limit))
  | _, .both first second => Log.andThen (first.attempt expand limit)
    (first.logOf ledger expand note limit) fun _ => second.logOf ledger expand note limit
  | _, .either first second => Log.either (first.attempt expand limit)
    (first.logOf ledger expand note limit) (second.logOf ledger expand note limit)
  | _, .repeated times body => Log.rounds (body.attempt expand limit)
    (body.logOf ledger expand note limit) (Attempt.room times limit)
  | _, .optional body => body.logOf ledger expand note limit
  | _, .map _ body => body.logOf ledger expand note limit
  | _, .filterMap _ body => body.logOf ledger expand note limit
  | _, .andThen first next => Log.andThen (first.attempt expand limit)
    (first.logOf ledger expand note limit) fun x => (next x).logOf ledger expand note limit
  | _, .rule name => note _ name
  | _, .capture name body => Log.andThen (body.attempt expand limit)
    (body.logOf ledger expand note limit) fun value _ => ledger.capture name value
  | _, .backreference name => ledger.backreference name
  | _, .spanned body => body.logOf ledger expand note limit
  | _, .consuming body => body.logOf ledger expand note limit

/-- What a rule notes with `bound` rules inside one another. -/
def Grammar.log [BEq α] (g : Grammar α ρ) (ledger : Ledger α ε) :
    Nat → (τ : Type) → ρ τ → Log α ε
  | 0, _, _ => Log.nothing
  | bound + 1, τ, name => (g τ name).logOf ledger (g.expand bound) (g.log ledger bound) bound

/-- What is noted in the course of a run. -/
def Matcher.log [BEq α] (ledger : Ledger α ε) (g : Grammar α ρ) (bound : Nat)
    (m : Matcher α ρ τ) : Log α ε :=
  m.logOf ledger (g.expand bound) (g.log ledger bound) bound

/-! ## What passes from parts to wholes -/

/-- The relation `R`, between a scan in front, what is noted, what is reported and a scan behind,
    holds where the ledger notes something, and passes from parts to wholes.  For captures it is
    needed under the names in `writes` only. -/
structure Ledger.Accounts (ledger : Ledger α ε) (writes : String → Prop)
    (R : Scan α → List ε → Trace α → Scan α → Prop) : Prop where
  nil : ∀ s, R s [] [] s
  append : ∀ {s t u notes later trace events}, R s notes trace t → R t later events u →
    R s (notes ++ later) (trace ++ events) u
  /-- An event that only encloses others changes nothing. -/
  wrap : ∀ {s t notes trace}, R s notes trace t → ∀ event : Trace α → Event α,
    (∀ inside, (event inside).captures = Trace.captures inside) → R s notes [event trace] t
  unbound : ∀ s name, R s [] [.unbound name] s
  take : ∀ {τ : Type} (choose : α → Option τ) (s : Scan α),
    R s (ledger.take choose s) [] (Attempt.take choose s).scan
  capture : ∀ (s : Scan α) name value, writes name → R s (ledger.capture name value)
    [.captured name value s.position] { s with captures := s.captures.capture name value }

namespace Attempt

/-- The relation holds between the two ends of every run, what is noted and what is reported. -/
def Accounted (R : Scan α → List ε → Trace α → Scan α → Prop) (a : Attempt α τ) (log : Log α ε) :
    Prop :=
  ∀ s, R s (log s) (a s).trace (a s).scan

variable {ledger : Ledger α ε} {writes : String → Prop}
  {R : Scan α → List ε → Trace α → Scan α → Prop} (accounts : ledger.Accounts writes R)

include accounts

theorem accounted_succeed (value : τ) : Accounted R (succeed value : Attempt α τ) Log.nothing :=
  accounts.nil

theorem accounted_look : Accounted R (look : Attempt α α) Log.nothing := by
  intro s
  unfold look
  split <;> exact accounts.nil s

theorem accounted_take (choose : α → Option τ) :
    Accounted R (take choose) (ledger.take choose) := by
  intro s
  rw [(take_touches choose s).1]
  exact accounts.take choose s

theorem accounted_backreference [BEq α] (name : String) :
    Accounted R (backreference name : Attempt α α) (ledger.backreference name) := by
  intro s
  unfold backreference Ledger.backreference
  cases s.captures.get? name with
  | none => exact accounts.unbound s name
  | some value => exact accounted_take accounts _ s

theorem Accounted.andThen {a : Attempt α σ} {next : σ → Attempt α τ} {first : Log α ε}
    {later : σ → Log α ε} (h : Accounted R a first)
    (k : ∀ s x, (a s).outcome = .matched x → Accounted R (next x) (later x)) :
    Accounted R (a.andThen next) (Log.andThen a first later) := by
  intro s
  have hfirst := h s
  unfold Attempt.andThen Log.andThen
  cases hx : (a s).outcome with
  | matched x =>
    simp only [hx]
    exact accounts.append hfirst (k s x hx _)
  | _ =>
    simp only [hx]
    exact hfirst

theorem Accounted.either {a b : Attempt α τ} {first second : Log α ε} (h : Accounted R a first)
    (k : Accounted R b second) : Accounted R (a.either b) (Log.either a first second) := by
  intro s
  have hfirst := h s
  unfold Attempt.either Log.either
  cases hx : (a s).outcome with
  | failed =>
    simp only [hx]
    exact accounts.append hfirst (k _)
  | _ =>
    simp only [hx]
    exact hfirst

theorem accounted_inOrder {n : Nat} {parts : Fin n → Attempt α τ} {log : Fin n → Log α ε}
    (h : ∀ i, Accounted R (parts i) (log i)) :
    Accounted R (inOrder (List.ofFn parts))
      (Log.inOrder (List.ofFn fun i => (parts i, log i))) := by
  induction n with
  | zero => exact accounts.nil
  | succ n ih =>
    rw [List.ofFn_succ, List.ofFn_succ]
    exact (h 0).andThen accounts fun _ _ _ => ih fun i => h i.succ

theorem accounted_firstOf {n : Nat} {choices : Fin n → Attempt α τ} {log : Fin n → Log α ε}
    (h : ∀ i, Accounted R (choices i) (log i)) :
    Accounted R (firstOf (List.ofFn choices))
      (Log.firstOf (List.ofFn fun i => (choices i, log i))) := by
  induction n with
  | zero => exact accounts.nil
  | succ n ih =>
    rw [List.ofFn_succ, List.ofFn_succ]
    exact (h 0).either accounts (ih fun i => h i.succ)

theorem Accounted.gather {a : Attempt α τ} {round : Log α ε} (h : Accounted R a round)
    (full : Outcome (List τ)) (room : Nat) :
    Accounted R (fun s => (gather full a room s).run) (Log.rounds a round room) := by
  induction room with
  | zero => exact accounts.nil
  | succ room ih =>
    intro s
    have hfirst := h s
    unfold Attempt.gather Log.rounds Log.andThen
    cases hx : (a s).outcome with
    | matched x =>
      simp only [hx]
      exact accounts.append hfirst (ih _)
    | _ =>
      simp only [hx]
      exact hfirst

/-- A loop encloses what its rounds report; a repetition with an upper bound leaves it as it is. -/
theorem Accounted.repeated {a : Attempt α τ} {round : Log α ε} (h : Accounted R a round)
    (times : Repetition) (limit : Nat) :
    Accounted R (a.repeated times limit) (Log.rounds a round (room times limit)) := by
  intro s
  have hrounds := h.gather accounts (full times) (room times limit) s
  rw [scan_repeated]
  cases hmost : times.most with
  | some most =>
    rw [trace_repeated_of_bounded (by rw [hmost]; rintro ⟨⟩)]
    exact hrounds
  | none =>
    rw [trace_repeated_of_unbounded hmost]
    exact accounts.wrap hrounds _ fun _ => rfl

omit accounts in
theorem Accounted.optional {a : Attempt α τ} {log : Log α ε} (h : Accounted R a log) :
    Accounted R a.optional log := by
  intro s
  have hbody := h s
  unfold Attempt.optional
  dsimp only
  split <;> exact hbody

theorem Accounted.capture {a : Attempt α α} {log : Log α ε} (h : Accounted R a log)
    {name : String} (hname : writes name) :
    Accounted R (a.capture name) (Log.andThen a log fun value _ => ledger.capture name value) := by
  intro s
  have hbody := h s
  unfold Attempt.capture Log.andThen
  cases hx : (a s).outcome with
  | matched value =>
    simp only [hx]
    exact accounts.append hbody (accounts.capture (a s).scan name value hname)
  | _ =>
    simp only [hx]
    exact hbody

theorem Accounted.spanned {a : Attempt α τ} {log : Log α ε} (h : Accounted R a log) :
    Accounted R a.spanned log := by
  intro s
  have hbody := h s
  unfold Attempt.spanned
  dsimp only
  split
  · exact accounts.wrap hbody _ fun _ => rfl
  all_goals exact hbody

theorem Accounted.expansion {a : Attempt α τ} {log : Log α ε} (h : Accounted R a log) :
    Accounted R a.expansion log :=
  fun s => accounts.wrap (h s) _ fun _ => rfl

end Attempt

/-! ## Matchers and grammars -/

open Attempt

section

variable [BEq α] {ledger : Ledger α ε} {writes : String → Prop}
  {R : Scan α → List ε → Trace α → Scan α → Prop}

/-- The log of what a match can come to accounts for it, if the logs of the rules there do. -/
theorem Reaches.accounted_log (accounts : ledger.Accounts writes R) {g : Grammar α ρ}
    {m : Matcher α ρ τ} (captures : ∀ name body, Reaches g m (.capture name body) → writes name)
    (bound : Nat)
    (rules : ∀ {σ : Type} (name : ρ σ), Reaches g m (.rule name) →
      Accounted R (g.expand bound σ name) (g.log ledger bound σ name))
    {k : Matcher α ρ σ} (h : Reaches g m k) :
    Accounted R (k.run g bound) (k.log ledger g bound) := by
  induction k with
  | satisfy p => exact accounted_take accounts _
  | symbol table => exact accounted_take accounts table
  | peek => exact accounted_look accounts
  | pure value => exact accounted_succeed accounts value
  | inOrder parts ih => exact accounted_inOrder accounts fun i => ih i (h.part i)
  | firstOf choices ih => exact accounted_firstOf accounts fun i => ih i (h.choice i)
  | both first second ihFirst ihSecond =>
    exact (ihFirst h.bothFirst).andThen accounts fun _ _ _ => ihSecond h.bothSecond
  | either first second ihFirst ihSecond =>
    exact (ihFirst h.eitherFirst).either accounts (ihSecond h.eitherSecond)
  | repeated times body ih => exact (ih h.round).repeated accounts times bound
  | optional body ih => exact (ih h.optional).optional
  | map f body ih => exact ih h.map
  | filterMap f body ih => exact ih h.filterMap
  | andThen first next ihFirst ihNext =>
    exact (ihFirst h.andThen).andThen accounts fun s x hx => ihNext x (h.next hx)
  | rule name => exact (rules name h).expansion accounts
  | capture name body ih => exact (ih h.capture).capture accounts (captures name body h)
  | backreference name => exact accounted_backreference accounts name
  | spanned body ih => exact (ih h.spanned).spanned accounts
  | consuming body ih => exact ih h.consuming

/-- What a run notes accounts for it, if it does so wherever something is noted. -/
theorem Matcher.accounted_log (accounts : ledger.Accounts writes R) (g : Grammar α ρ)
    (m : Matcher α ρ τ) (captures : ∀ name body, Reaches g m (.capture name body) → writes name)
    (bound : Nat) : Accounted R (m.run g bound) (m.log ledger g bound) := by
  have everywhere : ∀ {σ : Type} (k : Matcher α ρ σ), Reaches g m k →
      Accounted R (k.run g bound) (k.log ledger g bound) := by
    induction bound with
    | zero =>
      intro σ k h
      exact h.accounted_log accounts captures 0 fun _ _ => accounts.nil
    | succ bound ih =>
      -- a rule with one more bound is what it stands for, with the bound before
      intro σ k h
      exact h.accounted_log accounts captures (bound + 1) fun name hname => ih (g _ name) hname.rule
  exact everywhere m .self

end

/-! ## The elements that reads return -/

namespace Ledger

/-- An element is consumed if it is to be taken, and it is returned if it is there. -/
def reads : Ledger α α where
  take choose s :=
    match s.cursor.peek with
    | .error _ => []
    | .ok current =>
      match choose current with
      | none => []
      | some _ =>
        match s.cursor.consume.1 with
        | .ok x => [x]
        | .error _ => []
  capture _ _ := []

theorem reads_take_of_remaining {choose : α → Option τ} {s : Scan α} {x : α} {xs : List α}
    (h : s.cursor.remaining = x :: xs) :
    reads.take choose s = match choose x with
      | none => []
      | some _ => [x] := by
  simp only [reads, Cursor.peek, Cursor.shown_of_remaining h, Cursor.consume_of_remaining h]

theorem reads_take_of_exhausted {choose : α → Option τ} {s : Scan α}
    (h : s.cursor.remaining = []) : reads.take choose s = [] := by
  simp only [reads, Cursor.peek, Cursor.consume_of_exhausted h]
  cases s.cursor.shown with
  | none => rfl
  | some last => cases hlast : choose last <;> simp only [hlast]

theorem took_reads_take (choose : α → Option τ) (s : Scan α) :
    Took s (reads.take choose s) (Attempt.take choose s).scan := by
  cases hrem : s.cursor.remaining with
  | cons x xs =>
    rw [take_of_remaining hrem, reads_take_of_remaining hrem]
    cases choose x with
    | none => exact took_nil s
    | some value =>
      refine ⟨?_, rfl⟩
      show s.cursor.remaining = x :: (Front.after x xs).remaining
      rw [hrem, Front.remaining_after]
  | nil =>
    -- the element on show is no longer there to be returned, whether or not it fits
    rw [take_of_exhausted hrem, reads_take_of_exhausted hrem]
    cases s.cursor.shown with
    | none => exact took_nil s
    | some last =>
      dsimp only
      cases choose last with
      | none => exact took_nil s
      | some value => exact ⟨hrem, rfl⟩

/-- What is read is what was taken. -/
theorem accounts_reads :
    (reads : Ledger α α).Accounts (fun _ => True) fun s taken _ t => Took s taken t where
  nil := took_nil
  append h k := h.trans k
  wrap h _ _ := h
  unbound s _ := took_nil s
  take := took_reads_take
  capture _ _ _ _ := ⟨rfl, rfl⟩

/-! ## The captures that are made -/

/-- A capture is noted with its name and its value. -/
def captures : Ledger α (String × α) where
  take _ _ := []
  capture name value := [(name, value)]

end Ledger

variable [BEq α]

/-- The elements that the reads of a run return, in order. -/
def Matcher.takings (g : Grammar α ρ) (bound : Nat) (m : Matcher α ρ τ) : Log α α :=
  m.log .reads g bound

/-- The reads of a run return what stands between the two ends of it, each element once. -/
theorem Matcher.took_takings (g : Grammar α ρ) (bound : Nat) (m : Matcher α ρ τ) (s : Scan α) :
    Took s (m.takings g bound s) (m.run g bound s).scan :=
  m.accounted_log Ledger.accounts_reads g (fun _ _ _ => trivial) bound s

/-- The captures that are made in the course of a run, names with values, in order.  Each capture
    whose body succeeds makes one, also where what surrounds it is given up. -/
def Matcher.made (g : Grammar α ρ) (bound : Nat) (m : Matcher α ρ τ) : Log α (String × α) :=
  m.log .captures g bound

end Forward
