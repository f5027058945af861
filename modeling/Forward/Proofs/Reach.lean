/-
  Reach: which matchers a match can come to, and what every run inherits from them.

  A match comes to the parts of its matcher, to what the rules in it stand for, and to what the
  values of its parts ask for.  `Reaches g m k` says that a match of `m` can come to `k` in this
  way; a value asks for something only if it can be the value of a match.

  A property of attempts that is `Inherited` passes from parts to wholes, in every way in which
  attempts are built, and so from the forms of the language to every run
  (`Matcher.run_of_inherited`).  The two forms that name a capture may be left out for some names.
  Then the property holds of the matchers from which these forms are not reached.
-/
import Forward.Matcher
import Forward.Proofs.Laws

namespace Forward

variable {α σ τ : Type} {ρ : Type → Type}

/-! ## What a match can come to -/

section

variable [BEq α]

/-- A match of `m` can come to this matcher, where the grammar `g` says what rules stand for. -/
inductive Reaches (g : Grammar α ρ) (m : Matcher α ρ τ) : {σ : Type} → Matcher α ρ σ → Prop where
  | self : Reaches g m m
  | part {σ : Type} {n : Nat} {parts : Fin n → Matcher α ρ σ} (h : Reaches g m (.inOrder parts))
      (i : Fin n) : Reaches g m (parts i)
  | choice {σ : Type} {n : Nat} {choices : Fin n → Matcher α ρ σ}
      (h : Reaches g m (.firstOf choices)) (i : Fin n) : Reaches g m (choices i)
  | bothFirst {π σ : Type} {first : Matcher α ρ π} {second : Matcher α ρ σ}
      (h : Reaches g m (.both first second)) : Reaches g m first
  | bothSecond {π σ : Type} {first : Matcher α ρ π} {second : Matcher α ρ σ}
      (h : Reaches g m (.both first second)) : Reaches g m second
  | eitherFirst {σ : Type} {first second : Matcher α ρ σ}
      (h : Reaches g m (.either first second)) : Reaches g m first
  | eitherSecond {σ : Type} {first second : Matcher α ρ σ}
      (h : Reaches g m (.either first second)) : Reaches g m second
  | round {σ : Type} {times : Repetition} {body : Matcher α ρ σ}
      (h : Reaches g m (.repeated times body)) : Reaches g m body
  | optional {σ : Type} {body : Matcher α ρ σ} (h : Reaches g m (.optional body)) :
      Reaches g m body
  | map {π σ : Type} {f : π → σ} {body : Matcher α ρ π} (h : Reaches g m (.map f body)) :
      Reaches g m body
  | filterMap {π σ : Type} {f : π → Option σ} {body : Matcher α ρ π}
      (h : Reaches g m (.filterMap f body)) : Reaches g m body
  | andThen {π σ : Type} {first : Matcher α ρ π} {next : π → Matcher α ρ σ}
      (h : Reaches g m (.andThen first next)) : Reaches g m first
  /-- A value that a match can have asks for what comes after it. -/
  | next {π σ : Type} {first : Matcher α ρ π} {next : π → Matcher α ρ σ}
      (h : Reaches g m (.andThen first next)) {bound : Nat} {s : Scan α} {x : π}
      (hx : (first.run g bound s).outcome = .matched x) : Reaches g m (next x)
  | rule {σ : Type} {name : ρ σ} (h : Reaches g m (.rule name)) : Reaches g m (g σ name)
  | capture {name : String} {body : Matcher α ρ α} (h : Reaches g m (.capture name body)) :
      Reaches g m body
  | spanned {σ : Type} {body : Matcher α ρ σ} (h : Reaches g m (.spanned body)) :
      Reaches g m body
  | consuming {σ : Type} {body : Matcher α ρ σ} (h : Reaches g m (.consuming body)) :
      Reaches g m body

end

/-! ## What is seen of it in the matchers themselves -/

/-- The property holds of a matcher and of everything it contains.  What comes after a value is
    contained for every value, and rules are only names. -/
def Matcher.Each (P : {τ : Type} → Matcher α ρ τ → Prop) : {τ : Type} → Matcher α ρ τ → Prop
  | _, .satisfy p => P (.satisfy p)
  | _, .symbol table => P (.symbol table)
  | _, .peek => P .peek
  | _, .pure value => P (.pure value)
  | _, .inOrder parts => P (.inOrder parts) ∧ ∀ i, (parts i).Each P
  | _, .firstOf choices => P (.firstOf choices) ∧ ∀ i, (choices i).Each P
  | _, .both first second => P (.both first second) ∧ first.Each P ∧ second.Each P
  | _, .either first second => P (.either first second) ∧ first.Each P ∧ second.Each P
  | _, .repeated times body => P (.repeated times body) ∧ body.Each P
  | _, .optional body => P (.optional body) ∧ body.Each P
  | _, .map f body => P (.map f body) ∧ body.Each P
  | _, .filterMap f body => P (.filterMap f body) ∧ body.Each P
  | _, .andThen first next => P (.andThen first next) ∧ first.Each P ∧ ∀ x, (next x).Each P
  | _, .rule name => P (.rule name)
  | _, .capture name body => P (.capture name body) ∧ body.Each P
  | _, .backreference name => P (.backreference name)
  | _, .spanned body => P (.spanned body) ∧ body.Each P
  | _, .consuming body => P (.consuming body) ∧ body.Each P

theorem Matcher.Each.here {P : {τ : Type} → Matcher α ρ τ → Prop} {m : Matcher α ρ τ}
    (h : m.Each P) : P m := by
  cases m with
  | satisfy | symbol | peek | pure | rule | backreference => exact h
  | _ => exact h.1

/-- What holds of everything that a matcher and the rules contain holds of all that is reached. -/
theorem Reaches.each [BEq α] {P : {τ : Type} → Matcher α ρ τ → Prop} {g : Grammar α ρ}
    (rules : ∀ {τ : Type} (name : ρ τ), (g τ name).Each P) {m : Matcher α ρ τ} (hm : m.Each P)
    {k : Matcher α ρ σ} (h : Reaches g m k) : k.Each P := by
  induction h with
  | self => exact hm
  | part _ i ih => exact ih.2 i
  | choice _ i ih => exact ih.2 i
  | bothFirst _ ih => exact ih.2.1
  | bothSecond _ ih => exact ih.2.2
  | eitherFirst _ ih => exact ih.2.1
  | eitherSecond _ ih => exact ih.2.2
  | andThen _ ih => exact ih.2.1
  | next _ _ ih => exact ih.2.2 _
  | @rule σ name _ _ => exact rules name
  | _ _ ih => exact ih.2

namespace Attempt

/-! ## What is made of a success -/

/-- Keep what `f` makes of the value and of the positions around it, or fail. -/
def select (f : Nat → Nat → σ → Option τ) (a : Attempt α σ) : Attempt α τ := fun s =>
  (a s).withOutcome ((a s).outcome.bind fun x => .ofOption (f s.position (a s).scan.position x))

theorem consuming_eq_select (a : Attempt α τ) :
    a.consuming = a.select fun start stop x => if start < stop then some x else none := by
  funext s
  unfold consuming select
  by_cases h : s.position < (a s).scan.position <;> simp only [h, if_true, if_false] <;> rfl

/-! ## What passes from parts to wholes -/

/-- The property passes from attempts to what is built of them.  Captures need it under the names
    in `writes` only, and backreferences under the names in `reads`. -/
structure Inherited (writes reads : String → Prop)
    (Q : {τ : Type} → Attempt α τ → Prop) [BEq α] : Prop where
  take : ∀ {τ : Type} (choose : α → Option τ), Q (take choose)
  look : Q (look : Attempt α α)
  backreference : ∀ name, reads name → Q (backreference name : Attempt α α)
  succeed : ∀ {τ : Type} (value : τ), Q (succeed value : Attempt α τ)
  fail : ∀ {τ : Type}, Q (fail : Attempt α τ)
  giveUp : ∀ {τ : Type}, Q (giveUp : Attempt α τ)
  select : ∀ {σ τ : Type} {a : Attempt α σ}, Q a → ∀ f : Nat → Nat → σ → Option τ, Q (a.select f)
  andThen : ∀ {σ τ : Type} {a : Attempt α σ} {next : σ → Attempt α τ}, Q a →
    (∀ s x, (a s).outcome = .matched x → Q (next x)) → Q (a.andThen next)
  either : ∀ {τ : Type} {a b : Attempt α τ}, Q a → Q b → Q (a.either b)
  repeated : ∀ {τ : Type} {a : Attempt α τ}, Q a → ∀ (times : Repetition) (limit : Nat),
    Q (a.repeated times limit)
  optional : ∀ {τ : Type} {a : Attempt α τ}, Q a → Q a.optional
  capture : ∀ {a : Attempt α α}, Q a → ∀ name, writes name → Q (a.capture name)
  spanned : ∀ {τ : Type} {a : Attempt α τ}, Q a → Q a.spanned
  expansion : ∀ {τ : Type} {a : Attempt α τ}, Q a → Q a.expansion

variable [BEq α] {writes reads : String → Prop} {Q : {τ : Type} → Attempt α τ → Prop}
  (inherited : Inherited writes reads Q)

include inherited

theorem Inherited.map {a : Attempt α σ} (h : Q a) (f : σ → τ) : Q (a.map f) :=
  inherited.select h fun _ _ x => some (f x)

theorem Inherited.filterMap {a : Attempt α σ} (h : Q a) (f : σ → Option τ) : Q (a.filterMap f) :=
  inherited.select h fun _ _ x => f x

theorem Inherited.consuming {a : Attempt α τ} (h : Q a) : Q a.consuming := by
  rw [consuming_eq_select]
  exact inherited.select h _

theorem Inherited.both {a : Attempt α σ} {b : Attempt α τ} (h : Q a) (k : Q b) : Q (a.both b) :=
  inherited.andThen h fun _ _ _ => inherited.map k _

theorem Inherited.inOrder {as : List (Attempt α τ)} (h : ∀ a ∈ as, Q a) : Q (inOrder as) := by
  induction as with
  | nil => exact inherited.succeed []
  | cons a as ih =>
    obtain ⟨hfirst, hlater⟩ := List.forall_mem_cons.mp h
    exact inherited.andThen hfirst fun _ _ _ => inherited.map (ih hlater) _

theorem Inherited.firstOf {as : List (Attempt α τ)} (h : ∀ a ∈ as, Q a) : Q (firstOf as) := by
  induction as with
  | nil => exact inherited.fail
  | cons a as ih =>
    obtain ⟨hfirst, hlater⟩ := List.forall_mem_cons.mp h
    exact inherited.either hfirst (ih hlater)

end Attempt

open Attempt

variable [BEq α] {writes reads : String → Prop} {Q : {τ : Type} → Attempt α τ → Prop}

/-- An inherited property holds of what a match can come to, if it holds of the rules there. -/
theorem Reaches.attempt_of_inherited (inherited : Inherited writes reads Q) {g : Grammar α ρ}
    {m : Matcher α ρ τ}
    (captures : ∀ name body, Reaches g m (.capture name body) → writes name)
    (backreferences : ∀ name, Reaches g m (.backreference name) → reads name) (bound : Nat)
    (rules : ∀ {σ : Type} (name : ρ σ), Reaches g m (.rule name) → Q (g.expand bound σ name))
    {k : Matcher α ρ σ} (h : Reaches g m k) : Q (k.run g bound) := by
  induction k with
  | satisfy p => exact inherited.take _
  | symbol table => exact inherited.take table
  | peek => exact inherited.look
  | pure value => exact inherited.succeed value
  | inOrder parts ih =>
    refine inherited.inOrder fun a ha => ?_
    obtain ⟨i, rfl⟩ := List.mem_ofFn.mp ha
    exact ih i (h.part i)
  | firstOf choices ih =>
    refine inherited.firstOf fun a ha => ?_
    obtain ⟨i, rfl⟩ := List.mem_ofFn.mp ha
    exact ih i (h.choice i)
  | both first second ihFirst ihSecond =>
    exact inherited.both (ihFirst h.bothFirst) (ihSecond h.bothSecond)
  | either first second ihFirst ihSecond =>
    exact inherited.either (ihFirst h.eitherFirst) (ihSecond h.eitherSecond)
  | repeated times body ih => exact inherited.repeated (ih h.round) times bound
  | optional body ih => exact inherited.optional (ih h.optional)
  | map f body ih => exact inherited.map (ih h.map) f
  | filterMap f body ih => exact inherited.filterMap (ih h.filterMap) f
  | andThen first next ihFirst ihNext =>
    exact inherited.andThen (ihFirst h.andThen) fun s x hx => ihNext x (h.next hx)
  | rule name => exact inherited.expansion (rules name h)
  | capture name body ih => exact inherited.capture (ih h.capture) name (captures name body h)
  | backreference name => exact inherited.backreference name (backreferences name h)
  | spanned body ih => exact inherited.spanned (ih h.spanned)
  | consuming body ih => exact inherited.consuming (ih h.consuming)

/-- An inherited property holds of every run, with any bound, of a matcher from which only captures
    and backreferences under admitted names are reached. -/
theorem Matcher.run_of_inherited (inherited : Inherited writes reads Q) (g : Grammar α ρ)
    (m : Matcher α ρ τ)
    (captures : ∀ name body, Reaches g m (.capture name body) → writes name)
    (backreferences : ∀ name, Reaches g m (.backreference name) → reads name) (bound : Nat) :
    Q (m.run g bound) := by
  have everywhere : ∀ {σ : Type} (k : Matcher α ρ σ), Reaches g m k → Q (k.run g bound) := by
    induction bound with
    | zero =>
      intro σ k h
      exact h.attempt_of_inherited inherited captures backreferences 0 fun _ _ => inherited.giveUp
    | succ bound ih =>
      -- a rule with one more bound is what it stands for, with the bound before
      intro σ k h
      exact h.attempt_of_inherited inherited captures backreferences (bound + 1)
        fun name hname => ih (g _ name) hname.rule
  exact everywhere m .self

end Forward
