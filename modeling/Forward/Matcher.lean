/-
  Matchers: descriptions of what to match, and how a description is attempted.

  A `Matcher α ρ τ` describes a match over a stream of `α` whose success has a value in `τ`.
  It is data: what it contains can be asked of it, and `Matcher.attempt` gives it its meaning,
  one case per form, as an attempt built from the attempts of its parts.

  Recursion goes through rules.  `ρ τ` is the type of the names of rules with values in `τ`,
  a `Grammar` says what each name stands for, and a rule is expanded only when it is attempted.
  A rule may be expanded without end, and a repetition may go on without end, so a match is
  `run` with a bound: `bound` rules inside one another, and about as many attempts of any one
  repetition.  An answer other than `unfinished` does not depend on the bound.
-/
import Forward.Attempt

namespace Forward

/-- What to match: `α` are the elements, `ρ` the names of rules, the index is the value's type. -/
inductive Matcher (α : Type) (ρ : Type → Type) : Type → Type 1 where
  /-- One element that passes the test. -/
  | satisfy (p : α → Bool) : Matcher α ρ α
  /-- One element that stands for something, and what it stands for. -/
  | symbol {τ : Type} (table : α → Option τ) : Matcher α ρ τ
  /-- The element on show, without consuming it. -/
  | peek : Matcher α ρ α
  /-- Nothing at all, with a value. -/
  | pure {τ : Type} (value : τ) : Matcher α ρ τ
  /-- All parts, one after the other. -/
  | inOrder {τ : Type} {n : Nat} (parts : Fin n → Matcher α ρ τ) : Matcher α ρ (List τ)
  /-- The first choice that does not fail. -/
  | firstOf {τ : Type} {n : Nat} (choices : Fin n → Matcher α ρ τ) : Matcher α ρ τ
  /-- One thing, and another after it. -/
  | both {σ τ : Type} (first : Matcher α ρ σ) (second : Matcher α ρ τ) : Matcher α ρ (σ × τ)
  /-- One thing, or another where the first one failed. -/
  | either {τ : Type} (first second : Matcher α ρ τ) : Matcher α ρ τ
  /-- One thing again and again. -/
  | repeated {τ : Type} (times : Repetition) (body : Matcher α ρ τ) : Matcher α ρ (List τ)
  /-- Something that may be missing. -/
  | optional {τ : Type} (body : Matcher α ρ τ) : Matcher α ρ (Occurrence τ)
  /-- A function of the value. -/
  | map {σ τ : Type} (f : σ → τ) (body : Matcher α ρ σ) : Matcher α ρ τ
  /-- A partial function of the value; where it is undefined the match fails. -/
  | filterMap {σ τ : Type} (f : σ → Option τ) (body : Matcher α ρ σ) : Matcher α ρ τ
  /-- One thing, and after it what its value asks for. -/
  | andThen {σ τ : Type} (first : Matcher α ρ σ) (next : σ → Matcher α ρ τ) : Matcher α ρ τ
  /-- What a rule stands for. -/
  | rule {τ : Type} (name : ρ τ) : Matcher α ρ τ
  /-- One thing whose value is an element, captured under a name. -/
  | capture (name : String) (body : Matcher α ρ α) : Matcher α ρ α
  /-- One element equal to the one captured under a name. -/
  | backreference (name : String) : Matcher α ρ α
  /-- One thing, and the stretch it covers. -/
  | spanned {τ : Type} (body : Matcher α ρ τ) : Matcher α ρ (τ × Span)
  /-- One thing that consumes something. -/
  | consuming {τ : Type} (body : Matcher α ρ τ) : Matcher α ρ τ

/-- What the names of rules stand for. -/
abbrev Grammar (α : Type) (ρ : Type → Type) := (τ : Type) → ρ τ → Matcher α ρ τ

/-- The names of rules where there are no rules. -/
abbrev NoRule : Type → Type := fun _ => Empty

/-- The grammar without rules. -/
def Grammar.empty {α : Type} : Grammar α NoRule := fun _ name => name.elim

namespace Matcher

variable {α σ τ : Type} {ρ : Type → Type}

/-! ## The meaning of a matcher -/

/-- How a matcher is attempted, where `expand` attempts a rule and `limit` bounds each
    repetition that has no bound of its own. -/
def attempt [BEq α] (expand : (τ : Type) → ρ τ → Attempt α τ) (limit : Nat) :
    {τ : Type} → Matcher α ρ τ → Attempt α τ
  | _, .satisfy p => Attempt.satisfy p
  | _, .symbol table => Attempt.take table
  | _, .peek => Attempt.look
  | _, .pure value => Attempt.succeed value
  | _, .inOrder parts => Attempt.inOrder (List.ofFn fun i => (parts i).attempt expand limit)
  | _, .firstOf choices => Attempt.firstOf (List.ofFn fun i => (choices i).attempt expand limit)
  | _, .both first second => (first.attempt expand limit).both (second.attempt expand limit)
  | _, .either first second => (first.attempt expand limit).either (second.attempt expand limit)
  | _, .repeated times body => (body.attempt expand limit).repeated times limit
  | _, .optional body => (body.attempt expand limit).optional
  | _, .map f body => (body.attempt expand limit).map f
  | _, .filterMap f body => (body.attempt expand limit).filterMap f
  | _, .andThen first next =>
    (first.attempt expand limit).andThen fun value => (next value).attempt expand limit
  | _, .rule name => (expand _ name).expansion
  | _, .capture name body => (body.attempt expand limit).capture name
  | _, .backreference name => Attempt.backreference name
  | _, .spanned body => (body.attempt expand limit).spanned
  | _, .consuming body => (body.attempt expand limit).consuming

end Matcher

/-- How a rule is attempted with `bound` rules inside one another. -/
def Grammar.expand {α : Type} {ρ : Type → Type} [BEq α] (g : Grammar α ρ) :
    Nat → (τ : Type) → ρ τ → Attempt α τ
  | 0, _, _ => Attempt.giveUp
  | bound + 1, τ, name => (g τ name).attempt (g.expand bound) bound

namespace Matcher

variable {α σ τ : Type} {ρ : Type → Type}

/-- Attempt a matcher where a scan stands. -/
def run [BEq α] (g : Grammar α ρ) (bound : Nat) (m : Matcher α ρ τ) : Attempt α τ :=
  m.attempt (g.expand bound) bound

/-! ## Single elements -/

/-- Any one element. -/
def any : Matcher α ρ α := satisfy fun _ => true

/-- The element `x`. -/
def item [DecidableEq α] (x : α) : Matcher α ρ α := satisfy fun y => decide (y = x)

/-- One of the elements `xs`. -/
def elem [DecidableEq α] (xs : List α) : Matcher α ρ α := satisfy fun y => decide (y ∈ xs)

/-- One element that is none of `xs`. -/
def notElem [DecidableEq α] (xs : List α) : Matcher α ρ α := satisfy fun y => decide (y ∉ xs)

/-! ## Lists of matchers -/

/-- All matchers of a list, one after the other. -/
def sequence (parts : List (Matcher α ρ τ)) : Matcher α ρ (List τ) := inOrder parts.get

/-- The first matcher of a list that does not fail. -/
def choice (choices : List (Matcher α ρ τ)) : Matcher α ρ τ := firstOf choices.get

/-- Nothing fits. -/
def never : Matcher α ρ τ := choice []

/-! ## Repetitions -/

/-- One thing any number of times. -/
def zeroOrMore (body : Matcher α ρ τ) : Matcher α ρ (List τ) := repeated .zeroOrMore body

/-- One thing once or oftener. -/
def oneOrMore (body : Matcher α ρ τ) : Matcher α ρ (List τ) := repeated .oneOrMore body

/-- One thing at most `n` times. -/
def atMost (n : UInt64) (body : Matcher α ρ τ) : Matcher α ρ (List τ) :=
  repeated (.atMost n) body

/-! ## What the lists of matchers mean -/

variable [BEq α] (g : Grammar α ρ) (bound : Nat)

theorem run_sequence (parts : List (Matcher α ρ τ)) :
    (sequence parts).run g bound = Attempt.inOrder (parts.map fun m => m.run g bound) := by
  simp only [run, sequence, attempt]
  congr 1
  apply List.ext_getElem <;> simp

theorem run_choice (choices : List (Matcher α ρ τ)) :
    (choice choices).run g bound = Attempt.firstOf (choices.map fun m => m.run g bound) := by
  simp only [run, choice, attempt]
  congr 1
  apply List.ext_getElem <;> simp

theorem run_never : (never : Matcher α ρ τ).run g bound = Attempt.fail := run_choice g bound []

end Matcher
end Forward
