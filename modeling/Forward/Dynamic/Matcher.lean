/-
  Matchers given as data: the matchers whose values are dynamic.

  Each function here builds such a matcher from parts that are of the same kind, with the value
  of the whole put back into the one type of values.
-/
import Forward.Dynamic.Value
import Forward.Pattern.Token

namespace Forward.Dynamic

/-- The names of rules; every rule has dynamic values. -/
inductive RuleName (α κ : Type) : Type → Type where
  | named (name : String) : RuleName α κ (Value α κ)

/-- A matcher with dynamic values. -/
abbrev Described (α κ : Type) := Matcher α (RuleName α κ) (Value α κ)

namespace Described

variable {α κ : Type}

/-- A grammar whose rules are given by name. -/
def grammar (rules : String → Described α κ) : Grammar α (RuleName α κ)
  | _, .named name => rules name

/-! ## Single elements -/

/-- A matcher whose value is an element. -/
def ofElement (m : Matcher α (RuleName α κ) α) : Described α κ := .map .element m

/-- One element that passes a test. -/
def satisfy [DecidableEq α] [Alphabet α] (test : Test α) : Described α κ :=
  ofElement (.satisfy test.holds)

/-- The element `x`. -/
def item [DecidableEq α] (x : α) : Described α κ := ofElement (.item x)

/-- One of the elements `xs`. -/
def elem [DecidableEq α] (xs : List α) : Described α κ := ofElement (.elem xs)

/-- One element that is none of `xs`. -/
def notElem [DecidableEq α] (xs : List α) : Described α κ := ofElement (.notElem xs)

/-- Any one element. -/
def any : Described α κ := ofElement .any

/-- The element on show, without consuming it. -/
def peek : Described α κ := ofElement .peek

/-- One element equal to the one captured under a name. -/
def backreference (name : String) : Described α κ := ofElement (.backreference name)

/-- One element of a table, and the constant it stands for. -/
def symbol [DecidableEq α] (table : Table α κ) : Described α κ := .map .const (.symbol table.lookup)

/-- Text, character by character. -/
def literal (text : String) : Described Char κ := .map .str (.literal text)

/-- One symbol of the pattern language, and how a report names it. -/
def patternSymbol : Described Char κ :=
  .map (fun token => .str token.text) (.symbol Token.symbols.lookup)

/-! ## Compound matchers -/

/-- All parts in order; the value lists theirs. -/
def sequence (parts : List (Described α κ)) : Described α κ := .map .list (.sequence parts)

/-- One thing and another after it; the value pairs theirs. -/
def both (first second : Described α κ) : Described α κ :=
  .map (fun values => .pair values.1 values.2) (.both first second)

/-- Something that may be missing; the value says whether it was there. -/
def optional (body : Described α κ) : Described α κ :=
  .map (fun found => match found with
    | .present value => .present value
    | .absent => .absent) (.optional body)

/-- One thing again and again; the value lists the rounds. -/
def repeated (times : Repetition) (body : Described α κ) : Described α κ :=
  .map .list (.repeated times body)

/-- What the rule of that name stands for. -/
def rule (name : String) : Described α κ := Matcher.rule (RuleName.named name)

/-- Capture a value that is an element; any other value fails, and nothing is captured. -/
def capture (name : String) (body : Described α κ) : Described α κ :=
  ofElement (.capture name (.filterMap Value.element? body))

/-- One thing; the value tells the stretch it covers. -/
def spanned (body : Described α κ) : Described α κ :=
  .map (fun found => .spanned found.1 found.2) (.spanned body)

/-! ## What a value asks for -/

/-- The matcher for an element that a value is, changed by `f`. -/
def sameAs [DecidableEq α] (f : α → α) (value : Value α κ) : Described α κ :=
  match value.element? with
  | some x => item (f x)
  | none => Matcher.never

/-- The matcher of the first case for the element that a value is, or `fallback`. -/
def cases [DecidableEq α] (list : List (α × Described α κ)) (fallback : Described α κ)
    (value : Value α κ) : Described α κ :=
  match value.element? with
  | none => fallback
  | some x => (list.lookup x).getD fallback

/-- As many rounds of `body` as a value asks for. -/
def countOf [Alphabet α] (body : Described α κ) (value : Value α κ) : Described α κ :=
  repeated (.exactly value.count) body

end Described
end Forward.Dynamic
