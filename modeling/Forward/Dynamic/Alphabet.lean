/-
  Alphabets: elements that can be written, compared and put into a test given as data.

  Characters and integers are the two alphabets.
-/
import Forward.Text.Characters
import Forward.Text.Quoted

namespace Forward.Dynamic

/-- What matchers given as data have to know about their elements. -/
class Alphabet (α : Type) where
  /-- The element as a part of a text. -/
  text : α → String
  /-- The element as it stands in a description, apart from what surrounds it. -/
  quoted : α → String
  /-- The number that a digit stands for. -/
  digit? : α → Option Nat
  /-- The bracket that closes an opening one; every other element is its own. -/
  closing : α → α
  /-- Is the first element not behind the second? -/
  isAtMost : α → α → Bool

/-! ## Characters -/

/-- The bracket that closes an opening bracket. -/
def closingBracket (c : Char) : Char :=
  if c = '(' then ')'
  else if c = '[' then ']'
  else if c = '{' then '}'
  else if c = '<' then '>'
  else c

instance : Alphabet Char where
  text := String.singleton
  quoted := Text.quotedChar
  digit? c := if Text.isDigit c then some (c.toNat - '0'.toNat) else none
  closing := closingBracket
  isAtMost c d := decide (c ≤ d)

/-! ## Integers -/

instance : Alphabet Int where
  text n := toString n
  quoted n := toString n
  digit? n := if 0 ≤ n ∧ n ≤ 9 then some n.toNat else none
  closing n := n
  isAtMost m n := decide (m ≤ n)

/-! ## Tests -/

/-- A test of elements, given as data. -/
inductive Test (α : Type) where
  | any
  | never
  | equal (x : α)
  | among (xs : List α)
  | notAmong (xs : List α)
  /-- From `lo` to `hi`, both included. -/
  | between (lo hi : α)

/-- Does an element pass the test? -/
def Test.holds {α : Type} [DecidableEq α] [Alphabet α] : Test α → α → Bool
  | .any, _ => true
  | .never, _ => false
  | .equal x, y => decide (y = x)
  | .among xs, y => decide (y ∈ xs)
  | .notAmong xs, y => decide (y ∉ xs)
  | .between lo hi, y => Alphabet.isAtMost lo y && Alphabet.isAtMost y hi

end Forward.Dynamic
