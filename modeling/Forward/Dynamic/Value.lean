/-
  Values of matchers given as data.

  Where a matcher is put together at run time the type of its value is not known beforehand, so
  all values live in one type.  `α` are the elements of the stream and `κ` the constants that a
  description can name.  A function that expects another form of value leaves the value alone,
  and a selection that expects another form selects nothing.
-/
import Forward.Dynamic.Alphabet

namespace Forward.Dynamic

/-- The value of a matcher given as data. -/
inductive Value (α κ : Type) where
  | element (x : α)
  | const (k : κ)
  | num (n : Int)
  | str (text : String)
  | list (items : List (Value α κ))
  | pair (first second : Value α κ)
  | present (value : Value α κ)
  | absent
  | spanned (value : Value α κ) (span : Span)

namespace Value

variable {α κ : Type}

/-! ## Equality -/

mutual

/-- Are two values the same? -/
def same [DecidableEq α] [BEq κ] : Value α κ → Value α κ → Bool
  | .element x, .element y => decide (x = y)
  | .const j, .const k => j == k
  | .num m, .num n => decide (m = n)
  | .str s, .str t => decide (s = t)
  | .list xs, .list ys => sameAll xs ys
  | .pair a b, .pair c d => same a c && same b d
  | .present v, .present w => same v w
  | .absent, .absent => true
  | .spanned v s, .spanned w t => same v w && decide (s = t)
  | _, _ => false

/-- Are two lists of values the same? -/
def sameAll [DecidableEq α] [BEq κ] : List (Value α κ) → List (Value α κ) → Bool
  | [], [] => true
  | v :: vs, w :: ws => same v w && sameAll vs ws
  | _, _ => false

end

/-! ## Functions -/

/-- How long a value is: the items of a list, the characters of a text, and else one. -/
def length : Value α κ → Nat
  | .list items => items.length
  | .str text => text.length
  | _ => 1

mutual

/-- The text of a value, the parts of a compound value in order. -/
def text [Alphabet α] : Value α κ → String
  | .element x => Alphabet.text x
  | .const _ => ""
  | .num n => toString n
  | .str t => t
  | .list items => textOfAll items
  | .pair first second => text first ++ text second
  | .present value => text value
  | .absent => ""
  | .spanned value _ => text value

/-- The texts of several values, one after the other. -/
def textOfAll [Alphabet α] : List (Value α κ) → String
  | [] => ""
  | value :: later => text value ++ textOfAll later

end

/-- The first half of a pair. -/
def first : Value α κ → Value α κ
  | .pair a _ => a
  | v => v

/-- The second half of a pair. -/
def second : Value α κ → Value α κ
  | .pair _ b => b
  | v => v

/-- The middle of three: of a pair whose first half is a pair, the second half of that. -/
def middle : Value α κ → Value α κ
  | .pair a _ => a.second
  | v => v

/-- A number plus one. -/
def increment : Value α κ → Value α κ
  | .num n => .num (n + 1)
  | v => v

/-! ## Selections -/

/-- The element that a value is. -/
def element? : Value α κ → Option α
  | .element x => some x
  | _ => none

/-- The number that a digit stands for. -/
def digit? [Alphabet α] : Value α κ → Option (Value α κ)
  | .element x => (Alphabet.digit? x).map fun (d : Nat) => .num d
  | _ => none

/-- Anything but an empty list or an empty text. -/
def nonempty? : Value α κ → Option (Value α κ)
  | .list [] => none
  | .str text => if text.isEmpty then none else some (.str text)
  | v => some v

/-- What was there, of something that may be missing. -/
def present? : Value α κ → Option (Value α κ)
  | .present v => some v
  | _ => none

/-- An even number. -/
def even? : Value α κ → Option (Value α κ)
  | .num n => if n % 2 = 0 then some (.num n) else none
  | _ => none

/-- The half of a pair whose halves are the same. -/
def half? [DecidableEq α] [BEq κ] : Value α κ → Option (Value α κ)
  | .pair a b => if same a b then some a else none
  | _ => none

/-- How often a value asks for something: a digit or a number says it, and any other value asks
    for it once for every part. -/
def count [Alphabet α] : Value α κ → UInt64
  | .element x => ((Alphabet.digit? x).getD 0).toUInt64
  | .num n => n.toInt64.toUInt64
  | v => v.length.toUInt64

end Value
end Forward.Dynamic
