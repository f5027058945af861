/-
  Matchers over characters: the usual character classes, and literal text.
-/
import Forward.Matcher
import Forward.Text.Alphabetic
import Forward.Text.Numeric

namespace Forward.Text

/-- The code points with the Unicode property White_Space. -/
def blank : CodePoints where
  ranges := [(0x9, 0xD), (0x20, 0x20), (0x85, 0x85), (0xA0, 0xA0), (0x1680, 0x1680),
    (0x2000, 0x200A), (0x2028, 0x2029), (0x202F, 0x202F), (0x205F, 0x205F), (0x3000, 0x3000)]
  ascending := by decide +kernel

/-- Is `c` white space? -/
def isBlank (c : Char) : Bool := blank.holds c.toNat

/-- Is `c` one of the ten digits 0 to 9?  Digits of other scripts are not meant. -/
def isDigit (c : Char) : Bool := decide ('0' ≤ c ∧ c ≤ '9')

/-- Is `c` a letter or a number? -/
def isAlphanumeric (c : Char) : Bool := isAlphabetic c || isNumeric c

end Forward.Text

namespace Forward.Matcher

variable {ρ : Type → Type}

/-- One character of white space. -/
def whitespace : Matcher Char ρ Char := satisfy Text.isBlank

/-- One digit from 0 to 9. -/
def digit : Matcher Char ρ Char := satisfy Text.isDigit

/-- One alphabetic character. -/
def letter : Matcher Char ρ Char := satisfy Text.isAlphabetic

/-- One alphabetic or numeric character. -/
def alphanumeric : Matcher Char ρ Char := satisfy Text.isAlphanumeric

/-- One character that occurs in `text`. -/
def oneOf (text : String) : Matcher Char ρ Char := satisfy fun c => decide (c ∈ text.toList)

/-- The characters of `text` in order.  Where they differ from the stream the characters before
    the difference stay consumed. -/
def literal (text : String) : Matcher Char ρ String :=
  map String.ofList (sequence (text.toList.map item))

end Forward.Matcher
