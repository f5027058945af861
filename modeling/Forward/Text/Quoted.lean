/-
  Quoted characters: a character between single quotes, written so that a reader can tell which
  one it is.

  Six characters have an escape of their own.  A character that a reader could not see, or that
  would be drawn on the quote before it, is given by its code point in hexadecimal.  Every other
  character stands for itself; the double quote too, since it ends nothing here.
-/
import Forward.Text.Unprintable
import Forward.Text.Extending
import Forward.Text.Ignorable

namespace Forward.Text

/-- The letter behind the backslash, for a character with an escape of its own. -/
def shortEscape? (c : Char) : Option Char :=
  if c = '\n' then some 'n'
  else if c = '\r' then some 'r'
  else if c = '\t' then some 't'
  else if c = '\x00' then some '0'
  else if c = '\'' then some '\''
  else if c = '\\' then some '\\'
  else none

/-- Would `c` be lost, or change what stands before it, if it stood for itself? -/
def isObscure (c : Char) : Bool := isUnprintable c || isSuperimposed c || isIgnorable c

/-- The code point of `c` in hexadecimal, without leading zeros. -/
def codePointEscape (c : Char) : String :=
  "\\u\x7b" ++ String.ofList (Nat.toDigits 16 c.toNat) ++ "\x7d"

/-- What stands for `c` between the quotes. -/
def escaped (c : Char) : String :=
  match shortEscape? c with
  | some letter => String.ofList ['\\', letter]
  | none => if isObscure c then codePointEscape c else String.singleton c

/-- A character between single quotes. -/
def quotedChar (c : Char) : String := "'" ++ escaped c ++ "'"

/-- A double quote stands for itself. -/
example : quotedChar '"' = "'\"'" := by decide +kernel

/-- A single quote does not. -/
example : quotedChar '\'' = "'\\''" := by decide +kernel

/-- A letter stands for itself, even one that belongs to the character before it. -/
example : quotedChar '\uFF9E' = "'\uFF9E'" := by decide +kernel

/-- An accent alone, a space that does not break, a filler. -/
example : ['\u0301', '\u00A0', '\u1160'].map escaped =
    ["\\u\x7b301\x7d", "\\u\x7ba0\x7d", "\\u\x7b1160\x7d"] := by decide +kernel

end Forward.Text
