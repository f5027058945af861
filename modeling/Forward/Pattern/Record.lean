/-
  Records: the elements that patterns are matched against.

  A record holds one of four atoms, or nothing; a record that holds nothing is the nil record.
-/

namespace Forward

/-- What a record can hold. -/
inductive Atom where
  | b
  | w
  | h
  | l
  deriving DecidableEq, Repr

namespace Atom

/-- The letter an atom is written as. -/
def char : Atom → Char
  | .b => 'B'
  | .w => 'W'
  | .h => 'H'
  | .l => 'L'

/-- The atom that a letter is written for. -/
def ofChar? (c : Char) : Option Atom :=
  if c = 'B' then some .b
  else if c = 'W' then some .w
  else if c = 'H' then some .h
  else if c = 'L' then some .l
  else none

end Atom

/-- One element of a stream of records: an atom, or `none` for the nil record. -/
abbrev Record := Option Atom

/-- The character a record is written as. -/
def Record.char : Record → Char
  | some atom => atom.char
  | none => '_'

/-- Records in writing, one character each. -/
def Record.write (records : List Record) : String := String.ofList (records.map Record.char)

end Forward
