/-
  Record strings: streams of records as text, one character per record.

  A record string is read by a lexer whose tokens are the records.  The lexer stops silently at
  the first character that is no record; asking it where it stopped turns that into an error.
-/
import Forward.Lexer
import Forward.Matcher
import Forward.Pattern.Error

namespace Forward.Record

/-- What each character of a record string stands for. -/
def symbols : Table Char Record :=
  [('B', some .b), ('W', some .w), ('H', some .h), ('L', some .l), ('_', none)]

/-- One record of a record string. -/
def matcher : Matcher Char NoRule Record := .symbol symbols.lookup

/-- Read a record string. -/
def read (text : String) : Logged (Except ReadError (List Record)) :=
  let chars := text.toList
  let haul := (Lexer.ofList chars (matcher.run .empty 1)).take (chars.length + 1)
  match haul.lexer.obstacle with
  | some (position, found) => ⟨.error (.unknownRecord position found), haul.messages⟩
  | none => ⟨.ok haul.tokens, haul.messages⟩

end Forward.Record
