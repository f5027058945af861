/-
  The tokens of a pattern: cutting the text of a pattern into symbols and blank runs.

  A blank run is read greedily and errs when it reaches the end of the text, after it has taken
  the blanks.  The lexer halts on that as on anything else, so blanks at the end of a text are
  consumed and give no token.
-/
import Forward.Lexer
import Forward.Pattern.Error
import Forward.Text.Characters

namespace Forward.Token

/-- One token: a run of blanks, or a single symbol. -/
def matcher : Matcher Char NoRule Token :=
  .either (.map (fun _ => .space) (.oneOrMore (.oneOf blanks))) (.symbol symbols.lookup)

/-- A lexer for the tokens of a text, as the matcher `token` describes them. -/
def lexerOf {τ : Type} (token : Matcher Char NoRule τ) (source : String) : Lexer Char τ :=
  .ofList source.toList (token.run .empty (source.length + 2))

/-- All tokens of a text: each takes a character, so that there are no more than characters. -/
def haulOf {τ : Type} (token : Matcher Char NoRule τ) (source : String) : Lexer.Haul Char τ :=
  (lexerOf token source).take (source.length + 1)

/-- What a lexer for the tokens of a text gives until it halts. -/
def haul (source : String) : Lexer.Haul Char Token := haulOf matcher source

/-- What a lexer for the tokens and their spans gives until it halts. -/
def spannedHaul (source : String) : Lexer.Haul Char (Token × Span) := haulOf matcher.spanned source

/-- The tokens of a text, up to the first character that is none. -/
def scan (source : String) : Logged (List Token) :=
  let h := haul source
  ⟨h.tokens, h.messages⟩

/-- The tokens of a text, each with the span it covers. -/
def scanSpanned (source : String) : Logged (List (Token × Span)) :=
  let h := spannedHaul source
  ⟨h.tokens, h.messages⟩

/-- The tokens of a text all of which is tokens. -/
def scanAll (source : String) : Logged (Except ReadError (List (Token × Span))) :=
  let h := spannedHaul source
  match h.lexer.obstacle with
  | some (position, found) => ⟨.error (.unknownSymbol position found), h.messages⟩
  | none => ⟨.ok h.tokens, h.messages⟩

end Forward.Token
