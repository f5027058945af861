/-
  Messages: what a match reports about itself while it runs.

  A message is the thing reported, and `Message.line` is its wording: the level, a blank and
  the text.  `Logged` pairs an answer with the messages that were reported on the way to it, in
  the order in which they were reported.
-/
import Forward.Cursor
import Forward.Span

namespace Forward

/-- How much detail a message belongs to. -/
inductive Level where
  | trace
  | debug
  deriving DecidableEq, Repr

/-- How a level is named in front of a message. -/
def Level.text : Level → String
  | .trace => "TRACE"
  | .debug => "DEBUG"

/-- Something worth reporting. -/
inductive Message where
  /-- A lexer produced a token over this stretch. -/
  | token (span : Span)
  /-- A lexer found no token at this position and halted. -/
  | noToken (position : Nat)
  /-- A lexer read past the end and halted. -/
  | noInput (stop : PastEnd)
  /-- A capture succeeded; the match it captured ends at `position`. -/
  | captureBound (name : String) (position : Nat)
  /-- A backreference to a name found nothing captured under it. -/
  | captureUnbound (name : String)
  /-- A pattern was read; `written` is its printed form. -/
  | patternRead (written : String)
  /-- A pattern was rejected at a token, counted without the blanks between tokens. -/
  | patternRejected (index : Nat)
  /-- Reading a pattern ran past the end of its tokens. -/
  | patternEnded (stop : PastEnd)
  deriving DecidableEq, Repr

namespace Message

/-- What happens to a single token or capture is a trace; the rest is for debugging. -/
def level : Message → Level
  | .token _ => .trace
  | .noToken _ => .debug
  | .noInput _ => .debug
  | .captureBound _ _ => .trace
  | .captureUnbound _ => .trace
  | .patternRead _ => .debug
  | .patternRejected _ => .debug
  | .patternEnded _ => .debug

/-- The wording of a message. -/
def text : Message → String
  | .token span => "token at " ++ span.text
  | .noToken position =>
    "no token matches at position " ++ toString position ++ ", lexer halted"
  | .noInput stop => stop.message ++ ", lexer halted"
  | .captureBound name position =>
    "capture `" ++ name ++ "` bound at position " ++ toString position
  | .captureUnbound name => "backreference to unbound capture `" ++ name ++ "`"
  | .patternRead written => "parsed pattern " ++ written
  | .patternRejected index => "pattern rejected at token " ++ toString index
  | .patternEnded stop => "pattern parse " ++ stop.message

/-- The message as one line. -/
def line (m : Message) : String := m.level.text ++ " " ++ m.text

end Message

/-- An answer, and the messages reported on the way to it. -/
structure Logged (τ : Type) where
  value : τ
  messages : List Message
  deriving Repr

namespace Logged

variable {σ τ : Type}

/-- An answer that came without a report. -/
def silent (value : τ) : Logged τ := ⟨value, []⟩

/-- Go on from an answer; its messages come first. -/
def andThen (first : Logged σ) (next : σ → Logged τ) : Logged τ :=
  let second := next first.value
  ⟨second.value, first.messages ++ second.messages⟩

instance : Monad Logged where
  pure := silent
  bind := andThen

end Logged
end Forward
