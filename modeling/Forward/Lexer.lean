/-
  Lexers: one token after another from a stream.

  A lexer attempts its token again and again, each time with nothing captured, from where the
  last token ended.  The first attempt that does not match halts it for good, and from then on
  it answers nothing.  It does not tell the end of the stream from something that is no token;
  `Lexer.obstacle` does.

  `next` asks for one token and `take` for so many.  A token that consumes nothing can be taken
  without end, so "all tokens" is `take` with a number that the tokens cannot exceed.
-/
import Forward.Attempt

namespace Forward

/-- A stream that is cut into tokens, and whether that is over. -/
structure Lexer (α τ : Type) where
  scan : Scan α
  token : Attempt α τ
  halted : Bool

namespace Lexer

variable {α τ : Type}

/-- A lexer at the beginning of a stream. -/
def ofList (xs : List α) (token : Attempt α τ) : Lexer α τ := ⟨Scan.ofList xs, token, false⟩

/-- How many elements have been consumed. -/
def position (l : Lexer α τ) : Nat := l.scan.position

/-- Has everything been consumed? -/
def atEnd (l : Lexer α τ) : Bool := l.scan.atEnd

/-- Where the lexer stands short of the end, and the element there. -/
def obstacle (l : Lexer α τ) : Option (Nat × α) :=
  match l.scan.cursor.remaining with
  | [] => none
  | x :: _ => some (l.position, x)

/-! ## Asking for tokens -/

/-- What asking a lexer for tokens gave: the tokens, the lexer afterwards, and what happened. -/
structure Haul (α τ : Type) where
  tokens : List τ
  lexer : Lexer α τ
  trace : Trace α
  messages : List Message

/-- Ask for one token.  A halted lexer does nothing. -/
def next (l : Lexer α τ) : Haul α τ :=
  if l.halted then ⟨[], l, [], []⟩
  else
    let r := l.token { l.scan with captures := Captures.empty }
    let here := { l with scan := r.scan }
    let reported := Trace.messages r.trace
    match r.outcome with
    | .matched value =>
      ⟨[value], here, r.trace, reported ++ [.token ⟨l.position, here.position⟩]⟩
    | .failed => ⟨[], { here with halted := true }, r.trace, reported ++ [.noToken l.position]⟩
    | .ended stop => ⟨[], { here with halted := true }, r.trace, reported ++ [.noInput stop]⟩
    | .unfinished => ⟨[], { here with halted := true }, r.trace, reported⟩

/-- Ask for up to `n` tokens, and no further once there is none. -/
def take : Nat → Lexer α τ → Haul α τ
  | 0, l => ⟨[], l, [], []⟩
  | n + 1, l =>
    let first := l.next
    match first.tokens with
    | [] => first
    | _ :: _ =>
      let later := take n first.lexer
      ⟨first.tokens ++ later.tokens, later.lexer, first.trace ++ later.trace,
        first.messages ++ later.messages⟩

/-- A halted lexer stays as it is, gives no token and reports nothing. -/
theorem next_of_halted {l : Lexer α τ} (h : l.halted = true) : l.next = ⟨[], l, [], []⟩ := by
  simp [next, h]

/-- A question without an answer halts the lexer. -/
theorem halted_of_next {l : Lexer α τ} (h : l.next.tokens = []) : l.next.lexer.halted = true := by
  unfold next at h ⊢
  split
  · next halted => exact halted
  · next running =>
    simp only [running] at h
    dsimp only at h ⊢
    split <;> simp_all

end Lexer
end Forward
