/-
  Occurrences: the result of matching something that may be missing.

  That a thing is missing is itself a successful match, and so differs from a match that
  fails.  `Occurrence` keeps the two apart: it is what a success says about the thing.
-/

namespace Forward

/-- Something that was there, or was missing. -/
inductive Occurrence (τ : Type) where
  | present (value : τ)
  | absent
  deriving DecidableEq, Repr

namespace Occurrence

variable {σ τ : Type}

/-- Was it there? -/
def isPresent : Occurrence τ → Bool
  | .present _ => true
  | .absent => false

/-- Was it missing? -/
def isAbsent (o : Occurrence τ) : Bool := !o.isPresent

/-- Apply `f` to what is there. -/
def map (f : σ → τ) : Occurrence σ → Occurrence τ
  | .present value => .present (f value)
  | .absent => .absent

/-- Go on with what is there; `next` may find it missing after all. -/
def bind (o : Occurrence σ) (next : σ → Occurrence τ) : Occurrence τ :=
  match o with
  | .present value => next value
  | .absent => .absent

/-- What is there, or `fallback` in its place. -/
def getD (o : Occurrence τ) (fallback : τ) : τ :=
  match o with
  | .present value => value
  | .absent => fallback

/-- What was there, as an option. -/
def toOption : Occurrence τ → Option τ
  | .present value => some value
  | .absent => none

/-- An option, as something that was there or was missing. -/
def ofOption : Option τ → Occurrence τ
  | some value => .present value
  | none => .absent

/-- An occurrence in words, what is there written by `write`. -/
def describe (write : τ → String) : Occurrence τ → String
  | .present value => "Present(" ++ write value ++ ")"
  | .absent => "Absent"

@[simp] theorem ofOption_toOption (o : Occurrence τ) : ofOption o.toOption = o := by cases o <;> rfl

end Occurrence
end Forward
