/-
  Likeness: scans that a match cannot tell apart.

  Two scans may differ in something that a match does not come to see.  Then it comes out alike from
  both, reports the same, and leaves two scans that differ in the same way again.  Which differences
  these are is a relation `R`, and how far the match may go without seeing them is said of the scans
  that it reaches: they have to be `within` some bounds, and what ends within them has stayed there.

  A relation is a `Likeness` if single reads and captures keep it within the bounds, and if the names
  that may be asked for stand for the same.  That is enough: attempts respect it in every way in which
  they are built (`inherited_respects`), and so does every match that asks for no other name.
-/
import Forward.Proofs.Moves
import Forward.Proofs.Reach

namespace Forward

variable {α σ τ : Type}

/-- The runs come out alike and report the same, and the scans that they leave are related. -/
structure Run.SameUpTo (R : Scan α → Scan α → Prop) (r r' : Run α τ) : Prop where
  outcome : r'.outcome = r.outcome
  trace : r'.trace = r.trace
  scan : R r.scan r'.scan

/-- Within the bounds, related scans show the same and stay related whatever is done with both of
    them.  What is within the bounds has come from within them. -/
structure Likeness (R : Scan α → Scan α → Prop) (within : Scan α → Prop)
    (reads : String → Prop) : Prop where
  position : ∀ {s t}, R s t → t.position = s.position
  shown : ∀ {s t}, R s t → within s → t.cursor.shown = s.cursor.shown
  consume : ∀ {s t}, R s t → within s → t.cursor.consume.1 = s.cursor.consume.1 ∧
    R { s with cursor := s.cursor.consume.2 } { t with cursor := t.cursor.consume.2 }
  get? : ∀ {s t}, R s t → ∀ name, reads name → t.captures.get? name = s.captures.get? name
  capture : ∀ {s t}, R s t → ∀ name value,
    R { s with captures := s.captures.capture name value }
      { t with captures := t.captures.capture name value }
  back : Kept fun s t => within t → within s

namespace Attempt

/-- The attempt does not tell related scans apart as long as it stays within the bounds. -/
structure Respects (R : Scan α → Scan α → Prop) (within : Scan α → Prop) (a : Attempt α τ) :
    Prop where
  same : ∀ {s t}, R s t → within (a s).scan → (a s).SameUpTo R (a t)
  back : Moves (fun s t => within t → within s) a

variable {R : Scan α → Scan α → Prop} {within : Scan α → Prop} {reads : String → Prop}
  (likeness : Likeness R within reads)

include likeness

/-! ## Single elements -/

theorem respects_succeed (value : τ) : Respects R within (succeed value : Attempt α τ) where
  same h _ := ⟨rfl, rfl, h⟩
  back := moves_succeed likeness.back value

theorem peek_eq {s t : Scan α} (h : R s t) (hs : within s) : t.cursor.peek = s.cursor.peek := by
  have hposition : t.cursor.position = s.cursor.position := likeness.position h
  unfold Cursor.peek
  rw [likeness.shown h hs, hposition]

theorem respects_look : Respects R within (look : Attempt α α) where
  same {s t} h hin := by
    have hs := moves_look likeness.back s hin
    unfold look
    rw [peek_eq likeness h hs]
    cases s.cursor.peek <;> exact ⟨rfl, rfl, h⟩
  back := moves_look likeness.back

theorem respects_take (choose : α → Option τ) : Respects R within (take choose) where
  same {s t} h hin := by
    have hs := moves_take likeness.back choose s hin
    obtain ⟨hread, hscan⟩ := likeness.consume h hs
    unfold take
    rw [peek_eq likeness h hs]
    cases s.cursor.peek with
    | error stop => exact ⟨rfl, rfl, h⟩
    | ok current =>
      dsimp only
      cases choose current with
      | none => exact ⟨rfl, rfl, h⟩
      | some value =>
        generalize s.cursor.consume = first at hread hscan ⊢
        generalize t.cursor.consume = second at hread hscan ⊢
        obtain ⟨result, cursor⟩ := first
        obtain ⟨result', cursor'⟩ := second
        obtain rfl : result' = result := hread
        cases result' <;> exact ⟨rfl, rfl, hscan⟩
  back := moves_take likeness.back choose

/-- A name that may be asked for stands for the same in both scans. -/
theorem respects_backreference [BEq α] {name : String} (hname : reads name) :
    Respects R within (backreference name : Attempt α α) where
  same {s t} h hin := by
    unfold backreference at hin ⊢
    rw [likeness.get? h name hname]
    cases hvalue : s.captures.get? name with
    | none => exact ⟨rfl, rfl, h⟩
    | some value =>
      rw [hvalue] at hin
      exact (respects_take likeness _).same h hin
  back := moves_backreference likeness.back name

/-! ## One after the other, one or the other -/

/-- What becomes of a value may depend on the positions before and after. -/
theorem Respects.select {a : Attempt α σ} (h : Respects R within a)
    (f : Nat → Nat → σ → Option τ) : Respects R within (a.select f) where
  same {s t} hst hin := by
    obtain ⟨hout, htrace, hscan⟩ := h.same hst hin
    refine ⟨?_, htrace, hscan⟩
    show Outcome.bind _ _ = Outcome.bind _ _
    rw [hout, likeness.position hst, likeness.position hscan]
  back := h.back

omit likeness in
theorem Respects.andThen {a : Attempt α σ} {next : σ → Attempt α τ} (h : Respects R within a)
    (k : ∀ s x, (a s).outcome = .matched x → Respects R within (next x)) :
    Respects R within (a.andThen next) where
  same {s t} hst hin := by
    unfold Attempt.andThen at hin ⊢
    cases hx : (a s).outcome with
    | matched x =>
      simp only [hx] at hin ⊢
      -- what follows has stayed within the bounds, and so has what came before it
      have hnext := k s x hx
      obtain ⟨hout, htrace, hscan⟩ := h.same hst (hnext.back _ hin)
      obtain ⟨hout', htrace', hscan'⟩ := hnext.same hscan hin
      simp only [hout, hx, Run.after]
      exact ⟨hout', by rw [htrace, htrace'], hscan'⟩
    | _ =>
      simp only [hx] at hin ⊢
      obtain ⟨hout, htrace, hscan⟩ := h.same hst hin
      simp only [hout, hx]
      exact ⟨rfl, htrace, hscan⟩
  back s := by
    rcases a.andThen_cases next s with ⟨x, hx, hrun⟩ | ⟨o, hrun, -⟩
    · rw [hrun]
      exact fun hin => h.back s ((k s x hx).back _ hin)
    · rw [hrun]
      exact h.back s

theorem Respects.either {a b : Attempt α τ} (h : Respects R within a) (k : Respects R within b) :
    Respects R within (a.either b) where
  same {s t} hst hin := by
    unfold Attempt.either at hin ⊢
    cases hx : (a s).outcome with
    | failed =>
      simp only [hx] at hin ⊢
      obtain ⟨hout, htrace, hscan⟩ := h.same hst (k.back _ hin)
      obtain ⟨hout', htrace', hscan'⟩ := k.same hscan hin
      simp only [hout, hx, Run.after]
      exact ⟨hout', by rw [htrace, htrace'], hscan'⟩
    | _ =>
      simp only [hx] at hin ⊢
      have hfirst := h.same hst hin
      simp only [hfirst.outcome, hx]
      exact hfirst
  back := h.back.either likeness.back k.back

omit likeness in
theorem Respects.optional {a : Attempt α τ} (h : Respects R within a) :
    Respects R within a.optional where
  same {s t} hst hin := by
    unfold Attempt.optional at hin ⊢
    cases hx : (a s).outcome <;> simp only [hx] at hin ⊢ <;>
      obtain ⟨hout, htrace, hscan⟩ := h.same hst hin <;> simp only [hout, hx] <;>
      exact ⟨rfl, htrace, hscan⟩
  back := h.back.optional

/-! ## Again and again -/

/-- Rounds respect the likeness, and there are as many attempts of them. -/
theorem Respects.gather {a : Attempt α τ} (h : Respects R within a) (full : Outcome (List τ))
    (room : Nat) {s t : Scan α} (hst : R s t) (hin : within (gather full a room s).run.scan) :
    (gather full a room s).run.SameUpTo R (gather full a room t).run ∧
      (gather full a room t).attempts = (gather full a room s).attempts := by
  induction room generalizing s t with
  | zero => exact ⟨⟨rfl, rfl, hst⟩, rfl⟩
  | succ room ih =>
    unfold Attempt.gather at hin ⊢
    cases hx : (a s).outcome with
    | matched x =>
      simp only [hx] at hin ⊢
      have hfirst := h.back.gather likeness.back full room (a s).scan hin
      obtain ⟨hout, htrace, hscan⟩ := h.same hst hfirst
      obtain ⟨⟨hout', htrace', hscan'⟩, hattempts⟩ := ih hscan hin
      simp only [hout, hx, Run.after, Run.map, Run.withOutcome, hattempts]
      exact ⟨⟨by rw [hout'], by rw [htrace, htrace'], hscan'⟩, trivial⟩
    | _ =>
      simp only [hx] at hin ⊢
      obtain ⟨hout, htrace, hscan⟩ := h.same hst hin
      simp only [hout, hx]
      exact ⟨⟨rfl, htrace, hscan⟩, trivial⟩

theorem Respects.repeated {a : Attempt α τ} (h : Respects R within a) (times : Repetition)
    (limit : Nat) : Respects R within (a.repeated times limit) where
  same {s t} hst hin := by
    rw [scan_repeated] at hin
    obtain ⟨⟨hout, htrace, hscan⟩, hattempts⟩ :=
      h.gather likeness (full times) (room times limit) hst hin
    refine ⟨?_, ?_, ?_⟩
    · rw [outcome_repeated, outcome_repeated]
      exact congrArg (Outcome.bind · (counted times)) hout
    · cases hmost : times.most with
      | some most =>
        have hbounded : times.most ≠ none := by rw [hmost]; rintro ⟨⟩
        rw [trace_repeated_of_bounded hbounded, trace_repeated_of_bounded hbounded]
        exact htrace
      | none =>
        rw [trace_repeated_of_unbounded hmost, trace_repeated_of_unbounded hmost, hattempts,
          likeness.position hst]
        exact congrArg (fun inside => [Event.repeated _ _ inside]) htrace
    · rw [scan_repeated, scan_repeated]
      exact hscan
  back := h.back.repeated likeness.back times limit

/-! ## Remembering -/

theorem Respects.capture {a : Attempt α α} (h : Respects R within a) (name : String) :
    Respects R within (a.capture name) where
  same {s t} hst hin := by
    unfold Attempt.capture at hin ⊢
    cases hx : (a s).outcome with
    | matched value =>
      simp only [hx] at hin ⊢
      obtain ⟨hout, htrace, hscan⟩ := h.same hst (likeness.back.capture _ name value hin)
      simp only [hout, hx, htrace, likeness.position hscan]
      exact ⟨rfl, rfl, likeness.capture hscan name value⟩
    | _ =>
      simp only [hx] at hin ⊢
      have hbody := h.same hst hin
      simp only [hbody.outcome, hx]
      exact hbody
  back := h.back.capture likeness.back name

theorem Respects.spanned {a : Attempt α τ} (h : Respects R within a) :
    Respects R within a.spanned where
  same {s t} hst hin := by
    unfold Attempt.spanned at hin ⊢
    cases hx : (a s).outcome <;> simp only [hx] at hin ⊢ <;>
      obtain ⟨hout, htrace, hscan⟩ := h.same hst hin <;>
      simp only [hout, hx, likeness.position hst, likeness.position hscan]
    · exact ⟨rfl, by simp only [Run.wrap, Run.withOutcome, htrace], hscan⟩
    all_goals exact ⟨rfl, htrace, hscan⟩
  back := h.back.spanned

theorem Respects.expansion {a : Attempt α τ} (h : Respects R within a) :
    Respects R within a.expansion where
  same {s t} hst hin := by
    obtain ⟨hout, htrace, hscan⟩ := h.same hst hin
    refine ⟨hout, ?_, hscan⟩
    simp only [Attempt.expansion, Run.wrap, htrace, likeness.position hst]
  back := h.back.expansion

/-- Attempts respect a likeness in every way in which they are built. -/
theorem inherited_respects [BEq α] :
    Inherited (α := α) (fun _ => True) reads (Respects R within) where
  take := respects_take likeness
  look := respects_look likeness
  backreference _ := respects_backreference likeness
  succeed := respects_succeed likeness
  fail := ⟨fun h _ => ⟨rfl, rfl, h⟩, fun s => likeness.back.refl s⟩
  giveUp := ⟨fun h _ => ⟨rfl, rfl, h⟩, fun s => likeness.back.refl s⟩
  select h := h.select likeness
  andThen h k := h.andThen k
  either h k := h.either likeness k
  repeated h := h.repeated likeness
  optional h := h.optional
  capture h name _ := h.capture likeness name
  spanned h := h.spanned likeness
  expansion h := h.expansion likeness

end Attempt
end Forward
