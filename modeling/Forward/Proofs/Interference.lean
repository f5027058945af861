/-
  Interference: what is captured under a name is seen by backreferences to that name only.

  Two scans `AgreeOff` a name if they stand at the same place of the same stream and every other
  name stands for the same in both.  Captures write and are never asked, choices and repetitions go
  by outcomes, and what comes after a value is chosen by the value.  So such scans are alike
  (`likeness_agreeOff`), and only a backreference to the name itself tells them apart: a match that
  reaches none comes out alike, reports the same, stops at the same place, and leaves scans that
  agree off the name again.

  What two such runs capture is the same as well, so that after a capture of the name they agree on
  it, too (`Captures.get?_replay_of_mem`).
-/
import Forward.Proofs.Likeness
import Forward.Proofs.Replay

namespace Forward

variable {α τ : Type} {ρ : Type → Type}

/-- The scan `t` stands where `s` does, and every name but `hidden` stands for the same. -/
structure AgreeOff (hidden : String) (s t : Scan α) : Prop where
  cursor : t.cursor = s.cursor
  captures : ∀ name, name ≠ hidden → t.captures.get? name = s.captures.get? name

/-- Scans that agree off a name are alike without bounds, if only other names are asked for.  Where
    both capture the same value they still agree, also if it is under the name itself. -/
theorem likeness_agreeOff (hidden : String) :
    Likeness (α := α) (AgreeOff hidden) (fun _ => True) (· ≠ hidden) where
  position h := congrArg Cursor.position h.cursor
  shown h _ := by rw [h.cursor]
  consume h _ := by
    rw [h.cursor]
    exact ⟨rfl, rfl, h.captures⟩
  get? h := h.captures
  capture {s t} h name value := by
    refine ⟨h.cursor, fun other hother => ?_⟩
    show (t.captures.capture name value).get? other = (s.captures.capture name value).get? other
    rw [Captures.get?_capture, Captures.get?_capture, h.captures other hother]
  back := {
    refl := fun _ h => h
    trans := fun h k hin => h (k hin)
    consume := fun _ hin => hin
    capture := fun _ _ _ hin => hin }

/-! ## Matchers -/

open Attempt

variable [BEq α]

/-- Where a match reaches no backreference to a name, what stands under the name does not matter to
    it.  From scans that differ in nothing else it comes out alike, reports the same and stops at
    the same place, and every other name stands for the same afterwards.  So does the name itself,
    if the match captured something under it.  This holds for every bound, and so for every two
    runs that come to an answer. -/
theorem Matcher.run_of_unread (g : Grammar α ρ) (bound : Nat) (m : Matcher α ρ τ) {hidden : String}
    (unread : ¬ Reaches g m (.backreference hidden)) {s t : Scan α} (cursor : t.cursor = s.cursor)
    (captures : ∀ name, name ≠ hidden → t.captures.get? name = s.captures.get? name) :
    let r := m.run g bound s
    let r' := m.run g bound t
    r'.outcome = r.outcome ∧ r'.scan.cursor = r.scan.cursor ∧ r'.trace = r.trace ∧
    (∀ name, name ≠ hidden → r'.scan.captures.get? name = r.scan.captures.get? name) ∧
    (hidden ∈ (m.made g bound s).map Prod.fst →
      r'.scan.captures.get? hidden = r.scan.captures.get? hidden) := by
  intro r r'
  have hothers : ∀ name, Reaches g m (.backreference name) → name ≠ hidden := by
    rintro name h rfl
    exact unread h
  have hrespects := m.run_of_inherited (inherited_respects (likeness_agreeOff hidden)) g
    (fun _ _ _ => trivial) hothers bound
  obtain ⟨hout, htrace, hscan⟩ := hrespects.same ⟨cursor, captures⟩ trivial
  refine ⟨hout, hscan.cursor, htrace, hscan.captures, ?_⟩
  intro hmade
  have hs := m.replays_made g bound s
  have ht := m.replays_made g bound t
  -- the traces are the same, and so are the captures that they tell of
  have hsame : m.made g bound t = m.made g bound s := by
    rw [← ht.trace_eq, ← hs.trace_eq, htrace]
  show (m.run g bound t).scan.captures.get? hidden = (m.run g bound s).scan.captures.get? hidden
  rw [hs.captures, ht.captures, hsame]
  exact Captures.get?_replay_of_mem hmade _ _

/-- A letter is captured and a sign repeated: which letter was captured before is not seen. -/
theorem Matcher.run_of_unread_letter :
    let m : Matcher Char NoRule (Char × Char) :=
      .both (.capture "letter" .any) (.backreference "sign")
    let s : Scan Char := ⟨.ofList ['a', '!'], Captures.empty.capture "sign" '!'⟩
    let t : Scan Char := ⟨.ofList ['a', '!'], s.captures.capture "letter" 'z'⟩
    (m.run .empty 0 t).outcome = .matched ('a', '!') ∧
      (m.run .empty 0 t).scan.captures.get? "letter" = some 'a' := by
  intro m s t
  have hsign : "sign" ≠ "letter" := by decide
  have heach : m.Each fun k => match k with
      | .backreference name => name ≠ "letter"
      | _ => True :=
    ⟨trivial, ⟨trivial, trivial⟩, hsign⟩
  have hunread : ¬ Reaches .empty m (.backreference "letter") := by
    intro h
    have hname : "letter" ≠ "letter" := (h.each (fun name => name.elim) heach).here
    exact hname rfl
  have hothers : ∀ name, name ≠ "letter" → t.captures.get? name = s.captures.get? name := by
    intro name hname
    show (s.captures.capture "letter" 'z').get? name = s.captures.get? name
    rw [Captures.get?_capture, if_neg hname.symm]
  have hmatched : (m.run .empty 0 s).outcome = .matched ('a', '!') := by decide
  have hmade : "letter" ∈ (m.made .empty 0 s).map Prod.fst := by decide
  have hletter : (m.run .empty 0 s).scan.captures.get? "letter" = some 'a' := by decide
  obtain ⟨hout, -, -, -, hcaptured⟩ :=
    m.run_of_unread .empty 0 hunread (s := s) (t := t) rfl hothers
  exact ⟨hout.trans hmatched, (hcaptured hmade).trans hletter⟩

end Forward
