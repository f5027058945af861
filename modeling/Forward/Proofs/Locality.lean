/-
  Locality: a run depends on what it took and on the one element that it sees behind that.

  `Shares k s t` says that the scan `t` stands where `s` does, in a stream that agrees with that of
  `s` up to the element with the number `k`, and that the stream of `s` goes on so far.  Behind
  that element the streams may differ in any way, or end.  Scans that share their streams are alike
  as long as they stop at `k` or before it (`likeness_shares`).

  Where a run stops is only known at its end, but nothing moves backwards: if the whole run stops
  at `k` or before it, so does each part.  Therefore every match respects this likeness, also where
  its second part is chosen by the value of the first.
-/
import Forward.Proofs.Likeness
import Forward.Proofs.Progress

namespace Forward

variable {α τ : Type}

/-- The scan `t` stands where `s` does, in streams that agree up to the element with the number
    `k`, which is there in the stream of `s`. -/
structure Shares (k : Nat) (s t : Scan α) : Prop where
  position : t.position = s.position
  captures : t.captures = s.captures
  reaches : k < s.position + s.cursor.remaining.length
  agree : t.cursor.remaining.take (k + 1 - s.position) =
    s.cursor.remaining.take (k + 1 - s.position)

/-- In front of the element `k` both scans see the same element, and share what is behind it. -/
theorem Shares.next {k : Nat} {s t : Scan α} (h : Shares k s t) (le : s.position ≤ k) :
    ∃ x xs ys, s.cursor.remaining = x :: xs ∧ t.cursor.remaining = x :: ys ∧
      ys.take (k - s.position) = xs.take (k - s.position) := by
  have hreaches := h.reaches
  have hagree := h.agree
  have hcount : k + 1 - s.position = (k - s.position) + 1 := by omega
  rw [hcount] at hagree
  cases hs : s.cursor.remaining with
  | nil =>
    rw [hs, List.length_nil] at hreaches
    omega
  | cons x xs =>
    rw [hs, List.take_succ_cons] at hagree
    cases ht : t.cursor.remaining with
    | nil =>
      rw [ht, List.take_nil] at hagree
      cases hagree
    | cons y ys =>
      rw [ht, List.take_succ_cons] at hagree
      obtain ⟨rfl, hrest⟩ := List.cons.inj hagree
      exact ⟨y, xs, ys, rfl, rfl, hrest⟩

/-- Scans that share their streams are alike as long as they stop in front of the last element that
    they share.  All names stand for the same in both. -/
theorem likeness_shares (k : Nat) :
    Likeness (α := α) (Shares k) (fun s => s.position ≤ k) fun _ => True where
  position h := h.position
  shown h hs := by
    obtain ⟨x, xs, ys, hremaining, hremaining', -⟩ := h.next hs
    rw [Cursor.shown_of_remaining hremaining, Cursor.shown_of_remaining hremaining']
  consume {s t} h hs := by
    obtain ⟨x, xs, ys, hremaining, hremaining', hrest⟩ := h.next hs
    have hreaches := h.reaches
    rw [hremaining, List.length_cons] at hreaches
    rw [Cursor.consume_of_remaining hremaining, Cursor.consume_of_remaining hremaining']
    refine ⟨rfl, congrArg (· + 1) h.position, h.captures, ?_, ?_⟩
    · show k < s.position + 1 + (Front.after x xs).remaining.length
      rw [Front.remaining_after]
      omega
    · have hcount : k + 1 - (s.position + 1) = k - s.position := by omega
      show (Front.after x ys).remaining.take (k + 1 - (s.position + 1)) =
        (Front.after x xs).remaining.take (k + 1 - (s.position + 1))
      rw [Front.remaining_after, Front.remaining_after, hcount, hrest]
  get? h name _ := by rw [h.captures]
  capture {s t} h name value := by
    refine ⟨h.position, ?_, h.reaches, h.agree⟩
    show t.captures.capture name value = s.captures.capture name value
    rw [h.captures]
  back := {
    refl := fun _ h => h
    trans := fun h k hin => h (k hin)
    consume := fun s hin => Nat.le_trans (onward_consume s).position_le hin
    capture := fun _ _ _ hin => hin }

variable {ρ : Type → Type} [BEq α]

theorem Matcher.run_respects_shares (g : Grammar α ρ) (bound : Nat) (m : Matcher α ρ τ) (k : Nat) :
    Attempt.Respects (Shares k) (fun s => s.position ≤ k) (m.run g bound) :=
  m.run_of_inherited (Attempt.inherited_respects (likeness_shares k)) g (fun _ _ _ => trivial)
    (fun _ _ => trivial) bound

/-- Where a run from the beginning of `xs` stops in front of an element, the run from the beginning
    of every stream that agrees with `xs` up to this element is the same: it comes out alike and
    reports the same, stops at the same position in front of the same element, and leaves the same
    captures.  This holds for every bound, and so for every run that comes to an answer. -/
theorem Matcher.run_of_take_eq (g : Grammar α ρ) (bound : Nat) (m : Matcher α ρ τ)
    (captures : Captures α) (xs ys : List α) :
    let r := m.run g bound ⟨.ofList xs, captures⟩
    let r' := m.run g bound ⟨.ofList ys, captures⟩
    r.scan.atEnd = false → ys.take (r.scan.position + 1) = xs.take (r.scan.position + 1) →
      r'.outcome = r.outcome ∧ r'.scan.position = r.scan.position ∧
        r'.scan.cursor.shown = r.scan.cursor.shown ∧ r'.scan.atEnd = false ∧
        r'.scan.captures = r.scan.captures ∧ r'.trace = r.trace := by
  intro r r' hfront hagree
  have hlength := (m.run_onward g bound ⟨.ofList xs, captures⟩).length_add
  have hxs : (Cursor.ofList xs).remaining = xs := Cursor.remaining_ofList xs
  have hys : (Cursor.ofList ys).remaining = ys := Cursor.remaining_ofList ys
  -- the element in front of which the run stops is there, and it is the last one they share
  have hreaches : r.scan.position < xs.length := by
    have hleft : r.scan.cursor.remaining ≠ [] := by
      intro hnil
      have hend : r.scan.atEnd = true := (Cursor.atEnd_iff r.scan.cursor).mpr hnil
      rw [hfront] at hend
      cases hend
    have hpos := List.length_pos_iff.mpr hleft
    have htotal : r.scan.cursor.remaining.length + r.scan.position = xs.length + 0 := by
      rw [← hxs]
      exact hlength
    omega
  have hshares : Shares r.scan.position (⟨.ofList xs, captures⟩ : Scan α) ⟨.ofList ys, captures⟩ := by
    refine ⟨rfl, rfl, ?_, ?_⟩
    · show r.scan.position < 0 + (Cursor.ofList xs).remaining.length
      rw [hxs]
      omega
    · show (Cursor.ofList ys).remaining.take (r.scan.position + 1 - 0) =
        (Cursor.ofList xs).remaining.take (r.scan.position + 1 - 0)
      rw [hxs, hys]
      exact hagree
  have hrespects := m.run_respects_shares g bound r.scan.position
  obtain ⟨hout, htrace, hscan⟩ := hrespects.same hshares (Nat.le_refl _)
  obtain ⟨x, left, left', hs, ht, -⟩ := hscan.next (Nat.le_refl _)
  refine ⟨hout, hscan.position, ?_, ?_, hscan.captures, htrace⟩
  · exact (Cursor.shown_of_remaining ht).trans (Cursor.shown_of_remaining hs).symm
  · have hnot : r'.scan.atEnd ≠ true := by
      intro hend
      have hnil := (Cursor.atEnd_iff r'.scan.cursor).mp hend
      have hcons : r'.scan.cursor.remaining = x :: left' := ht
      rw [hnil] at hcons
      cases hcons
    exact Bool.eq_false_iff.mpr hnot

/-- A letter, and the same letter as long as it comes: the stream may go on in any way behind the
    first other letter. -/
theorem Matcher.run_of_take_eq_backreference :
    let m : Matcher Char NoRule (Char × List Char) :=
      .both (.capture "letter" .any) (.zeroOrMore (.backreference "letter"))
    let r := m.run .empty 4 (Scan.ofList ['a', 'a', 'b'])
    let r' := m.run .empty 4 (Scan.ofList ['a', 'a', 'b', 'a', 'a'])
    r.scan.atEnd = false ∧ r.outcome = .matched ('a', ['a']) ∧ r'.outcome = r.outcome ∧
      r'.scan.position = 2 ∧ r'.scan.captures = r.scan.captures := by
  intro m r r'
  have hfront : r.scan.atEnd = false := by decide
  have hposition : r.scan.position = 2 := by decide
  have hmatched : r.outcome = .matched ('a', ['a']) := by decide
  have hagree : ['a', 'a', 'b', 'a', 'a'].take (r.scan.position + 1) =
      ['a', 'a', 'b'].take (r.scan.position + 1) := by
    rw [hposition]
    rfl
  obtain ⟨hout, hpos, -, -, hcaptures, -⟩ := m.run_of_take_eq .empty 4 .empty ['a', 'a', 'b']
    ['a', 'a', 'b', 'a', 'a'] hfront hagree
  exact ⟨hfront, hmatched, hout, hpos.trans hposition, hcaptures⟩

end Forward
