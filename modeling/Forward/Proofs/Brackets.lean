/-
  Nested brackets: a rule that calls itself, on bracketings that are closed and on others.

  The rule opens a bracket, calls itself, closes the bracket, and counts the depth; where this fails
  it takes nothing, with depth 0.  Nothing is put back when it fails.  So one level of it goes in one
  of these ways, each of them a lemma:

  * no bracket is opened, and the depth is 0 (`yields_empty`);
  * the bracket is closed, and the depth is one more than inside (`yields_level_closed`);
  * another character stands where it would be closed: what was read inside stays read, and the
    depth is 0 (`yields_level_unclosed`);
  * nothing is left, and the last character of all is still on show: if it is the bracket that the
    level waits for, it is asked for once more, and the read is past the end (`yields_unopened`,
    `yields_level_starved`).

  A run is an induction on the number of open brackets.  With enough closing ones the innermost
  levels close first (`yields_balanced`).  With too few, the outermost levels are left over, and all
  of them fail in the same place: in front of what comes next (`yields_unclosed`), or at the end
  (`yields_cut_off`).
-/
import Forward.Proofs.Sweeps

namespace Forward

/-! ## The rule -/

/-- The names of the rules. -/
inductive BracketRule : Type → Type where
  | nested : BracketRule Nat

/-- Nested brackets, with their depth, or nothing. -/
def brackets : Grammar Char BracketRule
  | _, .nested =>
    .either
      (.map (fun v => v.1.2 + 1) (.both (.both (.item '(') (.rule .nested)) (.item ')')))
      (.pure 0)

namespace Brackets

open Attempt Cursor

/-- The rule, with at most `bound` levels. -/
def nested (bound : Nat) : Attempt Char Nat :=
  (Matcher.rule BracketRule.nested).run brackets bound

/-- One opening bracket. -/
def opening : Attempt Char Char := satisfy fun c => decide (c = '(')

/-- One closing bracket. -/
def closing : Attempt Char Char := satisfy fun c => decide (c = ')')

/-- What is made of a level inside, within brackets. -/
def bracketed (inside : Attempt Char Nat) : Attempt Char Nat :=
  ((opening.both inside).both closing).map fun v => v.1.2 + 1

/-- What is made of a level inside. -/
def level (inside : Attempt Char Nat) : Attempt Char Nat := (bracketed inside).either (succeed 0)

theorem nested_succ (bound : Nat) : nested (bound + 1) = (level (nested bound)).expansion := rfl

theorem yields_nested {bound : Nat} {s t : Scan Char} {o : Outcome Nat}
    (h : Yields (level (nested bound)) s o t) : Yields (nested (bound + 1)) s o t := by
  rw [nested_succ]
  exact ⟨h.outcome, h.scan⟩

/-! ## One level -/

section Level

variable {inside : Attempt Char Nat} {c c' : Cursor Char} {captures : Captures Char}
  {rest : List Char} {depth : Nat}

/-- No bracket is opened. -/
theorem yields_empty {y : Char} (shown : c.shown = some y) (other : y ≠ '(') :
    Yields (level inside) ⟨c, captures⟩ (.matched 0) ⟨c, captures⟩ := by
  have hopen : Yields opening ⟨c, captures⟩ .failed ⟨c, captures⟩ :=
    yields_satisfy_failed shown (decide_eq_false other)
  exact (((hopen.both_failed _).both_failed _).map _).either ⟨rfl, rfl⟩

/-- Nothing is left where a bracket would be opened, and the last character is an opening one. -/
theorem yields_unopened (exhausted : c.remaining = []) (shown : c.shown = some '(') :
    Yields (level inside) ⟨c, captures⟩ (.ended ⟨c.position⟩) ⟨⟨c.position, .spent⟩, captures⟩ := by
  have hopen : Yields opening ⟨c, captures⟩ (.ended ⟨c.position⟩)
      ⟨⟨c.position, .spent⟩, captures⟩ := yields_satisfy_again exhausted shown rfl
  exact (((hopen.both_ended _).both_ended _).map _).either_left (by rintro ⟨⟩) _

variable (h : c.remaining = '(' :: rest)

include h

/-- The level inside reads past the end. -/
theorem yields_level_ended {stop : PastEnd} {t : Scan Char}
    (hinside : Yields inside ⟨c.past 1, captures⟩ (.ended stop) t) :
    Yields (level inside) ⟨c, captures⟩ (.ended stop) t := by
  have hopen : Yields opening ⟨c, captures⟩ _ _ := yields_satisfy_past captures h rfl
  have hboth : Yields (opening.both inside) ⟨c, captures⟩ (.ended stop) t := hopen.both hinside
  exact ((hboth.both_ended _).map _).either_left (by rintro ⟨⟩) _

variable (hinside : Yields inside ⟨c.past 1, captures⟩ (.matched depth) ⟨c', captures⟩)

include hinside

/-- Behind the level inside, the closing bracket decides. -/
theorem yields_bracketed {o : Outcome Char} {t : Scan Char}
    (hclose : Yields closing ⟨c', captures⟩ o t) :
    Yields (bracketed inside) ⟨c, captures⟩ (o.map fun _ => depth + 1) t := by
  have hopen : Yields opening ⟨c, captures⟩ _ _ := yields_satisfy_past captures h rfl
  have hall := ((hopen.both hinside).both hclose).map fun v => v.1.2 + 1
  cases o <;> exact hall

/-- The bracket is closed. -/
theorem yields_level_closed {rest' : List Char} (next : c'.remaining = ')' :: rest') :
    Yields (level inside) ⟨c, captures⟩ (.matched (depth + 1)) ⟨c'.past 1, captures⟩ := by
  have hclose : Yields closing ⟨c', captures⟩ _ _ := yields_satisfy_past captures next rfl
  exact (yields_bracketed h hinside hclose).either_left (by rintro ⟨⟩) _

/-- Another character stands where the bracket would be closed. -/
theorem yields_level_unclosed {y : Char} (shown : c'.shown = some y) (other : y ≠ ')') :
    Yields (level inside) ⟨c, captures⟩ (.matched 0) ⟨c', captures⟩ := by
  have hclose : Yields closing ⟨c', captures⟩ .failed ⟨c', captures⟩ :=
    yields_satisfy_failed shown (decide_eq_false other)
  exact Yields.either (yields_bracketed h hinside hclose) ⟨rfl, rfl⟩

/-- Nothing is left where the bracket would be closed, and the last character is a closing one. -/
theorem yields_level_starved (exhausted : c'.remaining = []) (shown : c'.shown = some ')') :
    Yields (level inside) ⟨c, captures⟩ (.ended ⟨c'.position⟩)
      ⟨⟨c'.position, .spent⟩, captures⟩ := by
  have hclose : Yields closing ⟨c', captures⟩ (.ended ⟨c'.position⟩)
      ⟨⟨c'.position, .spent⟩, captures⟩ := yields_satisfy_again exhausted shown rfl
  exact (yields_bracketed h hinside hclose).either_left (by rintro ⟨⟩) _

end Level

/-! ## Bracketings -/

/-- `d` opening brackets, `k` closing ones, and what comes after them. -/
def bracketing (d k : Nat) (tail : List Char) : List Char :=
  List.replicate d '(' ++ (List.replicate k ')' ++ tail)

theorem bracketing_succ (d k : Nat) (tail : List Char) :
    bracketing (d + 1) k tail = '(' :: bracketing d k tail := rfl

theorem bracketing_add (d k n : Nat) (tail : List Char) :
    bracketing d (k + n) tail = bracketing d k (List.replicate n ')' ++ tail) := by
  rw [bracketing, ← List.replicate_append_replicate, List.append_assoc, bracketing]

section Places

variable {c : Cursor Char}

theorem remaining_past_bracketing {d k : Nat} {tail : List Char}
    (h : c.remaining = bracketing d k tail) : (c.past (d + k)).remaining = tail := by
  rw [bracketing, ← List.append_assoc] at h
  have hpast := remaining_past h
  rwa [List.length_append, List.length_replicate, List.length_replicate] at hpast

theorem position_past_bracketing {d k : Nat} {tail : List Char}
    (h : c.remaining = bracketing d k tail) : (c.past (d + k)).position = c.position + (d + k) := by
  rw [bracketing, ← List.append_assoc] at h
  have hpast := position_past h
  rwa [List.length_append, List.length_replicate, List.length_replicate] at hpast

/-- Behind the last bracket of all it is still on show. -/
theorem shown_past_bracketing {d k : Nat} (h : c.remaining = bracketing d (k + 1) []) :
    (c.past (d + (k + 1))).shown = some ')' := by
  rw [bracketing_add, bracketing, ← List.append_assoc] at h
  have hfront := front_past
    (show c.remaining = (List.replicate d '(' ++ List.replicate k ')') ++ ')' :: [] from h)
  rw [List.length_append, List.length_replicate, List.length_replicate, Nat.add_assoc] at hfront
  rw [Cursor.shown, hfront]
  rfl

end Places

/-! ## Runs of the rule -/

variable {c : Cursor Char} {captures : Captures Char}

/-- As many closing brackets as opening ones: every level is closed.  Without any bracket there has
    to be something on show that is not one. -/
theorem yields_balanced {d bound : Nat} {rest : List Char} (h : c.remaining = bracketing d d rest)
    (hnone : d = 0 → ∃ y, c.shown = some y ∧ y ≠ '(') (enough : d < bound) :
    Yields (nested bound) ⟨c, captures⟩ (.matched d) ⟨c.past (d + d), captures⟩ := by
  obtain ⟨bound, rfl⟩ : ∃ n, bound = n + 1 := ⟨bound - 1, by omega⟩
  refine yields_nested ?_
  induction d generalizing c rest bound with
  | zero =>
    obtain ⟨y, hshown, hother⟩ := hnone rfl
    exact yields_empty hshown hother
  | succ d ih =>
    obtain ⟨bound, rfl⟩ : ∃ n, bound = n + 1 := ⟨bound - 1, by omega⟩
    rw [bracketing_succ] at h
    have hnext : (c.past 1).remaining = bracketing d d (')' :: rest) := by
      rw [remaining_past_one h, bracketing_add]
      rfl
    have hinside : Yields (nested (bound + 1)) ⟨c.past 1, captures⟩ (.matched d)
        ⟨(c.past 1).past (d + d), captures⟩ := by
      refine yields_nested (ih hnext ?_ _ (by omega))
      rintro rfl
      exact ⟨')', shown_of_remaining hnext, by decide⟩
    have hlevel := yields_level_closed h hinside (remaining_past_bracketing hnext)
    rw [← past_add, ← past_add] at hlevel
    rwa [show d + 1 + (d + 1) = 1 + (d + d) + 1 by omega]

/-- Fewer closing brackets than opening ones, and another character behind them: the levels that are
    left over all fail in front of it. -/
theorem yields_unclosed {d k bound : Nat} {y : Char} {tail : List Char}
    (h : c.remaining = bracketing d k (y :: tail)) (hopen : y ≠ '(') (hclose : y ≠ ')')
    (few : k < d) (enough : d < bound) :
    Yields (nested bound) ⟨c, captures⟩ (.matched 0) ⟨c.past (d + k), captures⟩ := by
  induction d generalizing c bound with
  | zero => omega
  | succ d ih =>
    obtain ⟨bound, rfl⟩ : ∃ n, bound = n + 1 := ⟨bound - 1, by omega⟩
    rw [bracketing_succ] at h
    have hnext := remaining_past_one h
    have hinside : ∃ depth, Yields (nested bound) ⟨c.past 1, captures⟩ (.matched depth)
        ⟨(c.past 1).past (d + k), captures⟩ := by
      rcases Nat.lt_or_eq_of_le (Nat.le_of_lt_succ few) with hlt | rfl
      · exact ⟨0, ih hnext hlt (by omega)⟩
      · refine ⟨k, yields_balanced hnext ?_ (by omega)⟩
        rintro rfl
        exact ⟨y, shown_of_remaining hnext, hopen⟩
    obtain ⟨depth, hinside⟩ := hinside
    have hshown := shown_of_remaining (remaining_past_bracketing hnext)
    have hlevel := yields_level_unclosed h hinside hshown hclose
    rw [← past_add] at hlevel
    rw [show d + 1 + k = 1 + (d + k) by omega]
    exact yields_nested hlevel

/-- Fewer closing brackets than opening ones, and nothing behind them: the innermost one of the
    levels that are left over reads past the end. -/
theorem yields_cut_off {d k bound : Nat} (h : c.remaining = bracketing d k []) (few : k < d)
    (enough : d < bound) :
    Yields (nested bound) ⟨c, captures⟩ (.ended ⟨c.position + (d + k)⟩)
      ⟨⟨c.position + (d + k), .spent⟩, captures⟩ := by
  induction d generalizing c bound with
  | zero => omega
  | succ d ih =>
    obtain ⟨bound, rfl⟩ : ∃ n, bound = n + 1 := ⟨bound - 1, by omega⟩
    refine yields_nested ?_
    rw [bracketing_succ] at h
    have hnext := remaining_past_one h
    have hposition : (c.past 1).position + (d + k) = c.position + (d + 1 + k) := by
      have hone : (c.past 1).position = c.position + 1 :=
        position_past (show c.remaining = ['('] ++ bracketing d k [] from h)
      omega
    rw [← hposition]
    rcases Nat.lt_or_eq_of_le (Nat.le_of_lt_succ few) with hlt | rfl
    · exact yields_level_ended h (ih hnext hlt (by omega))
    · -- all closing brackets go to the levels inside
      cases k with
      | zero =>
        obtain ⟨bound, rfl⟩ : ∃ n, bound = n + 1 := ⟨bound - 1, by omega⟩
        have hfront : (c.past 1).front = .pending '(' :=
          front_past (show c.remaining = [] ++ '(' :: [] from h)
        have hshown : (c.past 1).shown = some '(' := congrArg Front.shown hfront
        exact yields_level_ended h (yields_nested (yields_unopened hnext hshown))
      | succ k =>
        have hinside : Yields (nested bound) ⟨c.past 1, captures⟩ (.matched (k + 1)) _ :=
          yields_balanced hnext (by rintro ⟨⟩) (by omega)
        rw [← position_past_bracketing hnext]
        exact yields_level_starved h hinside (remaining_past_bracketing hnext)
          (shown_past_bracketing hnext)

end Brackets

open Attempt Brackets Cursor

/-- The rule where `d` opening brackets come next, then `k` closing ones, and then something else or
    nothing.  If there are enough closing ones it matches with depth `d`, past as many of them.  If
    not, it depends on what is behind them.  If there is something else it matches with depth 0, past
    all the brackets, and if they are the last ones of the stream it reads past the end. -/
theorem Matcher.run_nested {s : Scan Char} {d k bound : Nat} {tail : List Char}
    (next : s.cursor.remaining = List.replicate d '(' ++ List.replicate k ')' ++ tail)
    (opened : 1 ≤ d) (other : ∀ y ∈ tail.head?, y ≠ '(' ∧ y ≠ ')') (enough : d < bound) :
    let r := (rule BracketRule.nested).run brackets bound s
    (d ≤ k → r.outcome = .matched d ∧ r.scan.position = s.position + 2 * d) ∧
    (k < d → tail ≠ [] → r.outcome = .matched 0 ∧ r.scan.position = s.position + (d + k)) ∧
    (k < d → tail = [] → r.outcome = .ended ⟨s.position + (d + k)⟩ ∧
      r.scan.position = s.position + (d + k)) := by
  intro r
  rw [List.append_assoc] at next
  have hr : ∀ {o t}, Yields (nested bound) s o t →
      r.outcome = o ∧ r.scan.position = t.position :=
    fun h => ⟨h.outcome, congrArg Scan.position h.scan⟩
  refine ⟨fun hle => ?_, fun few hsome => ?_, fun few hnone => ?_⟩
  · obtain ⟨more, rfl⟩ := Nat.exists_eq_add_of_le hle
    have hclosed : s.cursor.remaining = bracketing d d (List.replicate more ')' ++ tail) :=
      next.trans (bracketing_add d d more tail)
    obtain ⟨houtcome, hstop⟩ := hr (yields_balanced hclosed (by omega) enough)
    refine ⟨houtcome, hstop.trans ?_⟩
    rw [Nat.two_mul]
    exact position_past_bracketing hclosed
  · obtain ⟨y, tail, rfl⟩ := List.exists_cons_of_ne_nil hsome
    obtain ⟨hopen, hclose⟩ := other y rfl
    obtain ⟨houtcome, hstop⟩ := hr (yields_unclosed next hopen hclose few enough)
    exact ⟨houtcome, hstop.trans (position_past_bracketing next)⟩
  · subst hnone
    exact hr (yields_cut_off next few enough)

/-- Two opening brackets and one closing one, with another character behind them and with none. -/
theorem Matcher.run_nested_half_closed :
    ((rule BracketRule.nested).run brackets 3 (Scan.ofList ['(', '(', ')', ']'])).outcome =
      .matched 0 ∧
    ((rule BracketRule.nested).run brackets 3 (Scan.ofList ['(', '(', ')'])).outcome =
      .ended ⟨3⟩ := by
  have hfollowed : (Scan.ofList ['(', '(', ')', ']']).cursor.remaining =
      List.replicate 2 '(' ++ List.replicate 1 ')' ++ [']'] := rfl
  have hlast : (Scan.ofList ['(', '(', ')']).cursor.remaining =
      List.replicate 2 '(' ++ List.replicate 1 ')' ++ [] := rfl
  have hother : ∀ y ∈ [']'].head?, y ≠ '(' ∧ y ≠ ')' := by
    rintro _ ⟨⟩
    decide
  obtain ⟨-, hfallen, -⟩ := run_nested hfollowed (by decide) hother (show 2 < 3 by decide)
  obtain ⟨-, -, hended⟩ := run_nested hlast (by decide) (by rintro _ ⟨⟩) (show 2 < 3 by decide)
  exact ⟨(hfallen (by decide) (by decide)).1, (hended (by decide) rfl).1⟩

end Forward
