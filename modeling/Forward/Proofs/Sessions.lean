/-
  Sessions: what a lexer answers, whatever it is asked for.

  A `Call` asks a lexer for the next token, or for up to so many tokens.  Calls in any number and
  order make a session.  How the questions are spread over the calls makes no difference: a session
  is one call for as many tokens as all of its calls ask for together (`session_eq_take`).

  The tokens come from one scan after the other.  `place token s i` is the scan in front of the
  token number `i`: it is what the attempt of the token before it left, and each attempt begins
  there with nothing captured.  `Deal` says what so many questions give: the tokens and the spans
  are those between these scans, and the lexer stands at the last one of them, or it has halted
  behind an attempt that gave no token, with one message about it.  This is shown of one question
  first (`next_cases`), and then of any number of them (`deal_take`).  A session and one more call
  are again so many questions, which says when a call is answered with too few tokens
  (`halted_of_short`).
-/
import Forward.Lexer
import Forward.Matcher.Bound
import Forward.Proofs.History
import Forward.Proofs.Yields

namespace Forward

variable {α τ : Type}

/-! ## Spans one behind the other -/

/-- The spans cover the stretch from `start` to `stop`, and each begins where the one before it
    ends. -/
def Span.Tiles : Nat → List Span → Nat → Prop
  | start, [], stop => stop = start
  | start, span :: later, stop => span.start = start ∧ Tiles span.stop later stop

/-- The stretches between successive positions lie one behind the other. -/
theorem Span.tiles_map_range' (position : Nat → Nat) (first count : Nat) :
    Tiles (position first)
      ((List.range' first count).map fun i => ⟨position i, position (i + 1)⟩)
      (position (first + count)) := by
  induction count generalizing first with
  | zero => rfl
  | succ count ih =>
    have hlater := ih (first + 1)
    rw [show first + 1 + count = first + (count + 1) by omega] at hlater
    rw [List.range'_succ, List.map_cons]
    exact ⟨rfl, hlater⟩

/-! ## What is reported -/

/-- The span of the token that a message reports. -/
def Message.span? : Message → Option Span
  | .token span => some span
  | _ => none

/-- Does the message say that a lexer has halted? -/
def Message.isHalt : Message → Bool
  | .noToken _ => true
  | .noInput _ => true
  | _ => false

/-- The spans of the tokens that are reported. -/
def reportedSpans (messages : List Message) : List Span := messages.filterMap Message.span?

/-- How often it is reported that a lexer has halted. -/
def reportedHalts (messages : List Message) : Nat := messages.countP Message.isHalt

theorem reportedSpans_append (first second : List Message) :
    reportedSpans (first ++ second) = reportedSpans first ++ reportedSpans second :=
  List.filterMap_append

theorem reportedHalts_append (first second : List Message) :
    reportedHalts (first ++ second) = reportedHalts first + reportedHalts second :=
  List.countP_append

mutual

/-- What an event reports is about captures, and about no token. -/
theorem Event.silent_messages (event : Event α) :
    reportedSpans event.messages = [] ∧ reportedHalts event.messages = 0 := by
  cases event with
  | captured => exact ⟨rfl, rfl⟩
  | unbound => exact ⟨rfl, rfl⟩
  | expanded start inside => exact Trace.silent_messages inside
  | spanned span inside => exact Trace.silent_messages inside
  | repeated start attempts inside => exact Trace.silent_messages inside

theorem Trace.silent_messages (trace : List (Event α)) :
    reportedSpans (Trace.messages trace) = [] ∧ reportedHalts (Trace.messages trace) = 0 := by
  cases trace with
  | nil => exact ⟨rfl, rfl⟩
  | cons event later =>
    obtain ⟨hspans, hhalts⟩ := Event.silent_messages event
    obtain ⟨hspans', hhalts'⟩ := Trace.silent_messages later
    rw [Trace.messages, reportedSpans_append, reportedHalts_append, hspans, hspans', hhalts,
      hhalts']
    exact ⟨rfl, rfl⟩

end

/-- The scan with nothing captured. -/
def Scan.fresh (s : Scan α) : Scan α := ⟨s.cursor, .empty⟩

namespace Lexer

/-! ## Calls -/

/-- Something that is asked of a lexer. -/
inductive Call where
  /-- The next token. -/
  | next
  /-- Up to so many tokens, and no further one once there is none. -/
  | tokens (n : Nat)
  deriving DecidableEq, Repr

/-- How many tokens a call asks for. -/
def Call.count : Call → Nat
  | .next => 1
  | .tokens n => n

/-- How many tokens the calls of a session ask for together. -/
def asked : List Call → Nat
  | [] => 0
  | call :: later => call.count + asked later

/-- What a lexer answers to a call. -/
def answer (l : Lexer α τ) : Call → Haul α τ
  | .next => l.next
  | .tokens n => take n l

/-- One answer, and what the lexer that it leaves answers then. -/
def Haul.followedBy (h : Haul α τ) (later : Lexer α τ → Haul α τ) : Haul α τ :=
  ⟨h.tokens ++ (later h.lexer).tokens, (later h.lexer).lexer, h.trace ++ (later h.lexer).trace,
    h.messages ++ (later h.lexer).messages⟩

/-- What a lexer answers to the calls of a session. -/
def session : List Call → Lexer α τ → Haul α τ
  | [], l => ⟨[], l, [], []⟩
  | call :: later, l => (l.answer call).followedBy (session later)

/-! ## A session is one call -/

theorem Haul.followedBy_idle (h : Haul α τ) : (h.followedBy fun l => ⟨[], l, [], []⟩) = h := by
  obtain ⟨tokens, lexer, trace, messages⟩ := h
  simp only [Haul.followedBy, List.append_nil]

theorem Haul.idle_followedBy (l : Lexer α τ) (later : Lexer α τ → Haul α τ) :
    (⟨[], l, [], []⟩ : Haul α τ).followedBy later = later l := rfl

theorem Haul.followedBy_assoc (h : Haul α τ) (second third : Lexer α τ → Haul α τ) :
    (h.followedBy second).followedBy third =
      h.followedBy fun l => (second l).followedBy third := by
  simp only [Haul.followedBy, List.append_assoc]

/-- A halted lexer answers nothing, and stays as it is. -/
theorem take_of_halted {l : Lexer α τ} (h : l.halted = true) (n : Nat) :
    take n l = ⟨[], l, [], []⟩ := by
  cases n with
  | zero => rfl
  | succ n => rw [take, next_of_halted h]

/-- Asking for some tokens is asking for one, and then for the others. -/
theorem take_succ (n : Nat) (l : Lexer α τ) : take (n + 1) l = l.next.followedBy (take n) := by
  rw [take]
  cases htokens : l.next.tokens with
  | nil =>
    -- a question without an answer has halted the lexer, and the others are not answered either
    unfold Haul.followedBy
    rw [take_of_halted (halted_of_next htokens) n]
    exact (Haul.followedBy_idle l.next).symm
  | cons value later =>
    unfold Haul.followedBy
    rw [htokens]

theorem take_add (m n : Nat) (l : Lexer α τ) : take (m + n) l = (take m l).followedBy (take n) := by
  induction m generalizing l with
  | zero =>
    rw [Nat.zero_add]
    exact (Haul.idle_followedBy l (take n)).symm
  | succ m ih =>
    rw [Nat.add_right_comm, take_succ, take_succ, Haul.followedBy_assoc]
    exact congrArg l.next.followedBy (funext ih)

theorem answer_eq_take (l : Lexer α τ) (call : Call) : l.answer call = take call.count l := by
  cases call with
  | next =>
    show l.next = take (0 + 1) l
    rw [take_succ]
    exact (Haul.followedBy_idle l.next).symm
  | tokens n => rfl

/-- All calls of a session are one call for as many tokens. -/
theorem session_eq_take (calls : List Call) (l : Lexer α τ) :
    session calls l = take (asked calls) l := by
  induction calls generalizing l with
  | nil => rfl
  | cons call later ih =>
    rw [session, answer_eq_take, asked, take_add]
    exact congrArg (take call.count l).followedBy (funext ih)

/-! ## One token -/

/-- A question changes nothing about a running lexer but where it stands, and whether it has
    halted. -/
theorem lexer_next {l : Lexer α τ} (running : l.halted = false) :
    ∃ halted, l.next.lexer =
      { l with scan := (l.token l.scan.fresh).scan, halted := halted } := by
  unfold next Scan.fresh
  simp only [running, Bool.false_eq_true, if_false]
  cases (l.token ⟨l.scan.cursor, .empty⟩).outcome <;> exact ⟨_, rfl⟩

/-- A token that is there is handed out, and the lexer stands behind it. -/
theorem next_of_yields {l : Lexer α τ} {value : τ} {s : Scan α} (running : l.halted = false)
    (h : Attempt.Yields l.token l.scan.fresh (.matched value) s) :
    l.next.tokens = [value] ∧ l.next.lexer = { l with scan := s } := by
  obtain ⟨hvalue, hscan⟩ := h
  unfold Scan.fresh at hvalue hscan
  unfold next
  simp only [running, hvalue, hscan, Bool.false_eq_true, if_false, and_self]

/-- Where no token is, none is handed out. -/
theorem tokens_next_of_not_matched {l : Lexer α τ}
    (h : ∀ value, (l.token l.scan.fresh).outcome ≠ .matched value) : l.next.tokens = [] := by
  unfold Scan.fresh at h
  unfold next
  split
  · rfl
  · dsimp only
    split
    · next value hvalue => exact absurd hvalue (h value)
    all_goals rfl

/-- Where no token is, the lexer halts where the attempt stopped. -/
theorem lexer_next_of_not_matched {l : Lexer α τ} (running : l.halted = false)
    (h : ∀ value, (l.token l.scan.fresh).outcome ≠ .matched value) :
    l.next.lexer = { l with scan := (l.token l.scan.fresh).scan, halted := true } := by
  obtain ⟨halted, hlexer⟩ := lexer_next running
  have hhalted := halted_of_next (tokens_next_of_not_matched h)
  rw [hlexer] at hhalted ⊢
  obtain rfl : halted = true := hhalted
  rfl

/-- Asking for tokens where there is one gives this one and those behind it. -/
theorem take_of_yields {l : Lexer α τ} {value : τ} {s : Scan α} (running : l.halted = false)
    (h : Attempt.Yields l.token l.scan.fresh (.matched value) s) (n : Nat) :
    (take (n + 1) l).tokens = value :: (take n { l with scan := s }).tokens ∧
      (take (n + 1) l).lexer = (take n { l with scan := s }).lexer := by
  obtain ⟨htokens, hlexer⟩ := next_of_yields running h
  rw [take_succ]
  unfold Haul.followedBy
  rw [htokens, hlexer]
  exact ⟨rfl, rfl⟩

/-- Asking for tokens where there is none leaves the lexer where the attempt stopped. -/
theorem take_of_stopped {l : Lexer α τ} {o : Outcome τ} {s : Scan α} (running : l.halted = false)
    (h : Attempt.Yields l.token l.scan.fresh o s) (hnot : ∀ value, o ≠ .matched value) (n : Nat) :
    (take (n + 1) l).tokens = [] ∧ (take (n + 1) l).lexer.scan = s := by
  obtain ⟨rfl, rfl⟩ := h
  have htokens := tokens_next_of_not_matched hnot
  rw [take_succ]
  unfold Haul.followedBy
  rw [take_of_halted (halted_of_next htokens) n, htokens, lexer_next_of_not_matched running hnot]
  exact ⟨rfl, rfl⟩

/-- A lexer that is asked for a token attempts it with nothing captured.  Either it hands out the
    token and reports the span of it, or it halts and reports that. -/
theorem next_cases {l : Lexer α τ} (running : l.halted = false)
    (finished : (l.token l.scan.fresh).Finished) :
    (∃ value, (l.token l.scan.fresh).outcome = .matched value ∧ l.next.tokens = [value] ∧
        l.next.lexer = { l with scan := (l.token l.scan.fresh).scan } ∧
        reportedSpans l.next.messages =
          [⟨l.scan.position, (l.token l.scan.fresh).scan.position⟩] ∧
        reportedHalts l.next.messages = 0) ∨
      ((∀ value, (l.token l.scan.fresh).outcome ≠ .matched value) ∧ l.next.tokens = [] ∧
        l.next.lexer = { l with scan := (l.token l.scan.fresh).scan, halted := true } ∧
        reportedSpans l.next.messages = [] ∧ reportedHalts l.next.messages = 1) := by
  have hreported : ∀ message : Message,
      let messages := Trace.messages (l.token l.scan.fresh).trace ++ [message]
      reportedSpans messages = reportedSpans [message] ∧
        reportedHalts messages = reportedHalts [message] := by
    intro message messages
    obtain ⟨hspans, hhalts⟩ := Trace.silent_messages (l.token l.scan.fresh).trace
    rw [reportedSpans_append, reportedHalts_append, hspans, hhalts, Nat.zero_add]
    exact ⟨rfl, rfl⟩
  unfold Scan.fresh at finished hreported ⊢
  unfold next
  simp only [running, Bool.false_eq_true, if_false]
  cases hx : (l.token ⟨l.scan.cursor, .empty⟩).outcome with
  | matched value => exact Or.inl ⟨value, rfl, rfl, rfl, hreported _⟩
  | failed => exact Or.inr ⟨by rintro value ⟨⟩, rfl, rfl, hreported _⟩
  | ended stop => exact Or.inr ⟨by rintro value ⟨⟩, rfl, rfl, hreported _⟩
  | unfinished => exact absurd hx finished

/-! ## Any number of tokens -/

/-- The scan in front of the token number `i`, where the attempt of the one before it stopped. -/
def place (token : Attempt α τ) (s : Scan α) : Nat → Scan α
  | 0 => s
  | i + 1 => (token (place token s i).fresh).scan

/-- The places behind the first token are those of a lexer that stands there. -/
theorem place_succ (token : Attempt α τ) (s : Scan α) (i : Nat) :
    place token s (i + 1) = place token (token s.fresh).scan i := by
  induction i with
  | zero => rfl
  | succ i ih => rw [place, ih, place]

/-- What a running lexer answers to `n` questions. -/
structure Deal (l : Lexer α τ) (n : Nat) (h : Haul α τ) : Prop where
  /-- Each token is what the attempt at its place gives. -/
  tokens : ∀ i value, h.tokens[i]? = some value →
    (l.token (place l.token l.scan i).fresh).outcome = .matched value
  /-- The spans that are reported are those between the places of the tokens. -/
  spans : reportedSpans h.messages = (List.range h.tokens.length).map fun i =>
    ⟨(place l.token l.scan i).position, (place l.token l.scan (i + 1)).position⟩
  /-- All questions are answered, or the one behind the last answer has halted the lexer. -/
  stops : (h.tokens.length = n ∧ h.lexer = { l with scan := place l.token l.scan n } ∧
      reportedHalts h.messages = 0) ∨
    (h.tokens.length < n ∧ reportedHalts h.messages = 1 ∧
      (∀ value, (l.token (place l.token l.scan h.tokens.length).fresh).outcome ≠ .matched value) ∧
      h.lexer =
        { l with scan := place l.token l.scan (h.tokens.length + 1), halted := true })

theorem deal_take {l : Lexer α τ} (running : l.halted = false)
    (finished : ∀ i, (l.token (place l.token l.scan i).fresh).Finished) (n : Nat) :
    Deal l n (take n l) := by
  induction n generalizing l with
  | zero => exact ⟨by rintro i value ⟨⟩, rfl, Or.inl ⟨rfl, rfl, rfl⟩⟩
  | succ n ih =>
    rw [take_succ]
    rcases next_cases running (finished 0) with
      ⟨value, hvalue, htokens, hlexer, hspans, hhalts⟩ | ⟨hnot, htokens, hlexer, hspans, hhalts⟩
    · -- the other questions are put to a lexer that stands behind the first token
      have hlater := ih (l := { l with scan := (l.token l.scan.fresh).scan }) running
        fun i => by rw [← place_succ]; exact finished (i + 1)
      obtain ⟨hall, hbetween, hstops⟩ := hlater
      simp only [← place_succ] at hall hbetween hstops
      unfold Haul.followedBy
      rw [hlexer, htokens]
      refine ⟨?_, ?_, ?_⟩
      · intro i v hv
        cases i with
        | zero =>
          obtain rfl : value = v := Option.some.inj hv
          exact hvalue
        | succ i => exact hall i v hv
      · rw [reportedSpans_append, hspans, hbetween, List.singleton_append, List.singleton_append,
          List.length_cons, List.range_succ_eq_map, List.map_cons, List.map_map]
        rfl
      · rw [reportedHalts_append, hhalts, Nat.zero_add, List.singleton_append, List.length_cons]
        rcases hstops with ⟨hlength, hend, hnone⟩ | ⟨hlength, hone, hstop, hend⟩
        · exact Or.inl ⟨by omega, hend, hnone⟩
        · exact Or.inr ⟨by omega, hone, hstop, hend⟩
    · -- the lexer has halted, and the other questions are not answered
      have hhalted : l.next.lexer.halted = true := by rw [hlexer]
      unfold Haul.followedBy
      rw [take_of_halted hhalted n, htokens, hlexer]
      refine ⟨by rintro i v ⟨⟩, ?_, Or.inr ⟨Nat.succ_pos n, ?_, hnot, rfl⟩⟩
      · show reportedSpans (l.next.messages ++ []) = []
        rw [List.append_nil]
        exact hspans
      · show reportedHalts (l.next.messages ++ []) = 1
        rw [List.append_nil]
        exact hhalts

/-- A session gives what one question for all of its tokens gives. -/
theorem deal_session {l : Lexer α τ} (running : l.halted = false)
    (finished : ∀ i, (l.token (place l.token l.scan i).fresh).Finished) (calls : List Call) :
    Deal l (asked calls) (session calls l) := by
  rw [session_eq_take]
  exact deal_take running finished (asked calls)

theorem Deal.length_le {l : Lexer α τ} {n : Nat} {h : Haul α τ} (hdeal : Deal l n h) :
    h.tokens.length ≤ n := by
  rcases hdeal.stops with ⟨hlength, -⟩ | ⟨hlength, -⟩
  · exact Nat.le_of_eq hlength
  · exact Nat.le_of_lt hlength

/-- A call that is answered with fewer tokens than it asks for has come to an attempt that gives
    none, and the lexer has halted behind this attempt for good. -/
theorem halted_of_short {l : Lexer α τ} (running : l.halted = false)
    (finished : ∀ i, (l.token (place l.token l.scan i).fresh).Finished) (calls : List Call)
    (call : Call) :
    let h := session calls l
    let k := h.lexer.answer call
    let n := h.tokens.length + k.tokens.length
    k.tokens.length < call.count →
      (∀ value, (l.token (place l.token l.scan n).fresh).outcome ≠ .matched value) ∧
        k.lexer.scan = place l.token l.scan (n + 1) ∧ k.lexer.halted = true ∧
        reportedHalts (h.messages ++ k.messages) = 1 ∧
        ∀ later, session later k.lexer = ⟨[], k.lexer, [], []⟩ := by
  intro h k n hshort
  have hmost : h.tokens.length ≤ asked calls := (deal_session running finished calls).length_le
  -- the session and the call together are one question, and there are too few tokens for it
  have hboth : h.followedBy (answer · call) = take (asked calls + call.count) l := by
    rw [take_add, ← session_eq_take]
    exact congrArg h.followedBy (funext fun l => answer_eq_take l call)
  have hdeal := deal_take running finished (asked calls + call.count)
  rw [← hboth] at hdeal
  have hstops := hdeal.stops
  simp only [Haul.followedBy, List.length_append] at hstops
  rcases hstops with ⟨hlength, -⟩ | ⟨-, hone, hnot, hlexer⟩
  · have hall : h.tokens.length + k.tokens.length = asked calls + call.count := hlength
    omega
  · have hhalted : k.lexer.halted = true := congrArg Lexer.halted hlexer
    refine ⟨hnot, congrArg Lexer.scan hlexer, hhalted, hone, fun later => ?_⟩
    rw [session_eq_take]
    exact take_of_halted hhalted _

/-! ## Matchers that come to an answer -/

end Lexer

/-- All places in a stream, and some more: at each position the front with what is left, the one
    that shows the last element, and the spent one. -/
def Cursor.places (xs : List α) : List (Cursor α) :=
  (List.range (xs.length + 1)).flatMap fun i =>
    ⟨i, .ofList (xs.drop i)⟩ :: ⟨i, .spent⟩ :: xs.getLast?.toList.map fun x => ⟨i, .pending x⟩

theorem Cursor.Over.mem_places {xs : List α} {c : Cursor α} (h : c.Over xs) : c ∈ places xs := by
  obtain ⟨position, front⟩ := c
  refine List.mem_flatMap.mpr ⟨position, List.mem_range.mpr (Nat.lt_succ_of_le h.position_le), ?_⟩
  cases front with
  | ready x rest =>
    have hdrop : x :: rest = xs.drop position := h.remaining
    rw [← hdrop]
    exact List.mem_cons_self
  | spent => exact List.mem_cons_of_mem _ List.mem_cons_self
  | pending x =>
    have hlast : xs.getLast? = some x := h.last x rfl
    rw [hlast]
    exact List.mem_cons_of_mem _ (List.mem_cons_of_mem _ List.mem_cons_self)

variable {ρ : Type → Type} [BEq α]

/-- A matcher that comes to an answer at every place in a stream does so everywhere with one and
    the same bound, and with every larger one. -/
theorem Matcher.exists_enough (g : Grammar α ρ) (m : Matcher α ρ τ) {xs : List α}
    (terminates : ∀ c : Cursor α, c.Over xs → ∃ bound, (m.run g bound ⟨c, .empty⟩).Finished) :
    ∃ enough, ∀ bound, enough ≤ bound → ∀ c : Cursor α, c.Over xs →
      (m.run g bound ⟨c, .empty⟩).Finished := by
  have hall : ∀ cs : List (Cursor α), ∃ enough, ∀ bound, enough ≤ bound → ∀ c ∈ cs, c.Over xs →
      (m.run g bound ⟨c, .empty⟩).Finished := by
    intro cs
    induction cs with
    | nil => exact ⟨0, by rintro bound - c ⟨⟩⟩
    | cons c cs ih =>
      obtain ⟨enough, hlater⟩ := ih
      by_cases hplace : c.Over xs
      · obtain ⟨first, hfirst⟩ := terminates c hplace
        refine ⟨max first enough, fun bound hbound d hd hover => ?_⟩
        rcases List.mem_cons.mp hd with rfl | hd
        · rw [m.run_of_le g (by omega : first ≤ bound) _ hfirst]
          exact hfirst
        · exact hlater bound (by omega) d hd hover
      · refine ⟨enough, fun bound hbound d hd hover => ?_⟩
        rcases List.mem_cons.mp hd with rfl | hd
        · exact absurd hover hplace
        · exact hlater bound hbound d hd hover
  obtain ⟨enough, h⟩ := hall (Cursor.places xs)
  exact ⟨enough, fun bound hbound c hplace => h bound hbound c hplace.mem_places hplace⟩

namespace Lexer

/-- The tokens of a stream are taken at places in it. -/
theorem over_place (g : Grammar α ρ) (bound : Nat) (m : Matcher α ρ τ) (xs : List α) (i : Nat) :
    (place (m.run g bound) (Scan.ofList xs) i).cursor.Over xs := by
  induction i with
  | zero => exact Cursor.over_ofList xs
  | succ i ih => exact m.run_moves (kept_over xs) g bound _ ih

omit [BEq α] in
/-- A lexer does not leave the stream that its token stays in. -/
theorem over_take {l : Lexer α τ} {xs : List α} (h : l.scan.cursor.Over xs)
    (hmoves : Attempt.Moves (fun s t : Scan α => s.cursor.Over xs → t.cursor.Over xs) l.token)
    (n : Nat) : (take n l).lexer.scan.cursor.Over xs := by
  induction n generalizing l with
  | zero => exact h
  | succ n ih =>
    rw [take_succ]
    show (take n l.next.lexer).lexer.scan.cursor.Over xs
    cases hrun : l.halted with
    | true =>
      rw [next_of_halted hrun]
      exact ih h hmoves
    | false =>
      obtain ⟨halted, hlexer⟩ := lexer_next hrun
      rw [hlexer]
      exact ih (hmoves l.scan.fresh h) hmoves

omit [BEq α] in
/-- What stands in the way of a lexer is the next element, as long as there is one. -/
theorem obstacle_of_over {l : Lexer α τ} {xs : List α} (h : l.scan.cursor.Over xs) :
    (l.obstacle = none ↔ l.position = xs.length) ∧
      (l.position ≠ xs.length →
        ∃ x, xs[l.position]? = some x ∧ l.obstacle = some (l.position, x)) := by
  unfold obstacle
  cases hrem : l.scan.cursor.remaining with
  | nil =>
    have hend : l.position = xs.length := h.position_eq hrem
    exact ⟨⟨fun _ => hend, fun _ => rfl⟩, fun hne => absurd hend hne⟩
  | cons x rest =>
    have hget : xs[l.position]? = some x := h.getElem?_position hrem
    have hlt := (List.getElem?_eq_some_iff.mp hget).1
    refine ⟨⟨by rintro ⟨⟩, fun heq => ?_⟩, fun _ => ⟨x, hget, rfl⟩⟩
    omega

omit [BEq α] in
/-- A lexer that has consumed the elements that pass a test stands in front of the first one that
    does not. -/
theorem obstacle_of_dropWhile {l : Lexer α τ} {xs : List α} (h : l.scan.cursor.Over xs)
    {test : α → Bool} (hrem : l.scan.cursor.remaining = xs.dropWhile test) :
    l.obstacle = xs[xs.findIdx (!test ·)]?.map (xs.findIdx (!test ·), ·) := by
  have hdrop : xs.drop l.position = xs.drop (xs.findIdx (!test ·)) := by
    rw [← List.dropWhile_eq_drop_findIdx_not, ← hrem]
    exact h.remaining.symm
  have hlength := congrArg List.length hdrop
  rw [List.length_drop, List.length_drop] at hlength
  have hplace : l.position ≤ xs.length := h.position_le
  have hindex : xs.findIdx (!test ·) ≤ xs.length := List.findIdx_le_length
  have heq : l.position = xs.findIdx (!test ·) := by omega
  obtain ⟨hend, hshort⟩ := obstacle_of_over h
  rw [← heq]
  by_cases hall : l.position = xs.length
  · rw [hend.mpr hall, hall, List.getElem?_eq_none (Nat.le_refl _)]
    rfl
  · obtain ⟨x, hx, hobstacle⟩ := hshort hall
    rw [hobstacle, hx]
    rfl

/-- A lexer for a matcher that comes to an answer at every place in the stream, in any session.
    With any bound that is large enough:

    * each token is what the matcher gives where the attempt of the token before it has stopped,
      with nothing captured, and the spans that are reported are those between these places, one
      behind the other from the beginning of the stream;
    * as long as the lexer has not halted it stands behind its last token, and nothing is reported
      about halting;
    * a call that is answered with fewer tokens than it asks for has come to an attempt that gives
      none.  It leaves the lexer where that attempt stopped, halted, with one report about it, and
      then no call is answered or reported or changes the lexer in any way;
    * what stands in the way is nothing exactly at the end of the stream, and otherwise the element
      at the position of the lexer. -/
theorem session_of_terminates (g : Grammar α ρ) (m : Matcher α ρ τ) (xs : List α)
    (terminates : ∀ c : Cursor α, c.Over xs → ∃ bound, (m.run g bound ⟨c, .empty⟩).Finished) :
    ∃ enough, ∀ bound, enough ≤ bound → ∀ calls : List Call,
      let token := m.run g bound
      let before := place token (Scan.ofList xs)
      let h := session calls (ofList xs token)
      (∀ i value, h.tokens[i]? = some value →
        (token ⟨(before i).cursor, .empty⟩).outcome = .matched value ∧
          before (i + 1) = (token ⟨(before i).cursor, .empty⟩).scan) ∧
      (reportedSpans h.messages = (List.range h.tokens.length).map fun i =>
        ⟨(before i).position, (before (i + 1)).position⟩) ∧
      Span.Tiles 0 (reportedSpans h.messages) (before h.tokens.length).position ∧
      (h.lexer.halted = false →
        h.lexer.scan = before h.tokens.length ∧ reportedHalts h.messages = 0) ∧
      (∀ call,
        let k := h.lexer.answer call
        let n := h.tokens.length + k.tokens.length
        k.tokens.length < call.count →
          (∀ value, (token ⟨(before n).cursor, .empty⟩).outcome ≠ .matched value) ∧
            k.lexer.scan = before (n + 1) ∧ k.lexer.halted = true ∧
            reportedHalts (h.messages ++ k.messages) = 1 ∧
            ∀ later, session later k.lexer = ⟨[], k.lexer, [], []⟩) ∧
      (h.lexer.obstacle = none ↔ h.lexer.position = xs.length) ∧
      (h.lexer.position ≠ xs.length →
        ∃ x, xs[h.lexer.position]? = some x ∧
          h.lexer.obstacle = some (h.lexer.position, x)) := by
  obtain ⟨enough, henough⟩ := m.exists_enough g terminates
  refine ⟨enough, fun bound hbound calls => ?_⟩
  intro token before h
  have hfinished : ∀ i, (token (before i).fresh).Finished :=
    fun i => henough bound hbound _ (over_place g bound m xs i)
  obtain ⟨htokens, hspans, hstops⟩ := deal_session (l := ofList xs token) rfl hfinished calls
  have hover : h.lexer.scan.cursor.Over xs := by
    show (session calls (ofList xs token)).lexer.scan.cursor.Over xs
    rw [session_eq_take]
    exact over_take (Cursor.over_ofList xs) (m.run_moves (kept_over xs) g bound) _
  refine ⟨fun i value hvalue => ⟨htokens i value hvalue, rfl⟩, hspans, ?_, ?_,
    halted_of_short rfl hfinished calls, obstacle_of_over hover⟩
  · have htiles := Span.tiles_map_range' (fun i => (before i).position) 0 h.tokens.length
    rw [Nat.zero_add, ← List.range_eq_range'] at htiles
    rw [hspans]
    exact htiles
  · intro hrunning
    rcases hstops with ⟨hlength, hlexer, hnone⟩ | ⟨-, -, -, hlexer⟩
    · refine ⟨?_, hnone⟩
      show (session calls (ofList xs token)).lexer.scan = before (session calls _).tokens.length
      rw [hlexer, hlength]
      rfl
    · have hhalted : h.lexer.halted = true := congrArg Lexer.halted hlexer
      rw [hhalted] at hrunning
      cases hrunning

/-- Letters in twos, of which the last two differ.  The attempt that halts the lexer has consumed
    the first of them. -/
theorem session_of_terminates_doubled :
    let xs := ['a', 'a', 'b', 'b', 'c', 'd']
    let m : Matcher Char NoRule (Char × Char) :=
      .both (.capture "letter" .any) (.backreference "letter")
    (∀ c : Cursor Char, c.Over xs → ∃ bound, (m.run .empty bound ⟨c, .empty⟩).Finished) ∧
      ∃ bound,
        let l := ofList xs (m.run .empty bound)
        let h := session [.next] l
        let k := h.lexer.answer (.tokens 5)
        h.tokens = [('a', 'a')] ∧ k.tokens = [('b', 'b')] ∧
          Span.Tiles 0 (reportedSpans (session [.next, .tokens 5] l).messages) 4 ∧
          reportedHalts (h.messages ++ k.messages) = 1 ∧ k.lexer.obstacle = some (5, 'd') ∧
          ∀ later, session later k.lexer = ⟨[], k.lexer, [], []⟩ := by
  intro xs m
  have hbound : ∀ bound, m.run .empty bound = m.run .empty 0 := fun bound => rfl
  have hplaces : ∀ c ∈ Cursor.places xs, (m.run .empty 0 ⟨c, .empty⟩).Finished := by
    unfold Run.Finished
    decide +kernel
  have hterminates : ∀ c : Cursor Char, c.Over xs →
      ∃ bound, (m.run .empty bound ⟨c, .empty⟩).Finished :=
    fun c hc => ⟨0, hplaces c hc.mem_places⟩
  refine ⟨hterminates, ?_⟩
  obtain ⟨bound, hsession⟩ := session_of_terminates .empty m xs hterminates
  refine ⟨bound, ?_⟩
  have htiles := (hsession bound (Nat.le_refl _) [.next, .tokens 5]).2.2.1
  obtain ⟨-, -, -, -, hcall, -⟩ := hsession bound (Nat.le_refl _) [.next]
  rw [hbound] at htiles hcall ⊢
  obtain ⟨-, -, -, hone, hidle⟩ := hcall (.tokens 5) (by decide +kernel)
  have hplace : (place (m.run .empty 0) (Scan.ofList xs) 2).position = 4 := by decide +kernel
  have hcount : (session [.next, .tokens 5] (ofList xs (m.run .empty 0))).tokens.length = 2 := by
    decide +kernel
  rw [hcount, hplace] at htiles
  exact ⟨by decide +kernel, by decide +kernel, htiles, hone, by decide +kernel, hidle⟩

end Lexer
end Forward
