/-
  Record strings: writing records and reading a record string undo one another.

  Each token of the lexer for record strings is a single character, and a table says which
  characters these are.  Such a lexer takes the characters that the table knows, up to the first one
  that it does not know (`Lexer.take_single`, by induction on what the lexer has in front of it).
  That one is then its obstacle.  At the end of the stream there is one more attempt.  The last
  element may still be on show then, but nothing is left to take and the attempt gives nothing.

  The keys of the table of records are five letters, and each of them stands for the record that is
  written as this letter (`lookup_eq_some`).  So a string of these letters is read letter by letter
  (`value_read`), and what remains to be shown is about lists of characters and of records.
-/
import Forward.Pattern.Records
import Forward.Proofs.Progress
import Forward.Proofs.Sessions

namespace Forward

open Attempt

variable {α τ : Type}

/-- A lexer that takes one element for a token hands out what stands for the elements in front of
    it, up to the first one that nothing stands for, and it stops there. -/
theorem Lexer.take_single {choose : α → Option τ} {l : Lexer α τ}
    (htoken : l.token = Attempt.take choose) (running : l.halted = false) {xs : List α}
    (hrem : l.scan.cursor.remaining = xs) {n : Nat} (hn : xs.length < n) :
    (take n l).tokens = (xs.takeWhile fun x => (choose x).isSome).filterMap choose ∧
      (take n l).lexer.scan.cursor.remaining = xs.dropWhile fun x => (choose x).isSome := by
  induction xs generalizing l n with
  | nil =>
    obtain ⟨n, rfl⟩ : ∃ k, n = k + 1 := ⟨n - 1, by omega⟩
    have hadvances : Advances l.token := by
      rw [htoken]
      exact advances_take choose
    have honward : Moves Onward l.token := by
      rw [htoken]
      exact moves_take kept_onward choose
    have hnot := hadvances.ne_matched_of_exhausted honward (s := l.scan.fresh) hrem
    obtain ⟨htokens, hscan⟩ := take_of_stopped running ⟨rfl, rfl⟩ hnot n
    rw [htokens, hscan]
    exact ⟨rfl, (honward l.scan.fresh).remaining_nil hrem⟩
  | cons x xs ih =>
    rw [List.length_cons] at hn
    obtain ⟨n, rfl⟩ : ∃ k, n = k + 1 := ⟨n - 1, by omega⟩
    have htake := congrFun htoken l.scan.fresh
    rw [take_of_remaining (s := l.scan.fresh) hrem] at htake
    cases hx : choose x with
    | none =>
      rw [hx] at htake
      have hstop : Yields l.token l.scan.fresh .failed l.scan.fresh := by
        constructor <;> rw [htake]
      obtain ⟨htokens, hscan⟩ := take_of_stopped running hstop (by rintro value ⟨⟩) n
      rw [htokens, hscan, List.takeWhile_cons, List.dropWhile_cons, hx]
      exact ⟨rfl, hrem⟩
    | some value =>
      rw [hx] at htake
      let behind : Scan α := ⟨⟨l.position + 1, .after x xs⟩, .empty⟩
      have hstep : Yields l.token l.scan.fresh (.matched value) behind := by
        constructor
        · rw [htake]
        · rw [htake]
          rfl
      obtain ⟨htokens, hlexer⟩ := take_of_yields running hstep n
      obtain ⟨hlater, hrest⟩ := ih (l := { l with scan := behind }) htoken running
        (Front.remaining_after x xs) (Nat.lt_of_succ_lt_succ hn)
      rw [htokens, hlexer, hlater, hrest, List.takeWhile_cons, List.dropWhile_cons, hx]
      exact ⟨(List.filterMap_cons_some hx).symm, rfl⟩

namespace Record

/-! ## The letters -/

/-- What records are written with. -/
def letters : List Char := ['B', 'W', 'H', 'L', '_']

theorem char_mem_letters (r : Record) : r.char ∈ letters := by
  cases r with
  | none => decide
  | some atom => cases atom <;> decide

/-- A character stands for a record exactly if the record is written as that character. -/
theorem lookup_eq_some {c : Char} {r : Record} : symbols.lookup c = some r ↔ c = r.char := by
  constructor
  · intro h
    have key : c ∈ symbols.map Prod.fst := by
      rw [← Table.contains_iff, Table.contains, h]
      rfl
    simp only [symbols, List.map_cons, List.map_nil, List.mem_cons, List.not_mem_nil,
      or_false] at key
    rcases key with rfl | rfl | rfl | rfl | rfl <;> cases h <;> rfl
  · rintro rfl
    cases r with
    | none => rfl
    | some atom => cases atom <;> rfl

/-- Does the character stand for no record? -/
def foreign (c : Char) : Bool := !symbols.contains c

theorem foreign_iff (c : Char) : foreign c = true ↔ c ∉ letters := by
  have hletters : symbols.contains c = true ↔ c ∈ letters := Table.contains_iff symbols c
  rw [← hletters, foreign, Bool.not_eq_true', Bool.not_eq_true]

theorem not_foreign_iff (c : Char) : foreign c = false ↔ c ∈ letters := by
  rw [← Bool.not_eq_true, foreign_iff, Decidable.not_not]

theorem map_char_filterMap {cs : List Char} (h : ∀ c ∈ cs, foreign c = false) :
    (cs.filterMap symbols.lookup).map Record.char = cs := by
  induction cs with
  | nil => rfl
  | cons c cs ih =>
    have hletter : foreign c = false := h c List.mem_cons_self
    have hlater := ih fun d hd => h d (List.mem_cons_of_mem c hd)
    cases hlookup : symbols.lookup c with
    | none =>
      rw [foreign, Table.contains, hlookup] at hletter
      cases hletter
    | some r =>
      rw [List.filterMap_cons_some hlookup, List.map_cons, hlater, ← lookup_eq_some.mp hlookup]

theorem filterMap_map_char (records : List Record) :
    (records.map Record.char).filterMap symbols.lookup = records := by
  induction records with
  | nil => rfl
  | cons r records ih =>
    rw [List.map_cons, List.filterMap_cons_some (lookup_eq_some.mpr rfl), ih]

/-! ## Reading -/

/-- A record string is read up to its first character that stands for no record. -/
theorem value_read (text : String) :
    (read text).value =
      match text.toList[text.toList.findIdx foreign]? with
      | some found => .error (.unknownRecord (text.toList.findIdx foreign) found)
      | none => .ok (text.toList.filterMap symbols.lookup) := by
  have htoken : (Lexer.ofList text.toList (matcher.run .empty 1)).token =
      Attempt.take symbols.lookup := rfl
  obtain ⟨htokens, hrem⟩ := Lexer.take_single htoken rfl (Cursor.remaining_ofList text.toList)
    (Nat.lt_succ_self _)
  have hover := Lexer.over_take (l := .ofList text.toList (matcher.run .empty 1))
    (Cursor.over_ofList text.toList) (Matcher.run_moves (kept_over _) .empty 1 matcher)
    (text.toList.length + 1)
  have hobstacle : ((Lexer.ofList text.toList (matcher.run .empty 1)).take
      (text.toList.length + 1)).lexer.obstacle =
        text.toList[text.toList.findIdx foreign]?.map (text.toList.findIdx foreign, ·) :=
    Lexer.obstacle_of_dropWhile hover hrem
  unfold read
  dsimp only
  rw [hobstacle]
  cases hget : text.toList[text.toList.findIdx foreign]? with
  | some found => rfl
  | none =>
    have hall : text.toList.takeWhile (fun c => (symbols.lookup c).isSome) = text.toList := by
      rw [List.takeWhile_eq_take_findIdx_not]
      exact List.take_of_length_le (List.getElem?_eq_none_iff.mp hget)
    rw [hall] at htokens
    exact congrArg Except.ok htokens

theorem read_eq_ok_iff (text : String) (records : List Record) :
    (read text).value = .ok records ↔ write records = text := by
  rw [value_read]
  constructor
  · intro h
    cases hget : text.toList[text.toList.findIdx foreign]? with
    | some found => rw [hget] at h; cases h
    | none =>
      rw [hget] at h
      obtain rfl := Except.ok.inj h
      have hall : ∀ c ∈ text.toList, foreign c = false :=
        List.findIdx_eq_length.mp
          (Nat.le_antisymm List.findIdx_le_length (List.getElem?_eq_none_iff.mp hget))
      rw [write, map_char_filterMap hall, String.ofList_toList]
  · rintro rfl
    have hall : ∀ c ∈ (write records).toList, foreign c = false := by
      intro c hc
      rw [write, String.toList_ofList] at hc
      obtain ⟨r, -, rfl⟩ := List.mem_map.mp hc
      exact (not_foreign_iff _).mpr (char_mem_letters r)
    rw [List.getElem?_eq_none (Nat.le_of_eq (List.findIdx_eq_length.mpr hall).symm)]
    show Except.ok ((write records).toList.filterMap symbols.lookup) = _
    rw [write, String.toList_ofList, filterMap_map_char]

theorem read_eq_error_iff (text : String) (e : ReadError) :
    (read text).value = .error e ↔
      ∃ i found, e = .unknownRecord i found ∧ text.toList[i]? = some found ∧ found ∉ letters ∧
        ∀ c ∈ text.toList.take i, c ∈ letters := by
  rw [value_read]
  constructor
  · intro h
    cases hget : text.toList[text.toList.findIdx foreign]? with
    | none => rw [hget] at h; cases h
    | some found =>
      rw [hget] at h
      obtain rfl := Except.error.inj h
      obtain ⟨hlt, rfl⟩ := List.getElem?_eq_some_iff.mp hget
      refine ⟨_, _, rfl, hget, (foreign_iff _).mp (List.findIdx_getElem (w := hlt)), fun c hc => ?_⟩
      obtain ⟨j, hj, rfl⟩ := List.mem_take_iff_getElem.mp hc
      exact (not_foreign_iff _).mp (List.not_of_lt_findIdx (by omega))
  · rintro ⟨i, found, rfl, hget, hfound, hbefore⟩
    obtain ⟨hlt, rfl⟩ := List.getElem?_eq_some_iff.mp hget
    have hindex : text.toList.findIdx foreign = i := by
      refine (List.findIdx_eq hlt).mpr ⟨(foreign_iff _).mpr hfound, fun j hj => ?_⟩
      have hmem : text.toList[j] ∈ text.toList.take i :=
        List.mem_take_iff_getElem.mpr ⟨j, by omega, rfl⟩
      exact (not_foreign_iff _).mpr (hbefore _ hmem)
    rw [hindex, hget]

/-- Records and record strings correspond to one another.

    * What is written for records is read as these records.
    * A record string that is read as records is what is written for them.
    * A string is no record string exactly if a character other than the letters occurs in it.  The
      error is about the first one of them, and has its index. -/
theorem read_write :
    (∀ records, (read (write records)).value = .ok records) ∧
    (∀ text records, (read text).value = .ok records ↔ write records = text) ∧
    ∀ text,
      ((∃ e, (read text).value = .error e) ↔ ∃ c ∈ text.toList, c ∉ letters) ∧
      ∀ e, (read text).value = .error e ↔
        ∃ i found, e = .unknownRecord i found ∧ text.toList[i]? = some found ∧ found ∉ letters ∧
          ∀ c ∈ text.toList.take i, c ∈ letters := by
  refine ⟨fun records => (read_eq_ok_iff _ records).mpr rfl, read_eq_ok_iff,
    fun text => ⟨⟨?_, ?_⟩, read_eq_error_iff text⟩⟩
  · rintro ⟨e, he⟩
    obtain ⟨i, found, -, hget, hfound, -⟩ := (read_eq_error_iff text e).mp he
    exact ⟨found, List.mem_of_getElem? hget, hfound⟩
  · rintro ⟨c, hc, hforeign⟩
    have hlt := List.findIdx_lt_length_of_exists ⟨c, hc, (foreign_iff c).mpr hforeign⟩
    rw [value_read, List.getElem?_eq_getElem hlt]
    exact ⟨_, rfl⟩

/-- The bad character is the last one of its string, and the end of it is not reached. -/
example : (read "BWx").value = .error (.unknownRecord 2 'x') := by rfl

end Record
end Forward
