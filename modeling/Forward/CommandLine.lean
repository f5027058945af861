/-
  The command line: read a pattern, print it, and run it over records.

      forward [--spans] [--records RECORDS] [--] PATTERN

  A run is a function from the options to a report: the lines for the output, the lines for the
  errors, and whether it went well.  Nothing here touches the outside.
-/
import Forward.Pattern.Recognizer
import Forward.Pattern.Records

namespace Forward.CommandLine

/-! ## Options -/

/-- What a user asks for. -/
structure Options where
  pattern : String
  /-- The records to run the pattern over. -/
  records : Option String
  /-- Shall every token of the pattern be printed with its span? -/
  spans : Bool
  deriving DecidableEq, Repr

/-- Options while they are being read: the pattern may be missing. -/
structure Draft where
  pattern : Option String
  records : Option String
  spans : Bool
  deriving DecidableEq, Repr

/-- Read the pattern, which must be given once. -/
def Draft.addPattern (o : Draft) (text : String) : Option Draft :=
  match o.pattern with
  | some _ => none
  | none => some { o with pattern := some text }

/-- Read the records, which may be given once. -/
def Draft.addRecords (o : Draft) (text : String) : Option Draft :=
  match o.records with
  | some _ => none
  | none => some { o with records := some text }

/-- Ask for spans, which may be done once. -/
def Draft.addSpans (o : Draft) : Option Draft :=
  if o.spans then none else some { o with spans := true }

/-- What follows `start` in `text`, if `text` starts with it. -/
def remainder? (start text : String) : Option String :=
  if start.toList.isPrefixOf text.toList then
    some (String.ofList (text.toList.drop start.length))
  else none

/-- Read arguments one by one.  Behind a double dash every argument is a pattern. -/
def readArguments : List String → Bool → Draft → Option Draft
  | [], _, o => some o
  | argument :: later, true, o => (o.addPattern argument).bind (readArguments later true)
  | "--" :: later, false, o => readArguments later true o
  | "--spans" :: later, false, o => o.addSpans.bind (readArguments later false)
  | "-s" :: later, false, o => o.addSpans.bind (readArguments later false)
  | "--records" :: text :: later, false, o => (o.addRecords text).bind (readArguments later false)
  | "-r" :: text :: later, false, o => (o.addRecords text).bind (readArguments later false)
  | argument :: later, false, o =>
    match remainder? "--records=" argument with
    | some text => (o.addRecords text).bind (readArguments later false)
    | none =>
      if 1 < argument.length ∧ (remainder? "-" argument).isSome then none
      else (o.addPattern argument).bind (readArguments later false)

/-- The options that arguments ask for; `none` if they make no sense. -/
def Options.ofArguments (arguments : List String) : Option Options :=
  (readArguments arguments false ⟨none, none, false⟩).bind fun o =>
    o.pattern.map fun pattern => ⟨pattern, o.records, o.spans⟩

/-! ## Reports -/

/-- What a run prints, line by line, and whether it went well. -/
structure Report where
  output : List String
  errors : List String
  success : Bool
  deriving DecidableEq, Repr

/-- Lines as text, each with a line end. -/
def linesText : List String → String
  | [] => ""
  | line :: later => line ++ "\n" ++ linesText later

/-- Printed output. -/
def Report.outputText (r : Report) : String := linesText r.output

/-- Printed errors. -/
def Report.errorText (r : Report) : String := linesText r.errors

/-- The exit code: zero if the run went well. -/
def Report.exitCode (r : Report) : Nat := if r.success then 0 else 1

/-- The same report with more output in front of it. -/
def Report.behind (lines : List String) (r : Report) : Report :=
  { r with output := lines ++ r.output }

/-- The line for a token and its span. -/
def tokenLine (entry : Token × Span) : String := entry.2.text ++ "\t" ++ entry.1.text

/-- The line that says how a match came out. -/
def matchLine : Outcome (List Record) → String
  | .matched records => "match: " ++ Record.write records
  | .failed => "no match"
  | .ended stop => "no match: " ++ stop.message
  | .unfinished => "no match"

/-- Run a pattern over a record string. -/
def runRecords (r : Recognizer) (text : String) : Report :=
  match (Record.read text).value with
  | .error e => ⟨[], ["Invalid records: " ++ e.message], false⟩
  | .ok records => ⟨[matchLine (r.matchRecords records)], [], true⟩

/-- Read the pattern, print it, and run it. -/
def runPattern (o : Options) : Report :=
  match (Recognizer.ofSource o.pattern).value with
  | .error e => ⟨[], ["Invalid pattern: " ++ e.message], false⟩
  | .ok r =>
    let matching := match o.records with
      | some text => runRecords r text
      | none => ⟨[], [], true⟩
    matching.behind ["pattern: " ++ r.pattern.text]

/-- Do what the options ask for.  The tokens of a pattern are printed even if it is wrong. -/
def run (o : Options) : Report :=
  (runPattern o).behind
    (if o.spans then (Token.scanSpanned o.pattern).value.map tokenLine else [])

end Forward.CommandLine
