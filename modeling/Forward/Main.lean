/-
  The program: read the arguments, run, print the report.
-/
import Forward.CommandLine

open Forward.CommandLine in
/-- Print what the arguments ask for; the exit code 2 says that they make no sense. -/
def main (arguments : List String) : IO UInt32 := do
  match Options.ofArguments arguments with
  | none =>
    IO.eprintln "Usage: forward [--spans] [--records RECORDS] [--] PATTERN"
    return 2
  | some options =>
    let report := run options
    IO.print report.outputText
    IO.eprint report.errorText
    return report.exitCode.toUInt32
