import Formula.Main.Arguments
import Formula.Report

/-!
# The command line
-/

namespace Formula

/-- What is printed where the arguments cannot be read. -/
def usage : String :=
  "usage: formula [-f | --file] [-D NAME=VALUE]... [--no-builtins] [--max-depth N] [--ast] CONTENTS"

/-- The text of a file, if it can be read and is text. -/
def readScript (path : String) : IO (Option String) := do
  try
    return some (← IO.FS.readFile path)
  catch _ =>
    return none

end Formula

open Formula

/-- Prints the report of a run. The status tells whether all its formulas have succeeded. -/
def main (arguments : List String) : IO UInt32 := do
  match Options.ofArguments? arguments with
  | none =>
    IO.eprintln usage
    return 2
  | some options =>
    let script ← if options.file then readScript options.contents else pure none
    let report := options.report script
    IO.print report.output
    IO.eprint report.errors
    return if report.succeeded then 0 else 1
