import Formula.Bindings
import Formula.Expr.Text
import Formula.Options

/-!
# Reports

A report holds the outcome of each formula of a run, in order: the line that it gives for the
standard output, or the line that it gives for the error output. A formula that fails neither stops
nor changes another one.

* `Options.line`: the outcome of one formula.
* `Options.ofScript`, `Options.ofContents`: the reports of the lines of a file and of one formula.
* `Report.output`, `Report.errors`, `Report.succeeded`: what a run leaves behind.
-/

namespace Formula

/-- The outcomes of the formulas of a run. -/
abbrev Report := List (Except String String)

namespace Report

/-- Lines of text, each ended by a line feed. -/
def unlines (lines : List String) : String := String.join (lines.map (· ++ "\n"))

/-- What is written on the standard output. -/
def output (r : Report) : String :=
  unlines (r.filterMap fun
    | .ok line => some line
    | .error _ => none)

/-- What is written on the error output. -/
def errors (r : Report) : String :=
  unlines (r.filterMap fun
    | .ok _ => none
    | .error line => some line)

/-- No formula has failed. -/
def succeeded (r : Report) : Bool := r.all Except.isOk

end Report

/-- The lines of a text, cut at each line feed. -/
def splitLines (cs : List Char) : List (List Char) :=
  cs.foldr (fun c lines =>
    match lines with
    | line :: others => if c = '\n' then [] :: line :: others else (c :: line) :: others
    | [] => [[c]]) [[]]

namespace Options

/-- The bindings of a run: the builtins, unless they are turned off, and the definitions in their
order. -/
def bindings (o : Options) : Bindings :=
  (if o.builtins then Bindings.builtin else .empty).setAll
    (o.definitions.map fun definition => (definition.name, definition.value))

/-- The limits of a run, of which only the depth can be chosen. -/
def limits (o : Options) : Limits := { depth := o.depth }

/-- The printed tree or the value of one formula. -/
def line (o : Options) (source : String) : Except String String :=
  match parse source o.limits with
  | .error e => .error e.message
  | .ok tree =>
    if o.tree then .ok tree.text
    else
      match tree.evaluate o.bindings.context with
      | .ok value => .ok (Double.text value)
      | .error e => .error e.message

/-- The formulas of a file: its lines without the blanks at their ends, the empty ones left out. -/
def formulas (script : String) : List String :=
  (((splitLines script.toList).map trim).filter (! ·.isEmpty)).map String.ofList

/-- The report of the lines of a file. -/
def ofScript (o : Options) (script : String) : Report := (formulas script).map o.line

/-- The report of the contents as one formula. -/
def ofContents (o : Options) : Report := [o.line o.contents]

/-- The report of a file that cannot be read. -/
def unreadable (o : Options) : Report :=
  [.error s!"Failed to read the input file '{o.contents}'. Perhaps this file does not exist?"]

/-- The report of a run, where `script` is the text of the file that the contents name. -/
def report (o : Options) (script : Option String) : Report :=
  if o.file then
    match script with
    | some script => o.ofScript script
    | none => o.unreadable
  else o.ofContents

end Options

end Formula
