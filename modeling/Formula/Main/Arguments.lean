import Formula.Options

/-!
# Arguments of the command line

The outer layer of the program, in front of `main`. The conventions are those of command lines at
large; nothing in the library depends on them.

* `Options.ofArguments?`: the options of a list of arguments, read one argument after the other.

Options come before or after the one positional argument. `--` ends the options. The value of an
option may be attached to it, after `=` where the option is long, or else is the next argument,
which then may not begin with `-`. Short options may be joined; one with a value ends such a group.
A flag and the depth are given at most once.
-/

namespace Formula

namespace Options

/-- The options that take a value. -/
inductive Valued
  | define
  | depth
deriving DecidableEq, Repr

/-- What the next argument is taken for. -/
inductive Expecting
  | anything
  | value (of : Valued)
  | positional
deriving DecidableEq, Repr

/-- The arguments read so far. -/
structure Progress where
  expecting : Expecting := .anything
  file : Bool := false
  tree : Bool := false
  noBuiltins : Bool := false
  depth : Option Nat := none
  /-- The last one first. -/
  definitions : List Definition := []
  contents : Option String := none

/-- A whole number below `2 ^ 64`, which may have a plus sign. -/
def readDepth? (cs : List Char) : Option Nat :=
  let digits := match cs with
    | '+' :: rest => rest
    | _ => cs
  if digits.isEmpty || !digits.all Char.isDigit then none
  else
    let n := Nat.ofDigitChars 10 digits 0
    if n < UInt64.size then some n else none

namespace Progress

/-- Takes the flag for a file, unless it has been given. -/
def setFile (p : Progress) : Option Progress :=
  if p.file then none else some { p with file := true }

/-- Takes the flag for trees, unless it has been given. -/
def setTree (p : Progress) : Option Progress :=
  if p.tree then none else some { p with tree := true }

/-- Takes the flag that turns the builtins off, unless it has been given. -/
def setNoBuiltins (p : Progress) : Option Progress :=
  if p.noBuiltins then none else some { p with noBuiltins := true }

/-- Takes the positional argument, unless it has been given. -/
def setContents (p : Progress) (contents : String) : Option Progress :=
  if p.contents.isSome then none else some { p with contents := some contents }

/-- Takes the value of an option. -/
def setValue (p : Progress) (valued : Valued) (value : List Char) : Option Progress :=
  let p := { p with expecting := .anything }
  match valued with
  | .define =>
    match Definition.ofChars value with
    | .ok definition => some { p with definitions := definition :: p.definitions }
    | .error _ => none
  | .depth =>
    if p.depth.isSome then none else (readDepth? value).map fun n => { p with depth := some n }

/-- Takes a long option with the value attached to it, if there is one. -/
def long (p : Progress) (name : String) (value : Option (List Char)) : Option Progress :=
  match name, value with
  | "file", none => p.setFile
  | "ast", none => p.setTree
  | "no-builtins", none => p.setNoBuiltins
  | "define", none => some { p with expecting := .value .define }
  | "define", some value => p.setValue .define value
  | "max-depth", none => some { p with expecting := .value .depth }
  | "max-depth", some value => p.setValue .depth value
  | _, _ => none

/-- Takes a group of short options. -/
def short (p : Progress) : List Char → Option Progress
  | [] => some p
  | 'f' :: rest => p.setFile.bind fun p => p.short rest
  | ['D'] => some { p with expecting := .value .define }
  | 'D' :: '=' :: value => p.setValue .define value
  | 'D' :: value => p.setValue .define value
  | _ => none

/-- Takes an argument where anything may stand. -/
def anything (p : Progress) (argument : String) : Option Progress :=
  match argument.toList with
  | ['-', '-'] => some { p with expecting := .positional }
  | '-' :: '-' :: long =>
    let value := match long.dropWhile (· ≠ '=') with
      | [] => none
      | _ :: value => some value
    p.long (String.ofList (long.takeWhile (· ≠ '='))) value
  | '-' :: c :: short => p.short (c :: short)
  | _ => p.setContents argument

/-- Takes the next argument. -/
def take (p : Progress) (argument : String) : Option Progress :=
  match p.expecting with
  | .anything => p.anything argument
  | .positional => p.setContents argument
  | .value valued =>
    match argument.toList with
    | '-' :: _ => none
    | value => p.setValue valued value

/-- The options, once all arguments are read. -/
def finish? (p : Progress) : Option Options :=
  match p.expecting, p.contents with
  | .value _, _ => none
  | _, none => none
  | _, some contents =>
    some {
      file := p.file
      tree := p.tree
      builtins := !p.noBuiltins
      depth := p.depth.getD ({} : Limits).depth
      definitions := p.definitions.reverse
      contents }

end Progress

/-- The options of a command line, if it is well-formed. -/
def ofArguments? (arguments : List String) : Option Options :=
  (arguments.foldlM Progress.take {}).bind Progress.finish?

end Options

end Formula
