import Formula.Definition
import Formula.Parse

/-!
# Options of a run

`Options`: what a run is asked for. How they are written on a command line is no matter of this
library; `Formula.Main.Arguments` reads them for the program.
-/

namespace Formula

/-- What a run is asked for: which formulas, under which definitions, and what is printed of
them. -/
structure Options where
  /-- The contents name a file of formulas. -/
  file : Bool := false
  /-- Trees are printed in place of values. -/
  tree : Bool := false
  builtins : Bool := true
  depth : Nat := ({} : Limits).depth
  definitions : List Definition := []
  contents : String

end Formula
