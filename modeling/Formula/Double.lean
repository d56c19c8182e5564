import Formula.Decimal.Shortest
import Formula.Numeral

/-!
# Texts of doubles

* `Double.write`: the shortest text that reads back, in one of two styles. Results are written in
  `plain` style, without exponent at any size; a listing of bindings is `detailed`.
* `Double.read`: a double from a text with sign, exponent and the words for infinity and NaN.
-/

namespace Formula.Double

open Binary64

/-! ## Writing -/

/-- What is left open by the digits of a number. -/
structure Style where
  /-- The least and the greatest exponent of a first digit at which a number is written in
  positions; without bounds every number is. -/
  positions : Option (Int × Int)
  /-- A whole number is written with `.0`. -/
  keepsPoint : Bool

/-- All digits in their places, and no point in a whole number. -/
def plain : Style := ⟨none, false⟩

/-- Positions from `0.0001` to below `1e16`, and a point in a whole number. -/
def detailed : Style := ⟨some (-4, 15), true⟩

/-- A decimal, by its positions or with an exponent as the style has it. -/
def writeDecimal (style : Style) (d : Decimal) : List Char :=
  if style.positions.all fun (low, high) => low ≤ d.leading && d.leading ≤ high then
    d.positional ++ if style.keepsPoint && 0 ≤ d.exponent then ['.', '0'] else []
  else d.scientific

/-- The text of the magnitude of a rank. -/
def writeRank (style : Style) (r : Nat) : List Char :=
  if top ≤ r then ['i', 'n', 'f'] else writeDecimal style (Decimal.shortest r)

/-- A double: `NaN`, or its sign and its rank in the style. -/
def write (style : Style) (x : Float) : List Char :=
  if x.isNaN then ['N', 'a', 'N']
  else if isNegative x then '-' :: writeRank style (rank (-x))
  else writeRank style (rank x)

/-- The text of a result. -/
def text (x : Float) : String := String.ofList (write plain x)

/-! ## Reading -/

/-- Why a text is no double. -/
inductive ReadError
  | empty
  | malformed
deriving DecidableEq, Repr

/-- The message of an error. -/
def ReadError.message : ReadError → String
  | empty => "cannot parse float from empty string"
  | malformed => "invalid float literal"

/-- What may follow a numeral: nothing, or `e` and a whole number. -/
def exponent? : List Char → Option Int
  | [] => some 0
  | c :: cs =>
    if c.toLower = 'e' then
      let (negative, digits) : Bool × List Char :=
        match cs with
        | '-' :: digits => (true, digits)
        | '+' :: digits => (false, digits)
        | digits => (false, digits)
      if digits.isEmpty || !digits.all Char.isDigit then none
      else
        let n := Nat.ofDigitChars 10 digits 0
        some (if negative then -n else n)
    else none

/-- The numeral times a power of ten. From `10 ^ 400` on every number is infinite and below
`10 ^ -400` it is zero, so a larger power adds nothing but work. -/
def scaled (n : Numeral) (power : Int) : Decimal :=
  ⟨n.decimal.coefficient, max (-(n.size + 400)) (min (n.decimal.exponent + power) 400)⟩

/-- A double without its sign. -/
def readMagnitude? (cs : List Char) : Option Float :=
  let word := cs.map Char.toLower
  if word = ['i', 'n', 'f'] ∨ word = ['i', 'n', 'f', 'i', 'n', 'i', 't', 'y'] then some (ofRank top)
  else if word = ['n', 'a', 'n'] then some (0 / 0)
  else
    let (numeral, rest) := Numeral.ofChars cs
    if numeral.hasDigit then (exponent? rest).map fun power => (scaled numeral power).toFloat
    else none

/-- The double that a text spells, with a sign or without one. -/
def read (cs : List Char) : Except ReadError Float :=
  let found :=
    match cs with
    | '-' :: rest => (readMagnitude? rest).map (-·)
    | '+' :: rest => readMagnitude? rest
    | _ => readMagnitude? cs
  match found with
  | some x => .ok x
  | none => .error (if cs.isEmpty then .empty else .malformed)

end Formula.Double
