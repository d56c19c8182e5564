/-!
# Blank characters

The blanks are the characters with the Unicode property `White_Space`. They separate the tokens of
a source and are cut off the ends of a line and of a name.

* `isBlank`: the property, read off the table `blankRanges`.
* `trim`: a text without the blanks at its two ends.
-/

namespace Formula

/-- The code points with the property `White_Space`, as closed ranges in rising order. -/
def blankRanges : List (Nat × Nat) :=
  [(0x9, 0xd), (0x20, 0x20), (0x85, 0x85), (0xa0, 0xa0), (0x1680, 0x1680), (0x2000, 0x200a),
    (0x2028, 0x2029), (0x202f, 0x202f), (0x205f, 0x205f), (0x3000, 0x3000)]

/-- The character is blank. -/
def isBlank (c : Char) : Bool :=
  blankRanges.any fun (low, high) => low ≤ c.toNat && c.toNat ≤ high

/-- The table holds 25 characters. -/
example : (blankRanges.map fun (low, high) => high + 1 - low).sum = 25 := rfl

/-- A text without its leading blanks. -/
def trimLeft (cs : List Char) : List Char := cs.dropWhile isBlank

/-- The characters without the blanks at the end. -/
def trimRight (cs : List Char) : List Char := (trimLeft cs.reverse).reverse

/-- A text without the blanks at its two ends. -/
def trim (cs : List Char) : List Char := trimRight (trimLeft cs)

end Formula
