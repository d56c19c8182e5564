import Formula.Text.Invisible

/-!
# Quoted texts

A quoted text stands between double quotes. Inside, a quote and a backslash have a backslash before
them, and characters that cannot be seen are written by a letter or by their code points.
-/

namespace Formula.Quoted

/-- A character as it is written inside quotes. -/
def encodeChar (c : Char) : List Char :=
  match c with
  | '\x00' => ['\\', '0']
  | '\t' => ['\\', 't']
  | '\n' => ['\\', 'n']
  | '\r' => ['\\', 'r']
  | '"' => ['\\', '"']
  | '\\' => ['\\', '\\']
  | _ =>
    if isInvisible c then '\\' :: 'u' :: '\x7b' :: (Nat.toDigits 16 c.toNat ++ ['\x7d']) else [c]

/-- The characters between quotes, each as it is written there. -/
def encode (cs : List Char) : List Char := '"' :: (cs.flatMap encodeChar ++ ['"'])

/-- A string between quotes. -/
def text (s : String) : String := String.ofList (encode s.toList)

end Formula.Quoted
