import PacedNet.Text.Hidden

/-!
# Quoted text

How a message quotes what it was given: between double quotes, with a short
escape for six characters and a numeric one for every character that could not
be seen or that would join its neighbour. What is written holds no bare quote
and no control character.
-/

namespace PacedNet.Text

/-- A code point in lower-case hexadecimal, between braces. -/
def numericEscape (c : Char) : List Char :=
  "\\u\x7b".toList ++ Nat.toDigits 16 c.toNat ++ ['\x7d']

/-- One character as it stands between the quotes. -/
def escape (c : Char) : List Char :=
  match c with
  | '\x00' => ['\\', '0']
  | '\t' => ['\\', 't']
  | '\n' => ['\\', 'n']
  | '\r' => ['\\', 'r']
  | '"' => ['\\', '"']
  | '\\' => ['\\', '\\']
  | c => if isExtending c || isHidden c then numericEscape c else [c]

def quoted (s : String) : String :=
  String.ofList ('"' :: s.toList.flatMap escape ++ ['"'])

end PacedNet.Text
