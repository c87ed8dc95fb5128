/-!
# Quoted strings

A string between double quotes. A quote and a backslash get a backslash in front, and four control characters have a
letter or digit of their own that stands after a backslash. Of the other characters some are written by their code in
hexadecimal, and which these are is left open. Every character that is left stands for itself.
-/

namespace GraphViews.Quoted

/-- The control characters: the first 32, and those from delete to the end of the second block of 32. -/
def isControl (c : Char) : Bool := c.toNat < 32 || (127 ≤ c.toNat && c.toNat < 160)

/-- A character by its code: a backslash, the letter `u` and the hexadecimal digits in curly brackets. -/
def codeEscape (c : Char) : List Char :=
  '\\' :: 'u' :: '\x7b' :: Nat.toDigits 16 c.toNat ++ ['\x7d']

/-- What stands for a character after a backslash, if it has such a mark. -/
def mark? : Char → Option Char
  | '"' => some '"'
  | '\\' => some '\\'
  | '\n' => some 'n'
  | '\r' => some 'r'
  | '\t' => some 't'
  | '\x00' => some '0'
  | _ => none

/-- A character as it is written between quotes, where `byCode` tells which characters without a mark are written by
their code. -/
def encodeChar (byCode : Char → Bool) (c : Char) : List Char :=
  match mark? c with
  | some m => ['\\', m]
  | none => if byCode c then codeEscape c else [c]

/-- The characters between the quotes. -/
def encode (byCode : Char → Bool) (s : List Char) : List Char := s.flatMap (encodeChar byCode)

/-- A string in quotes. -/
def text (byCode : Char → Bool) (s : String) : String := String.ofList ('"' :: encode byCode s.toList ++ ['"'])

end GraphViews.Quoted
