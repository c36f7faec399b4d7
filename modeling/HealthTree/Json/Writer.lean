import HealthTree.Data

/-!
# Data trees written as JSON text

The text has no blanks and stands on one line. In a string the quote and the backslash are escaped
by a backslash, the control characters below U+0020 by their short escape or as `\u00` with two
hexadecimal digits in lower case; all else stands as it is.
-/

namespace HealthTree.Json

/-- A digit in hexadecimal, lower case. -/
def hexDigit (n : Nat) : Char :=
  Nat.digitChar (n % 16)

/-- One character of a JSON string. -/
def escapeChar (c : Char) : List Char :=
  if c = '"' then ['\\', '"']
  else if c = '\\' then ['\\', '\\']
  else if c = '\x08' then ['\\', 'b']
  else if c = '\x0c' then ['\\', 'f']
  else if c = '\n' then ['\\', 'n']
  else if c = '\r' then ['\\', 'r']
  else if c = '\t' then ['\\', 't']
  else if c.toNat < 0x20 then ['\\', 'u', '0', '0', hexDigit (c.toNat / 16), hexDigit c.toNat]
  else [c]

/-- The characters of a JSON string, with the quotes around them. -/
def stringChars (s : String) : List Char :=
  '"' :: s.toList.flatMap escapeChar ++ ['"']

mutual
/-- The characters of a data tree. -/
def chars : Data → List Char
  | .null => "null".toList
  | .bool b => (toString b).toList
  | .int n => (toString n).toList
  | .float x => x.compact.toList
  | .str s => stringChars s
  | .list items => '[' :: listChars items
  | .map entries => '\x7b' :: mapChars entries
/-- The items of a list, up to the closing bracket. -/
def listChars : List Data → List Char
  | [] => [']']
  | [d] => chars d ++ [']']
  | d :: rest => chars d ++ ',' :: listChars rest
/-- The entries of a map, up to the closing brace. -/
def mapChars : List (String × Data) → List Char
  | [] => ['\x7d']
  | [(k, d)] => stringChars k ++ ':' :: chars d ++ ['\x7d']
  | (k, d) :: rest => stringChars k ++ ':' :: chars d ++ ',' :: mapChars rest
end

/-- **The JSON text of a data tree.** -/
def write (d : Data) : String :=
  String.ofList (chars d)

end HealthTree.Json
