import HealthTree.Text.Printable

/-!
# Names quoted inside messages

`quote s` is how a message shows a name: between double quotes, with a backslash before a quote or
a backslash, the four short escapes for line feed, carriage return, tab and NUL, and every other
character that is not shown as it is (`Text.isShown`) as `\u` with its code point in braces, in
lower-case hexadecimal without leading zeros.
-/

namespace HealthTree.Text

/-- The digits of `n` in hexadecimal, lower case, with no leading zero. -/
def hexDigits (n : Nat) : List Char :=
  Nat.toDigits 16 n

/-- One character of a quoted name. -/
def quoteChar (c : Char) : List Char :=
  if c = '"' then ['\\', '"']
  else if c = '\\' then ['\\', '\\']
  else if c = '\n' then ['\\', 'n']
  else if c = '\r' then ['\\', 'r']
  else if c = '\t' then ['\\', 't']
  else if c.toNat = 0 then ['\\', '0']
  else if isShown c then [c]
  else ['\\', 'u', '\x7b'] ++ hexDigits c.toNat ++ ['\x7d']

/-- **A name as a message shows it.** -/
def quote (s : String) : String :=
  String.ofList ('"' :: s.toList.flatMap quoteChar ++ ['"'])

example : quote "a\"b" = "\"a\\\"b\"" := by decide +kernel

example : quote "bell\x07" = "\"bell\\u\x7b7\x7d\"" := by decide +kernel

end HealthTree.Text
