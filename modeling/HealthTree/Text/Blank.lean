/-!
# Blank characters, and texts cut to what is between them

`Char.isBlank` is the Unicode property `White_Space`; core's `Char.isWhitespace` knows its ASCII
part only. A name made of blank characters alone names nothing, and a status word may be written
with blanks around it; both rules read this one table.
-/

namespace HealthTree.Text

/-- The character has the Unicode property `White_Space`. -/
def isBlank (c : Char) : Bool :=
  let n := c.toNat
  (9 ≤ n && n ≤ 13) || n == 0x20 || n == 0x85 || n == 0xA0 || n == 0x1680 ||
    (0x2000 ≤ n && n ≤ 0x200A) || n == 0x2028 || n == 0x2029 || n == 0x202F || n == 0x205F ||
    n == 0x3000

/-- Blank characters dropped from both ends. -/
def trimChars (cs : List Char) : List Char :=
  ((cs.dropWhile isBlank).reverse.dropWhile isBlank).reverse

/-- **A text without the blanks around it.** -/
def trim (s : String) : String :=
  String.ofList (trimChars s.toList)

/-- The text is made of blanks alone, or empty. -/
def isBlankText (s : String) : Bool :=
  s.toList.all isBlank

/-- `A` to `Z` in lower case; every other character is kept. -/
def asciiLower (s : String) : String :=
  s.map Char.toLower

end HealthTree.Text
