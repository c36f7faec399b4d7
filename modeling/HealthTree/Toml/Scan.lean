import HealthTree.Data

/-!
# Scanning TOML text

Blanks, comments, line ends, keys, strings, numbers and dates of TOML 1.0. Each scanner takes the
characters that remain and gives what it found and the characters after it, or `none` where the text
is no TOML. A date or a time is only recognized: nothing here computes with one.
-/

namespace HealthTree.Toml

/-- The characters allowed in comments, and in strings apart from quotes and backslashes. -/
def isText (c : Char) : Bool :=
  c == '\t' || (' ' ≤ c && c ≤ '~') || 0x80 ≤ c.toNat

/-- The characters after spaces and tabs. -/
def skipSpaces (cs : List Char) : List Char :=
  cs.dropWhile fun c => c == ' ' || c == '\t'

/-- The characters after a comment, if there is one here. -/
def skipComment : List Char → List Char
  | '#' :: rest => rest.dropWhile isText
  | cs => cs

/-- A line feed, with or without a carriage return before it. -/
def newline? : List Char → Option (List Char)
  | '\n' :: rest => some rest
  | '\r' :: '\n' :: rest => some rest
  | _ => none

/-- The end of a line or of the text, after spaces and a comment. -/
def lineEnd? (cs : List Char) : Option (List Char) :=
  match skipComment (skipSpaces cs) with
  | [] => some []
  | cs => newline? cs

/-- The characters after spaces, line ends and comments. A comment has to end in a line end. -/
def skipLines : Nat → List Char → Option (List Char)
  | 0, cs => some cs
  | fuel + 1, cs =>
    match skipSpaces cs with
    | '#' :: rest => (newline? (skipComment ('#' :: rest))).bind (skipLines fuel)
    | '\n' :: rest => skipLines fuel rest
    | '\r' :: rest => (newline? ('\r' :: rest)).bind (skipLines fuel)
    | cs => some cs

/-! ## Strings -/

/-- The value of a hexadecimal digit of either case. -/
def hexValue? (c : Char) : Option Nat :=
  if '0' ≤ c && c ≤ '9' then some (c.toNat - '0'.toNat)
  else if 'a' ≤ c && c ≤ 'f' then some (c.toNat - 'a'.toNat + 10)
  else if 'A' ≤ c && c ≤ 'F' then some (c.toNat - 'A'.toNat + 10)
  else none

/-- The character that hexadecimal digits name. -/
def hexChar? (digits : List Char) : Option Char := do
  let n ← digits.foldlM (fun n c => do return n * 16 + (← hexValue? c)) 0
  if n < 0xD800 || (0xDFFF < n && n ≤ 0x10FFFF) then return Char.ofNat n else none

/-- What a backslash and this character stand for, the hexadecimal escapes apart. -/
def shortEscape? (c : Char) : Option Char :=
  if c = 'b' then some '\x08'
  else if c = 't' then some '\t'
  else if c = 'n' then some '\n'
  else if c = 'f' then some '\x0c'
  else if c = 'r' then some '\r'
  else if c = '"' then some '"'
  else if c = '\\' then some '\\'
  else none

/-- A character put before what a string scanner gives. -/
def consChar (c : Char) (r : Option (List Char × List Char)) : Option (List Char × List Char) :=
  r.map fun (s, rest) => (c :: s, rest)

/-- A string of one line with escapes, from after its opening quote. -/
def basicString : List Char → Option (List Char × List Char)
  | [] => none
  | '"' :: rest => some ([], rest)
  | '\\' :: 'u' :: a :: b :: c :: d :: rest => do
    consChar (← hexChar? [a, b, c, d]) (basicString rest)
  | '\\' :: 'U' :: a :: b :: c :: d :: e :: f :: g :: h :: rest => do
    consChar (← hexChar? [a, b, c, d, e, f, g, h]) (basicString rest)
  | '\\' :: e :: rest => do consChar (← shortEscape? e) (basicString rest)
  | c :: rest => if isText c then consChar c (basicString rest) else none

/-- A string of one line without escapes, from after its opening quote. -/
def literalString : List Char → Option (List Char × List Char)
  | [] => none
  | '\'' :: rest => some ([], rest)
  | c :: rest => if isText c then consChar c (literalString rest) else none

/-- The end of a string of several lines: a run of three to five quotes, of which the first ones
beyond three belong to the string. Gives these and the characters after the run. -/
def closing? (quote : Char) (cs : List Char) : Option (List Char × List Char) :=
  let run := (cs.takeWhile (· == quote)).length
  if 3 ≤ run && run ≤ 5 then some (List.replicate (run - 3) quote, cs.drop run) else none

/-- The characters after a backslash at the end of a line: those up to the next that is no blank. -/
def skipLineBreak? (cs : List Char) : Option (List Char) := do
  let rest ← newline? (skipSpaces cs)
  let blank (c : Char) := c == ' ' || c == '\t' || c == '\n' || c == '\r'
  let after := rest.dropWhile blank
  let gap := rest.take (rest.length - after.length)
  if gap.zip (gap.drop 1 ++ ['x']) |>.any fun (a, b) => a == '\r' && b != '\n' then none
  else return after

/-- A string of several lines with escapes. The first argument bounds its length. -/
def multiBasic : Nat → List Char → Option (List Char × List Char)
  | 0, _ => none
  | fuel + 1, cs =>
    match cs with
    | [] => none
    | '"' :: rest =>
      match closing? '"' ('"' :: rest) with
      | some found => some found
      | none => if rest.take 2 == ['"', '"'] then none else consChar '"' (multiBasic fuel rest)
    | '\\' :: 'u' :: a :: b :: c :: d :: rest => do
      consChar (← hexChar? [a, b, c, d]) (multiBasic fuel rest)
    | '\\' :: 'U' :: a :: b :: c :: d :: e :: f :: g :: h :: rest => do
      consChar (← hexChar? [a, b, c, d, e, f, g, h]) (multiBasic fuel rest)
    | '\\' :: e :: rest =>
      match shortEscape? e with
      | some c => consChar c (multiBasic fuel rest)
      | none => (skipLineBreak? (e :: rest)).bind (multiBasic fuel)
    | c :: rest =>
      match newline? (c :: rest) with
      | some rest => consChar '\n' (multiBasic fuel rest)
      | none => if isText c then consChar c (multiBasic fuel rest) else none

/-- A string of several lines without escapes. The first argument bounds its length. -/
def multiLiteral : Nat → List Char → Option (List Char × List Char)
  | 0, _ => none
  | fuel + 1, cs =>
    match cs with
    | [] => none
    | '\'' :: rest =>
      match closing? '\'' ('\'' :: rest) with
      | some found => some found
      | none =>
        if rest.take 2 == ['\'', '\''] then none else consChar '\'' (multiLiteral fuel rest)
    | c :: rest =>
      match newline? (c :: rest) with
      | some rest => consChar '\n' (multiLiteral fuel rest)
      | none => if isText c then consChar c (multiLiteral fuel rest) else none

/-- A line end right after the opening of a string of several lines is no part of it. -/
def dropFirstNewline (cs : List Char) : List Char :=
  (newline? cs).getD cs

/-- **A string** of any of the four kinds, from its first quote on. -/
def string? : List Char → Option (String × List Char)
  | '"' :: '"' :: '"' :: rest =>
    (multiBasic (rest.length + 1) (dropFirstNewline rest)).map fun (s, r) => (String.ofList s, r)
  | '"' :: rest => (basicString rest).map fun (s, r) => (String.ofList s, r)
  | '\'' :: '\'' :: '\'' :: rest =>
    (multiLiteral (rest.length + 1) (dropFirstNewline rest)).map fun (s, r) => (String.ofList s, r)
  | '\'' :: rest => (literalString rest).map fun (s, r) => (String.ofList s, r)
  | _ => none

/-! ## Keys -/

/-- The characters of a key without quotes. -/
def isBare (c : Char) : Bool :=
  c.isAlphanum || c == '_' || c == '-'

/-- One part of a key. -/
def simpleKey? : List Char → Option (String × List Char)
  | '"' :: rest => (basicString rest).map fun (s, r) => (String.ofList s, r)
  | '\'' :: rest => (literalString rest).map fun (s, r) => (String.ofList s, r)
  | cs =>
    match cs.takeWhile isBare with
    | [] => none
    | s => some (String.ofList s, cs.dropWhile isBare)

/-- The parts of a key after its first one. -/
def moreKeys : Nat → List Char → Option (List String × List Char)
  | 0, _ => none
  | fuel + 1, cs =>
    match skipSpaces cs with
    | '.' :: rest => do
      let (part, rest) ← simpleKey? (skipSpaces rest)
      let (more, rest) ← moreKeys fuel rest
      return (part :: more, rest)
    | cs => some ([], cs)

/-- How deep keys, lists and tables may be nested. -/
def maxLevels : Nat := 79

/-- **A key**: its parts, parted by points, and the characters after it and the spaces there. -/
def key? (cs : List Char) : Option ((String × List String) × List Char) := do
  let (first, rest) ← simpleKey? (skipSpaces cs)
  let (more, rest) ← moreKeys (rest.length + 1) rest
  if more.length < maxLevels then return ((first, more), rest) else none

/-! ## Numbers and dates -/

/-- Digits after the first of them, each with at most one underscore before it. -/
def moreDigits (isDigit : Char → Bool) : List Char → List Char × List Char
  | '_' :: c :: rest =>
    if isDigit c then
      let (ds, rest) := moreDigits isDigit rest
      (c :: ds, rest)
    else ([], '_' :: c :: rest)
  | c :: rest =>
    if isDigit c then
      let (ds, rest) := moreDigits isDigit rest
      (c :: ds, rest)
    else ([], c :: rest)
  | [] => ([], [])

/-- One digit or more, without the underscores between them. -/
def digits? (isDigit : Char → Bool) : List Char → Option (List Char × List Char)
  | c :: rest =>
    if isDigit c then
      let (ds, rest) := moreDigits isDigit rest
      some (c :: ds, rest)
    else none
  | [] => none

/-- The number that digits stand for in a base. -/
def digitsValue (base : Nat) (ds : List Char) : Nat :=
  ds.foldl (fun n c => n * base + (hexValue? c).getD 0) 0

/-- The sign, if one is written. -/
def sign : List Char → Bool × List Char
  | '-' :: rest => (true, rest)
  | '+' :: rest => (false, rest)
  | cs => (false, cs)

/-- A whole number within 64 bits with sign. -/
def inRange? (n : Int) : Option Data :=
  if Int64.minValue.toInt ≤ n && n ≤ Int64.maxValue.toInt then some (.int n) else none

/-- A whole number in another base than ten, from after its mark. -/
def based? (base : Nat) (isDigit : Char → Bool) (cs : List Char) : Option (Data × List Char) := do
  let (ds, rest) ← digits? isDigit cs
  return (← inRange? (digitsValue base ds), rest)

/-- The exponent, if there is one. -/
def exponent? : List Char → Option (Option Int × List Char)
  | e :: rest =>
    if e = 'e' || e = 'E' then do
      let (negative, rest) := sign rest
      let (ds, rest) ← digits? Char.isDigit rest
      let n : Int := digitsValue 10 ds
      return (some (if negative then -n else n), rest)
    else some (none, e :: rest)
  | [] => some (none, [])

/-- A number with a point or an exponent; it must not be too large. -/
def approximate? (negative : Bool) (mantissa : Nat) (exponent : Int) : Option Data :=
  match Decimal.ofText .upper negative mantissa exponent with
  | .infinite false => none
  | x => some (.float x)

/-- A number in base ten, from after its sign. -/
def decimal? (negative : Bool) (cs : List Char) : Option (Data × List Char) := do
  let (whole, rest) ← match cs with
    | '0' :: rest => some (['0'], rest)
    | cs => digits? Char.isDigit cs
  match rest with
  | '.' :: rest =>
    let (fraction, rest) ← digits? Char.isDigit rest
    let (exponent, rest) ← exponent? rest
    let mantissa := digitsValue 10 (whole ++ fraction)
    return (← approximate? negative mantissa (exponent.getD 0 - (fraction.length : Int)), rest)
  | rest =>
    match ← exponent? rest with
    | (some exponent, rest) =>
      return (← approximate? negative (digitsValue 10 whole) exponent, rest)
    | (none, rest) =>
      let n : Int := digitsValue 10 whole
      return (← inRange? (if negative then -n else n), rest)

/-- **A number**, from its sign or first character on. -/
def number? (cs : List Char) : Option (Data × List Char) :=
  match cs with
  | '0' :: 'x' :: rest => based? 16 (fun c => (hexValue? c).isSome) rest
  | '0' :: 'o' :: rest => based? 8 (fun c => '0' ≤ c && c ≤ '7') rest
  | '0' :: 'b' :: rest => based? 2 (fun c => c == '0' || c == '1') rest
  | cs =>
    let (negative, rest) := sign cs
    match rest with
    | 'i' :: 'n' :: 'f' :: rest => some (.float (.infinite negative), rest)
    | 'n' :: 'a' :: 'n' :: rest => some (.float .notANumber, rest)
    | rest => decimal? negative rest

/-- The number that exactly `count` digits stand for. -/
def fixedDigits? (count : Nat) (cs : List Char) : Option (Nat × List Char) :=
  let ds := cs.take count
  if ds.length = count && ds.all Char.isDigit then some (digitsValue 10 ds, cs.drop count) else none

/-- A number of two digits up to a limit. -/
def twoDigits? (low high : Nat) (cs : List Char) : Option (Nat × List Char) := do
  let (n, rest) ← fixedDigits? 2 cs
  if low ≤ n && n ≤ high then return (n, rest) else none

/-- A character that has to be here. -/
def expect? (c : Char) : List Char → Option (List Char)
  | c' :: rest => if c' = c then some rest else none
  | [] => none

/-- The days of a month. -/
def daysIn (year month : Nat) : Nat :=
  if month = 2 then
    if year % 4 = 0 && (year % 100 != 0 || year % 400 = 0) then 29 else 28
  else if month = 4 || month = 6 || month = 9 || month = 11 then 30
  else 31

/-- The characters after a day of the calendar. -/
def date? (cs : List Char) : Option (List Char) := do
  let (year, cs) ← fixedDigits? 4 cs
  let cs ← expect? '-' cs
  let (month, cs) ← twoDigits? 1 12 cs
  let cs ← expect? '-' cs
  let (_, cs) ← twoDigits? 1 (daysIn year month) cs
  return cs

/-- The characters after a time of day. -/
def time? (cs : List Char) : Option (List Char) := do
  let (_, cs) ← twoDigits? 0 23 cs
  let cs ← expect? ':' cs
  let (_, cs) ← twoDigits? 0 59 cs
  let cs ← expect? ':' cs
  let (_, cs) ← twoDigits? 0 60 cs
  match cs with
  | '.' :: c :: rest => if c.isDigit then return rest.dropWhile Char.isDigit else none
  | '.' :: _ => none
  | cs => return cs

/-- The characters after the offset of a time, if there is one. -/
def offset? : List Char → Option (List Char)
  | 'Z' :: rest => some rest
  | 'z' :: rest => some rest
  | c :: rest =>
    if c = '+' || c = '-' then do
      let (_, rest) ← twoDigits? 0 23 rest
      let rest ← expect? ':' rest
      let (_, rest) ← twoDigits? 0 59 rest
      return rest
    else some (c :: rest)
  | [] => some []

/-- The characters after a date, a time, or both. -/
def dateTime? (cs : List Char) : Option (List Char) :=
  match date? cs with
  | some (c :: rest) =>
    if c = 'T' || c = 't' || c = ' ' then
      match time? rest with
      | some rest => offset? rest
      | none => some (c :: rest)
    else some (c :: rest)
  | some [] => some []
  | none => time? cs

/-- **A date or a number**, from its first character on. -/
def dateOrNumber? (cs : List Char) : Option (Data × List Char) :=
  match dateTime? cs with
  | some rest => some (.date (String.ofList (cs.take (cs.length - rest.length))), rest)
  | none => number? cs

end HealthTree.Toml
