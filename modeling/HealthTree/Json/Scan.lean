import HealthTree.Data

/-!
# Scanning JSON text

The pieces every reader of JSON text is made of: blanks, strings, numbers, the three literals, and
values that are passed over unread. Each takes the characters that remain and gives the ones it
leaves, or the first problem met from left to right.

**Three problems.** A text is `malformed` where no JSON text goes on, `truncated` where it ends too
early, and a `mismatch` where it goes on as JSON but not as what the reader wants there.

**Passing over is laxer than reading.** A value nobody asked for only has to have the shape of one:
its numbers may be of any size, its escapes may stand for half a character (`skipString`), and it
may be nested to any depth (`skipValue`).
-/

namespace HealthTree.Json

/-- What is wrong with a text, at the first place where something is. -/
inductive Problem where
  | malformed
  | truncated
  | mismatch
  deriving DecidableEq, Repr, Inhabited

/-- The blanks of JSON. -/
def isBlank (c : Char) : Bool :=
  c == ' ' || c == '\n' || c == '\t' || c == '\r'

/-- The characters after any blanks. -/
def skipBlanks (cs : List Char) : List Char :=
  cs.dropWhile isBlank

/-! ## Strings -/

/-- The value of a hexadecimal digit of either case. -/
def hexValue? (c : Char) : Option Nat :=
  if '0' ≤ c && c ≤ '9' then some (c.toNat - '0'.toNat)
  else if 'a' ≤ c && c ≤ 'f' then some (c.toNat - 'a'.toNat + 10)
  else if 'A' ≤ c && c ≤ 'F' then some (c.toNat - 'A'.toNat + 10)
  else none

/-- The number four hexadecimal digits stand for. -/
def unit? (a b c d : Char) : Option Nat := do
  return (((← hexValue? a) * 16 + (← hexValue? b)) * 16 + (← hexValue? c)) * 16 + (← hexValue? d)

/-- What a backslash and this character stand for, `u` apart. -/
def shortEscape? (c : Char) : Option Char :=
  if c = '"' then some '"'
  else if c = '\\' then some '\\'
  else if c = '/' then some '/'
  else if c = 'b' then some '\x08'
  else if c = 'f' then some '\x0c'
  else if c = 'n' then some '\n'
  else if c = 'r' then some '\r'
  else if c = 't' then some '\t'
  else none

/-- Fewer than four characters are left for the four digits of an escape. The text ends early
unless four octets are left, which then are no four digits. -/
def shortOfDigits (cs : List Char) : Problem :=
  if 4 ≤ cs.foldl (fun octets c => octets + c.utf8Size) 0 then .malformed else .truncated

/-- Half of a character outside the basic plane, the first or the second. -/
def isHigh (n : Nat) : Bool := 0xD800 ≤ n && n ≤ 0xDBFF

@[inherit_doc isHigh]
def isLow (n : Nat) : Bool := 0xDC00 ≤ n && n ≤ 0xDFFF

/-- A character put before what a string reader gives. -/
def consChar (c : Char) :
    Except Problem (List Char × List Char) → Except Problem (List Char × List Char)
  | .ok (s, rest) => .ok (c :: s, rest)
  | .error p => .error p

/-- **The characters of a string**, read from after its opening quote to after its closing one. -/
def string : List Char → Except Problem (List Char × List Char)
  | [] => .error .truncated
  | '"' :: rest => .ok ([], rest)
  | '\\' :: rest =>
    match rest with
    | [] => .error .truncated
    | 'u' :: a :: b :: c :: d :: rest =>
      match unit? a b c d with
      | none => .error .malformed
      | some n =>
        if isLow n then .error .malformed
        else if isHigh n then
          match rest with
          | [] => .error .truncated
          | ['\\'] => .error .truncated
          | '\\' :: 'u' :: a :: b :: c :: d :: rest =>
            match unit? a b c d with
            | none => .error .malformed
            | some m =>
              if isLow m then
                consChar (Char.ofNat (0x10000 + (n - 0xD800) * 0x400 + (m - 0xDC00))) (string rest)
              else .error .malformed
          | '\\' :: 'u' :: rest => .error (shortOfDigits rest)
          | _ => .error .malformed
        else consChar (Char.ofNat n) (string rest)
    | 'u' :: rest => .error (shortOfDigits rest)
    | e :: rest =>
      match shortEscape? e with
      | some c => consChar c (string rest)
      | none => .error .malformed
  | c :: rest => if c.toNat < 0x20 then .error .malformed else consChar c (string rest)

/-- The characters after a string that is passed over, from after its opening quote. -/
def skipString : List Char → Except Problem (List Char)
  | [] => .error .truncated
  | '"' :: rest => .ok rest
  | '\\' :: rest =>
    match rest with
    | [] => .error .truncated
    | 'u' :: a :: b :: c :: d :: rest =>
      if (unit? a b c d).isSome then skipString rest else .error .malformed
    | 'u' :: rest => .error (shortOfDigits rest)
    | e :: rest => if (shortEscape? e).isSome then skipString rest else .error .malformed
  | c :: rest => if c.toNat < 0x20 then .error .malformed else skipString rest

/-! ## Numbers and literals -/

/-- A number as it is written. -/
structure Numeral where
  negative : Bool
  whole : List Char
  fraction : Option (List Char)
  exponent : Option Int
  deriving Repr

/-- The number decimal digits stand for. -/
def digitsValue (cs : List Char) : Nat :=
  cs.foldl (fun n c => n * 10 + (c.toNat - '0'.toNat)) 0

/-- One digit or more. -/
def digits (cs : List Char) : Except Problem (List Char × List Char) :=
  match cs.takeWhile Char.isDigit with
  | [] => .error (if cs.isEmpty then .truncated else .malformed)
  | ds => .ok (ds, cs.dropWhile Char.isDigit)

/-- The digits before the point: a leading zero stands alone. -/
def wholePart (cs : List Char) : Except Problem (List Char × List Char) := do
  let (ds, rest) ← digits cs
  if ds.head? = some '0' && 1 < ds.length then .error .malformed else return (ds, rest)

/-- The digits after the point, if there is one. -/
def fractionPart : List Char → Except Problem (Option (List Char) × List Char)
  | '.' :: rest => do
    let (ds, rest) ← digits rest
    return (some ds, rest)
  | rest => .ok (none, rest)

/-- The exponent, if there is one. -/
def exponentPart : List Char → Except Problem (Option Int × List Char)
  | e :: rest =>
    if e = 'e' || e = 'E' then
      match rest with
      | '-' :: rest => do
        let (ds, rest) ← digits rest
        return (some (-(digitsValue ds : Int)), rest)
      | '+' :: rest => do
        let (ds, rest) ← digits rest
        return (some (digitsValue ds : Int), rest)
      | rest => do
        let (ds, rest) ← digits rest
        return (some (digitsValue ds : Int), rest)
    else .ok (none, e :: rest)
  | [] => .ok (none, [])

/-- **A number**, from its sign or first digit on. -/
def numeral (cs : List Char) : Except Problem (Numeral × List Char) := do
  let (negative, cs) := match cs with
    | '-' :: rest => (true, rest)
    | cs => (false, cs)
  let (whole, cs) ← wholePart cs
  let (fraction, cs) ← fractionPart cs
  let (exponent, cs) ← exponentPart cs
  return (⟨negative, whole, fraction, exponent⟩, cs)

/-- The value of a number: whole within 64 bits, else the nearest binary fraction. A negative zero
is no whole number. -/
def Numeral.value (x : Numeral) : Data :=
  let fraction := x.fraction.getD []
  let mantissa := digitsValue (x.whole ++ fraction)
  let approximate := Data.float
    (Decimal.ofText .even x.negative mantissa (x.exponent.getD 0 - (fraction.length : Int)))
  if x.fraction.isSome || x.exponent.isSome then approximate
  else if x.negative then
    if 0 < mantissa && Int64.minValue.toInt ≤ -(mantissa : Int) then .int (-(mantissa : Int))
    else approximate
  else if mantissa < UInt64.size then .int mantissa else approximate

/-- The value of a number, which has to be finite. -/
def number (cs : List Char) : Except Problem (Data × List Char) := do
  let (x, rest) ← numeral cs
  match x.value with
  | .float (.infinite _) => .error .malformed
  | value => return (value, rest)

/-- The rest of a literal. -/
def literal : List Char → List Char → Except Problem (List Char)
  | [], rest => .ok rest
  | _ :: _, [] => .error .truncated
  | w :: ws, c :: cs => if w = c then literal ws cs else .error .malformed

/-- The character opens a number. -/
def opensNumber (c : Char) : Bool :=
  c == '-' || c.isDigit

/-! ## Values passed over -/

/-- The characters from a key's opening quote on, past the comma if this is not the first entry. -/
def atKey (first : Bool) : List Char → Except Problem (List Char)
  | c :: rest =>
    if first then
      if c = '"' then .ok (c :: rest) else .error .malformed
    else if c = ',' then
      match skipBlanks rest with
      | [] => .error .truncated
      | '"' :: rest => .ok ('"' :: rest)
      | _ => .error .malformed
    else .error .malformed
  | [] => .error .truncated

/-- The characters after the colon between a key and its value. -/
def afterColon (cs : List Char) : Except Problem (List Char) :=
  match skipBlanks cs with
  | [] => .error .truncated
  | ':' :: rest => .ok rest
  | _ => .error .malformed

mutual
/-- **The characters after a value that is passed over.** The first argument bounds how many values
there can be; the number of characters is enough. -/
def skipValue : Nat → List Char → Except Problem (List Char)
  | 0, _ => .error .truncated
  | fuel + 1, cs =>
    match skipBlanks cs with
    | [] => .error .truncated
    | 'n' :: rest => literal "ull".toList rest
    | 't' :: rest => literal "rue".toList rest
    | 'f' :: rest => literal "alse".toList rest
    | '"' :: rest => skipString rest
    | '[' :: rest => skipItems fuel true rest
    | '\x7b' :: rest => skipEntries fuel true rest
    | c :: rest =>
      if opensNumber c then
        match numeral (c :: rest) with
        | .ok (_, rest) => .ok rest
        | .error _ => .error .malformed
      else .error .malformed
/-- The characters after the items of a list that is passed over. -/
def skipItems : Nat → Bool → List Char → Except Problem (List Char)
  | 0, _, _ => .error .truncated
  | fuel + 1, first, cs =>
    match skipBlanks cs with
    | [] => .error .truncated
    | ']' :: rest => .ok rest
    | c :: rest =>
      if first then do skipItems fuel false (← skipValue fuel (c :: rest))
      else if c = ',' then do
        let rest ← skipValue fuel rest
        skipItems fuel false rest
      else .error .malformed
/-- The characters after the entries of a map that is passed over. -/
def skipEntries : Nat → Bool → List Char → Except Problem (List Char)
  | 0, _, _ => .error .truncated
  | fuel + 1, first, cs =>
    match skipBlanks cs with
    | [] => .error .truncated
    | '\x7d' :: rest => .ok rest
    | cs => do
      let cs ← atKey first cs
      let cs ← skipString (cs.drop 1)
      let cs ← afterColon cs
      let cs ← skipValue fuel cs
      skipEntries fuel false cs
end

end HealthTree.Json
