/-!
# Socket addresses

The address that metrics are served at is an IP address and, after a colon, the number of the
service there: `127.0.0.1:9090` or `[::1]:9090`. Only whether a text is one matters here, so the
scanners give what is left of the text after the part they recognize, and `isSocketAddress` asks
that nothing be left.

An address of version 4 has four groups of at most three digits and no needless zeros. One of
version 6 has eight groups of at most four hexadecimal digits, of which a run of one or more zero
groups may be left out once (`::`) and the last two may be written as an address of version 4; in
brackets it may carry a numeric scope.
-/

namespace HealthTree.Address

/-- The value of a digit in a base of at most sixteen. -/
def digit? (base : Nat) (c : Char) : Option Nat :=
  let value :=
    if '0' ≤ c && c ≤ '9' then c.toNat - '0'.toNat
    else if 'a' ≤ c && c ≤ 'f' then c.toNat - 'a'.toNat + 10
    else if 'A' ≤ c && c ≤ 'F' then c.toNat - 'A'.toNat + 10
    else base
  if value < base then some value else none

/-- The number that digits make. -/
def number (base : Nat) (digits : List Char) : Nat :=
  digits.foldl (fun n c => n * base + (digit? base c).getD 0) 0

/-- The digits in front, at least one, and what is after them. -/
def digits? (base : Nat) (cs : List Char) : Option (List Char × List Char) :=
  match cs.span fun c => (digit? base c).isSome with
  | ([], _) => none
  | found => some found

/-- A decimal number below `bound`. -/
def decimal? (bound : Nat) (cs : List Char) : Option (List Char) := do
  let (digits, rest) ← digits? 10 cs
  if number 10 digits < bound then return rest else none

/-- A group of an address of version 4. -/
def octet? (cs : List Char) : Option (List Char) := do
  let (digits, rest) ← digits? 10 cs
  if digits.length ≤ 3 && number 10 digits < 256 && (digits.length == 1 || digits.head? != some '0')
  then return rest else none

/-- A group of an address of version 6. -/
def group? (cs : List Char) : Option (List Char) := do
  let (digits, rest) ← digits? 16 cs
  if digits.length ≤ 4 then return rest else none

/-- This character. -/
def char? (c : Char) : List Char → Option (List Char)
  | d :: rest => if d = c then some rest else none
  | [] => none

/-- An address of version 4. -/
def version4? (cs : List Char) : Option (List Char) := do
  let cs ← char? '.' (← octet? cs)
  let cs ← char? '.' (← octet? cs)
  let cs ← char? '.' (← octet? cs)
  octet? cs

/-- The colon before every group but the first. -/
def separator? (first : Bool) (cs : List Char) : Option (List Char) :=
  if first then some cs else char? ':' cs

/-- As many groups as there are, up to `room` of them, an address of version 4 at their end counting
for two. Gives their number, whether they end in such an address, and what is after them. -/
def groups (first : Bool) : Nat → List Char → Nat × Bool × List Char
  | 0, cs => (0, false, cs)
  | room + 1, cs =>
    match if 0 < room then (separator? first cs).bind version4? else none with
    | some rest => (2, true, rest)
    | none =>
      match (separator? first cs).bind group? with
      | some rest =>
        let (count, embedded, rest) := groups false room rest
        (count + 1, embedded, rest)
      | none => (0, false, cs)

/-- An address of version 6. -/
def version6? (cs : List Char) : Option (List Char) :=
  match groups true 8 cs with
  | (8, _, rest) => some rest
  | (_, true, _) => none
  | (count, false, rest) => do
    let rest ← char? ':' (← char? ':' rest)
    let (_, _, rest) := groups true (8 - (count + 1)) rest
    return rest

/-- The scope of an address of version 6, if there is one. -/
def skipScope (cs : List Char) : List Char :=
  ((char? '%' cs).bind (decimal? UInt32.size)).getD cs

/-- A colon and the number of a service. -/
def serviceNumber? (cs : List Char) : Option (List Char) := do
  decimal? UInt16.size (← char? ':' cs)

/-- An address of version 4 with a service number. -/
def socket4? (cs : List Char) : Option (List Char) := do
  serviceNumber? (← version4? cs)

/-- An address of version 6 with a service number. -/
def socket6? (cs : List Char) : Option (List Char) := do
  let cs ← version6? (← char? '[' cs)
  serviceNumber? (← char? ']' (skipScope cs))

/-- **The text is an IP address with a service number.** -/
def isSocketAddress (s : String) : Bool :=
  let cs := s.toList
  (socket4? cs).or (socket6? cs) == some []

example : isSocketAddress "0.0.0.0:9090" := by decide +kernel

example : isSocketAddress "[::ffff:10.0.0.1%3]:00080" := by decide +kernel

example : isSocketAddress "1.2.3.04:80" = false := by decide +kernel

example : isSocketAddress "[1:2:3:4:5:6:7::]:65535" := by decide +kernel

example : isSocketAddress "localhost:80" = false := by decide +kernel

end HealthTree.Address
