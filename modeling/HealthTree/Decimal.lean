/-!
# Decimal text of binary fractions

A configuration may hold a number with a point where a whole number belongs. Nothing is computed
with it, but the message that refuses it shows the number, so a text is first rounded to the nearest
double-width binary fraction (`Decimal.ofText`) and then taken by the fewest digits that round to it
again (`Decimal.shortest`).

**Shortest digits.** The reals that round to `r · 2^q` form an interval whose ends belong to it when
`r` is even. For one digit, two digits and so on up to seventeen, the two neighbours of the value on
that decimal grid are tested; the first grid with a neighbour inside gives the answer, and of two
the nearer. If both are equally near, the reader of the text has said which to take (`Tie`). All
numbers are scaled to natural numbers, so nothing is approximated.

Two ways of writing are used: `plain` never has an exponent, `compact` has one from `10^16` on and
below `10^-5`.
-/

namespace HealthTree

/-- A binary fraction by its shortest digits: `digits · 10^exponent`, with its sign. -/
inductive Decimal where
  | finite (negative : Bool) (digits : Nat) (exponent : Int)
  | infinite (negative : Bool)
  | notANumber
  deriving DecidableEq, Repr, Inhabited

/-- Which of two equally near decimals is taken. -/
inductive Tie where
  | upper
  /-- The one whose last digit is even. -/
  | even
  deriving DecidableEq, Repr, Inhabited

/-- The neighbour above is taken, of `c` and the next. -/
def Tie.takesUpper (c : Nat) : Tie → Bool
  | upper => true
  | even => c % 2 == 1

namespace Decimal

/-- What the whole part of a fraction stays below: `2^53`. -/
def precision : Nat := Nat.pow 2 53

/-- Powers of two that clear every denominator met here. -/
def binaryScale : Nat := 1080

/-- Powers of ten that clear every denominator met here. -/
def decimalScale : Nat := 360

/-- `a / b` rounded to the nearest whole number, a half to the even one. -/
def roundDiv (a b : Nat) : Nat :=
  let q := a / b
  let twice := 2 * (a % b)
  if b < twice || (twice == b && q % 2 == 1) then q + 1 else q

/-- The fraction nearest to `num / den` as `r · 2^q` with `r < 2^53` and `q ≥ -1074`. -/
def toBinary (num den : Nat) : Nat × Int :=
  let guess : Int := (Nat.log2 num : Int) - (Nat.log2 den : Int) - 52
  let at_ (q : Int) : Nat :=
    if q < 0 then roundDiv (num * Nat.pow 2 (-q).toNat) den
    else roundDiv num (den * Nat.pow 2 q.toNat)
  let low := max (guess - 1) (-1074)
  let q := if at_ low < precision then low
    else if at_ (low + 1) < precision then low + 1 else low + 2
  (at_ q, q)

/-- `r · 2^q`, scaled. -/
def scaled (r : Nat) (q : Int) : Nat :=
  r * Nat.pow 2 (q + binaryScale).toNat * Nat.pow 10 decimalScale

/-- `c · 10^s`, scaled. -/
def grid (c : Nat) (s : Int) : Nat :=
  c * Nat.pow 10 (s + decimalScale).toNat * Nat.pow 2 binaryScale

/-- Digits without the zeros at their end, and the exponent that makes up for them. -/
def dropZeros : Nat → Nat → Int → Nat × Int
  | 0, d, e => (d, e)
  | fuel + 1, d, e => if d ≠ 0 && d % 10 = 0 then dropZeros fuel (d / 10) (e + 1) else (d, e)

/-- The first grid, from `10^s` downwards, with a point that rounds to the value. -/
def search (tie : Tie) (value low high : Nat) (closed : Bool) : Nat → Int → Nat × Int
  | 0, s => (value / grid 1 s, s)
  | fuel + 1, s =>
    let inside (x : Nat) := if closed then low ≤ x && x ≤ high else low < x && x < high
    let c := value / grid 1 s
    let below := grid c s
    let above := grid (c + 1) s
    let belowIn := c != 0 && inside below
    let aboveIn := inside above
    if belowIn && aboveIn then
      if value - below < above - value then (c, s)
      else if above - value < value - below || tie.takesUpper c then (c + 1, s)
      else (c, s)
    else if belowIn then (c, s)
    else if aboveIn then (c + 1, s)
    else search tie value low high closed fuel (s - 1)

/-- **The shortest digits** of `r · 2^q`. -/
def shortest (tie : Tie) (r : Nat) (q : Int) : Nat × Int :=
  let value := scaled r q
  let high := scaled (2 * r + 1) (q - 1)
  let low :=
    if 2 * r = precision && -1074 < q then scaled (4 * r - 1) (q - 2) else scaled (2 * r - 1) (q - 1)
  let top : Int := (Nat.toDigits 10 (value / Nat.pow 2 binaryScale)).length - 1 - decimalScale
  let (d, e) := search tie value low high (r % 2 == 0) 17 top
  dropZeros 20 d e

/-- **The fraction nearest to `mantissa · 10^exponent`**, by its shortest digits. -/
def ofText (tie : Tie) (negative : Bool) (mantissa : Nat) (exponent : Int) : Decimal :=
  let size : Int := (Nat.toDigits 10 mantissa).length + exponent
  if mantissa = 0 || size < -330 then finite negative 0 0
  else if 310 < size then infinite negative
  else
    let (r, q) :=
      if exponent < 0 then toBinary mantissa (Nat.pow 10 (-exponent).toNat)
      else toBinary (mantissa * Nat.pow 10 exponent.toNat) 1
    if r = 0 then finite negative 0 0
    else if 971 < q || (q = 971 && precision ≤ r) then infinite negative
    else
      let (d, e) := shortest tie r q
      finite negative d e

/-- A text of `n` zeros. -/
def zeros (n : Nat) : String :=
  String.ofList (List.replicate n '0')

/-- Digits with the point `point` places after the first of them. -/
def pointed (digits : String) (point : Int) : String :=
  let n := digits.length
  if point ≤ 0 then "0." ++ zeros (-point).toNat ++ digits
  else if n ≤ point.toNat then digits ++ zeros (point.toNat - n) ++ ".0"
  else String.ofList (digits.toList.take point.toNat) ++ "." ++
    String.ofList (digits.toList.drop point.toNat)

/-- The sign, if it is written. -/
def sign (negative : Bool) : String :=
  if negative then "-" else ""

/-- **Positional text**: no exponent, and at least one digit on each side of the point. -/
def plain : Decimal → String
  | finite neg 0 _ => sign neg ++ "0.0"
  | finite neg d e => sign neg ++ pointed (toString d) ((toString d).length + e)
  | infinite neg => sign neg ++ "inf"
  | notANumber => "NaN"

/-- **Text with an exponent for the large and the small**: positional with up to sixteen places
before the point and up to five zeros after it. -/
def compact : Decimal → String
  | finite neg 0 _ => sign neg ++ "0.0"
  | finite neg d e =>
    let digits := toString d
    let point : Int := digits.length + e
    if -5 < point && point ≤ 16 then sign neg ++ pointed digits point
    else
      let first := String.ofList (digits.toList.take 1)
      let more := String.ofList (digits.toList.drop 1)
      sign neg ++ first ++ (if more.isEmpty then "" else "." ++ more) ++ "e" ++ toString (point - 1)
  | infinite neg => sign neg ++ "inf"
  | notANumber => "NaN"

end Decimal

end HealthTree
