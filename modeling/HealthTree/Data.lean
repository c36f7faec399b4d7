import HealthTree.Decimal

/-!
# Data trees

What a text format carries: scalars, lists and maps. Both formats read here, JSON and TOML, are read
into a `Data` tree, and everything else looks at the tree only. The entries of a map keep the order
they were given in; a reader that allows a key twice keeps the last (`Data.put`). A date, which only
one of the formats has, is a map with one reserved key.
-/

namespace HealthTree

/-- A tree of plain data. -/
inductive Data where
  | null
  | bool (b : Bool)
  | int (n : Int)
  | float (x : Decimal)
  | str (s : String)
  | list (items : List Data)
  | map (entries : List (String × Data))
  deriving Inhabited

namespace Data

/-- The key reserved for dates. -/
def dateKey : String := "$date"

/-- A date or a time of day, by its text. -/
def date (text : String) : Data := .map [(dateKey, .str text)]

/-- The entries with the value of `key` replaced where it stands, or added at the end. -/
def put (key : String) (value : Data) : List (String × Data) → List (String × Data)
  | [] => [(key, value)]
  | (k, v) :: rest => if k = key then (k, value) :: rest else (k, v) :: put key value rest

/-- The entries with `key` at its place in the order of the keys. -/
def putSorted (key : String) (value : Data) : List (String × Data) → List (String × Data)
  | [] => [(key, value)]
  | (k, v) :: rest =>
    if key < k then (key, value) :: (k, v) :: rest
    else if key = k then (key, value) :: rest
    else (k, v) :: putSorted key value rest

/-- The value under `key`, if this is a map that has one. -/
def get? (key : String) : Data → Option Data
  | map entries => entries.lookup key
  | _ => none

/-- The text of a string. -/
def str? : Data → Option String
  | str s => some s
  | _ => none

/-- A whole number that is not negative. -/
def nat? : Data → Option Nat
  | int n => if 0 ≤ n then some n.toNat else none
  | _ => none

/-- The items of a list. -/
def list? : Data → Option (List Data)
  | list items => some items
  | _ => none

/-- The entries of a map. -/
def map? : Data → Option (List (String × Data))
  | map entries => some entries
  | _ => none

/-- The value under a key that has to be there, as a text. -/
def strAt? (key : String) (d : Data) : Option String :=
  (d.get? key).bind str?

/-- The value under a key that has to be there, as a natural number. -/
def natAt? (key : String) (d : Data) : Option Nat :=
  (d.get? key).bind nat?

end Data

end HealthTree
