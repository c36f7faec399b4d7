import HealthTree.Config.Vocabulary
import HealthTree.Text.Quoted

/-!
# Why data is no configuration

A `Refusal` is the first thing in a data tree that does not fit a configuration. The two text
formats word a few of them differently, and show numbers with a point differently, so the text of a
refusal (`Refusal.message`) depends on the format the data was read from.
-/

namespace HealthTree

/-- The text format some data was read from. -/
inductive Format where
  | json
  | toml
  deriving DecidableEq, Repr, Inhabited

/-- What a place in a configuration has to hold. -/
inductive Wanted where
  | word64
  | word32
  | flag
  | text
  | items
  | config
  | observability
  | reporting
  | spec
  | kindWord
  | kindNumber
  /-- All parts of a check in a list. -/
  | partsOf (kind : CheckSpec.Kind)
  /-- So many items in a list. -/
  | exactly (count : Nat)
  | fewerItems
  deriving DecidableEq, Repr, Inhabited

/-- What is wanted, in words. -/
def Wanted.word : Wanted → String
  | word64 => "u64"
  | word32 => "u32"
  | flag => "a boolean"
  | text => "a string"
  | items => "a sequence"
  | config => "struct HealthConfig"
  | observability => "struct ObservabilityConfig"
  | reporting => "struct ReportConfig"
  | spec => "internally tagged enum CheckConfig"
  | kindWord => "variant identifier"
  | kindNumber => "variant index 0 <= i < " ++ toString CheckSpec.Kind.all.length
  | partsOf kind => "struct variant CheckConfig::" ++ kind.title ++ " with " ++
      toString kind.parts.length ++ " elements"
  | exactly count => toString count ++ " elements in sequence"
  | fewerItems => "fewer elements in array"

/-- Why data is no configuration. -/
inductive Refusal where
  /-- A part that has no default is left out. -/
  | missing (key : String)
  | mistyped (found : Data) (wanted : Wanted)
  /-- A whole number that is too small or too large. -/
  | outOfRange (n : Int) (wanted : Wanted)
  /-- A list that is too short or too long. -/
  | wrongLength (length : Nat) (wanted : Wanted)
  /-- A word that is none of these. -/
  | unknownWord (word : String) (known : List String)
  /-- A layout is given by a word or by a map. -/
  | noLayout (found : Data)
  /-- A map that gives a layout has one key. -/
  | layoutKeys (count : Nat)
  /-- A layout has no settings. -/
  | layoutSettings (found : Data)
  deriving Inhabited

/-- A word set off from the words around it. -/
def setOff (word : String) : String :=
  "`" ++ word ++ "`"

/-- The words a message lists. -/
def oneOf (known : List String) : String :=
  match known.map setOff with
  | [first, second] => first ++ " or " ++ second
  | _ => "one of " ++ ", ".intercalate (known.map setOff)

namespace Data

/-- A whole number as a message shows it. -/
def showInt (n : Int) : String :=
  "integer " ++ setOff (toString n)

/-- Some data as a message shows it. -/
def shown (format : Format) : Data → String
  | null => "null"
  | bool b => "boolean " ++ setOff (toString b)
  | int n => showInt n
  | float x =>
    let text := match format with
      | .json => x.compact
      | .toml => x.plain
    "floating point " ++ setOff text
  | str s => "string " ++ Text.quote s
  | list _ => "sequence"
  | map _ => "map"

/-- What some data is, in a word. -/
def typeWord : Data → String
  | null => "none"
  | bool _ => "boolean"
  | int _ => "integer"
  | float _ => "float"
  | str _ => "string"
  | list _ => "array"
  | map [(key, _)] => if key = dateKey then "datetime" else "table"
  | map _ => "table"

/-- A map that is not just a date. -/
def table? (d : Data) : Option (List (String × Data)) :=
  match d with
  | map entries => if d.typeWord = "datetime" then none else some entries
  | _ => none

end Data

namespace Refusal

/-- The text of a refusal. -/
def message (format : Format) : Refusal → String
  | missing key => "missing field " ++ setOff key
  | mistyped found wanted => mismatch "type" (found.shown format) wanted.word
  | outOfRange n wanted => mismatch "value" (Data.showInt n) wanted.word
  | wrongLength length wanted =>
    "invalid length " ++ toString length ++ ", expected " ++ wanted.word
  | unknownWord word known => "unknown variant " ++ setOff word ++ ", expected " ++ oneOf known
  | noLayout found =>
    match format with
    | .json => mismatch "type" (found.shown format) "string or map"
    | .toml => "wanted string or table"
  | layoutKeys count =>
    match format with
    | .json => mismatch "value" "map" "map with a single key"
    | .toml => "wanted exactly 1 element, " ++
        if count = 0 then "found 0 elements" else "more than 1 element"
  | layoutSettings found =>
    match format with
    | .json => mismatch "type" (found.shown format) "unit"
    | .toml =>
      match found with
      | .list _ => "expected empty array"
      | found =>
        if found.table?.isSome then "expected empty table"
        else "expected table, found " ++ found.typeWord
where
  /-- Something else was found than what is wanted. -/
  mismatch (what found wanted : String) : String :=
    "invalid " ++ what ++ ": " ++ found ++ ", expected " ++ wanted

end Refusal

end HealthTree
