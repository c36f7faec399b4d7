import HealthTree.Health
import HealthTree.Json.Scan

/-!
# Health read from JSON text

The text is read from left to right and the first problem decides. A node is a map of its parts or a
list of them (`Health.Codec` says which parts there are); a part given twice is a mismatch, an entry
with another key is passed over, and of two services with one name the later stands.

**Nesting is bounded.** Maps and lists that are read may stand in one another `maxLevels` deep,
which leaves room for `maxLevels / 2` levels of services; those that are passed over are not counted.
-/

namespace HealthTree

namespace Json

/-- What is wrong with a value of another kind than the one that is wanted. -/
def mistyped (cs : List Char) : Problem :=
  let after (r : Except Problem (List Char)) : Problem :=
    match r with
    | .ok _ => .mismatch
    | .error p => p
  match cs with
  | [] => .truncated
  | 'n' :: rest => after (literal "ull".toList rest)
  | 't' :: rest => after (literal "rue".toList rest)
  | 'f' :: rest => after (literal "alse".toList rest)
  | '"' :: rest => after ((string rest).map (·.2))
  | '[' :: _ => .mismatch
  | '\x7b' :: _ => .mismatch
  | c :: rest => if opensNumber c then after ((number (c :: rest)).map (·.2)) else .malformed

/-- A string, blanks before it skipped. -/
def text (cs : List Char) : Except Problem (String × List Char) :=
  match skipBlanks cs with
  | '"' :: rest => do
    let (s, rest) ← string rest
    return (String.ofList s, rest)
  | cs => .error (mistyped cs)

/-- **The entries of a map, one after the other**: `entry` is given the state so far, a key and the
characters after it, and takes the colon and the value. -/
def foldEntries {σ : Type} (entry : σ → String → List Char → Except Problem (σ × List Char)) :
    Nat → Bool → σ → List Char → Except Problem (σ × List Char)
  | 0, _, _, _ => .error .truncated
  | fuel + 1, first, state, cs =>
    match skipBlanks cs with
    | [] => .error .truncated
    | '\x7d' :: rest => .ok (state, rest)
    | cs => do
      let cs ← atKey first cs
      let (key, cs) ← string (cs.drop 1)
      let (state, cs) ← entry state (String.ofList key) cs
      foldEntries entry fuel false state cs

/-- The characters of the next item of a list, or `none` if there is none. -/
def nextItem (first : Bool) (cs : List Char) : Except Problem (Option (List Char)) :=
  match skipBlanks cs with
  | [] => .error .truncated
  | ']' :: _ => .ok none
  | c :: rest =>
    if first then .ok (some (c :: rest))
    else if c = ',' then
      match skipBlanks rest with
      | [] => .error .truncated
      | ']' :: _ => .error .malformed
      | rest => .ok (some rest)
    else .error .malformed

/-- The characters after a list that has to end here. -/
def endList (cs : List Char) : Except Problem (List Char) :=
  match skipBlanks cs with
  | [] => .error .truncated
  | ']' :: rest => .ok rest
  | _ => .error .malformed

end Json

namespace Health

open Json

/-- How deep the maps and lists of a report may be nested. -/
def maxLevels : Nat := 127

/-- The status part: null, or a word. -/
def readStatus (cs : List Char) : Except Problem (Option Status × List Char) :=
  match skipBlanks cs with
  | 'n' :: rest => do return (none, ← literal "ull".toList rest)
  | cs => do
    let (s, rest) ← text cs
    return (some (Status.read s), rest)

/-- The parts of a node found so far; an outer `none` is a part not given yet. -/
structure Parts where
  status : Option (Option Status) := none
  message : Option String := none
  services : Option Services := none

/-- The node these parts make. -/
def Parts.health (p : Parts) : Health :=
  ⟨p.status.getD none, p.message.getD "", p.services.getD []⟩

/-- The part under a key, put to those found before; `services` reads the services of a node. -/
def readPart (services : List Char → Except Problem (Services × List Char)) (p : Parts)
    (key : String) (cs : List Char) : Except Problem (Parts × List Char) :=
  if key = "status" then
    if p.status.isSome then .error .mismatch
    else do
      let (s, cs) ← readStatus (← afterColon cs)
      return ({ p with status := some s }, cs)
  else if key = "message" then
    if p.message.isSome then .error .mismatch
    else do
      let (m, cs) ← text (← afterColon cs)
      return ({ p with message := some m }, cs)
  else if key = "services" then
    if p.services.isSome then .error .mismatch
    else do
      let (found, cs) ← services (← afterColon cs)
      return ({ p with services := some found }, cs)
  else do
    let cs ← afterColon cs
    return (p, ← skipValue (cs.length + 1) cs)

/-- The service under a name, put to those found before; `node` reads a node. -/
def readService (node : List Char → Except Problem (Health × List Char)) (found : Services)
    (name : String) (cs : List Char) : Except Problem (Services × List Char) := do
  let (h, cs) ← node (← afterColon cs)
  return (Services.insert name h found, cs)

mutual
/-- A node, with so many levels of nesting left. -/
def read : Nat → List Char → Except Problem (Health × List Char)
  | 0, cs =>
    match skipBlanks cs with
    | '\x7b' :: _ => .error .malformed
    | '[' :: _ => .error .malformed
    | cs => .error (mistyped cs)
  | levels + 1, cs =>
    match skipBlanks cs with
    | '\x7b' :: rest => do
      let (p, rest) ← foldEntries (readPart (readServices levels)) (rest.length + 1) true {} rest
      return (p.health, rest)
    | '[' :: rest => do
      let some cs ← nextItem true rest | return (.blank, ← endList rest)
      let (s, rest) ← readStatus cs
      let some cs ← nextItem false rest | return (⟨s, "", []⟩, ← endList rest)
      let (m, rest) ← text cs
      let some cs ← nextItem false rest | return (⟨s, m, []⟩, ← endList rest)
      let (services, rest) ← readServices levels cs
      return (⟨s, m, services⟩, ← endList rest)
    | cs => .error (mistyped cs)
/-- The services of a node, with so many levels of nesting left. -/
def readServices : Nat → List Char → Except Problem (Services × List Char)
  | 0, cs =>
    match skipBlanks cs with
    | '\x7b' :: _ => .error .malformed
    | cs => .error (mistyped cs)
  | levels + 1, cs =>
    match skipBlanks cs with
    | '\x7b' :: rest => foldEntries (readService (read levels)) (rest.length + 1) true [] rest
    | cs => .error (mistyped cs)
end

/-- **The node a whole JSON text stands for.** -/
def parse (text : String) : Except Problem Health := do
  let (h, rest) ← read maxLevels text.toList
  if (skipBlanks rest).isEmpty then return h else .error .malformed

end Health

end HealthTree
