import HealthTree.Json.Scan

/-!
# JSON texts read into data trees

The entries of a map come in the order of their keys, and of two with one key the later stands.
-/

namespace HealthTree.Json

mutual
/-- **A value.** The first argument bounds how many values there can be; the number of characters
is enough. -/
def value : Nat → List Char → Except Problem (Data × List Char)
  | 0, _ => .error .truncated
  | fuel + 1, cs =>
    match skipBlanks cs with
    | [] => .error .truncated
    | 'n' :: rest => do return (.null, ← literal "ull".toList rest)
    | 't' :: rest => do return (.bool true, ← literal "rue".toList rest)
    | 'f' :: rest => do return (.bool false, ← literal "alse".toList rest)
    | '"' :: rest => do
      let (s, rest) ← string rest
      return (.str (String.ofList s), rest)
    | '[' :: rest => do
      let (items, rest) ← items fuel true rest
      return (.list items, rest)
    | '\x7b' :: rest => do
      let (entries, rest) ← entries fuel true [] rest
      return (.map entries, rest)
    | c :: rest => if opensNumber c then number (c :: rest) else .error .malformed
/-- The items of a list, from after its opening bracket or an item. -/
def items : Nat → Bool → List Char → Except Problem (List Data × List Char)
  | 0, _, _ => .error .truncated
  | fuel + 1, first, cs =>
    match skipBlanks cs with
    | [] => .error .truncated
    | ']' :: rest => .ok ([], rest)
    | c :: rest =>
      if !first && c != ',' then .error .malformed
      else do
        let (item, rest) ← value fuel (if first then c :: rest else rest)
        let (more, rest) ← items fuel false rest
        return (item :: more, rest)
/-- The entries of a map, from after its opening brace or an entry. -/
def entries : Nat → Bool → List (String × Data) → List Char →
    Except Problem (List (String × Data) × List Char)
  | 0, _, _, _ => .error .truncated
  | fuel + 1, first, found, cs =>
    match skipBlanks cs with
    | [] => .error .truncated
    | '\x7d' :: rest => .ok (found, rest)
    | cs => do
      let cs ← atKey first cs
      let (key, cs) ← string (cs.drop 1)
      let cs ← afterColon cs
      let (item, cs) ← value fuel cs
      entries fuel false (Data.putSorted (String.ofList key) item found) cs
end

/-- **The data tree of a whole JSON text.** -/
def parse (text : String) : Except Problem Data := do
  let cs := text.toList
  let (d, rest) ← value (cs.length + 1) cs
  if (skipBlanks rest).isEmpty then return d else .error .malformed

end HealthTree.Json
