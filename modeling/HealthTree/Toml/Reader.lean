import HealthTree.Toml.Scan
import HealthTree.Toml.Table

/-!
# TOML texts read into data trees

`Toml.parse` gives the data of a TOML 1.0 document, its keys in the order in which they were set, or
`none` for a text that is no such document. Whole numbers have to fit into 64 bits with sign, and
keys, lists and braces may be nested `maxLevels` deep.
-/

namespace HealthTree.Toml

/-- The items of a list, from after its opening bracket or an item. -/
def listItems (item : List Char → Option (Data × List Char)) :
    Nat → Bool → List Char → Option (List Data × List Char)
  | 0, _, _ => none
  | fuel + 1, first, cs => do
    let cs ← skipLines (cs.length + 1) cs
    match cs with
    | ']' :: rest => return ([], rest)
    | c :: rest =>
      if first then
        let (d, rest) ← item (c :: rest)
        let (ds, rest) ← listItems item fuel false rest
        return (d :: ds, rest)
      else if c = ',' then
        match ← skipLines (rest.length + 1) rest with
        | ']' :: rest => return ([], rest)
        | rest =>
          let (d, rest) ← item rest
          let (ds, rest) ← listItems item fuel false rest
          return (d :: ds, rest)
      else none
    | [] => none

/-- The entries of a table in braces, from after an entry or the opening brace. -/
def braceEntries (item : List Char → Option (Data × List Char)) :
    Nat → Bool → Table → List Char → Option (Table × List Char)
  | 0, _, _, _ => none
  | fuel + 1, first, t, cs =>
    match skipSpaces cs with
    | '\x7d' :: rest => some (t, rest)
    | cs => do
      let cs ← if first then some cs else expect? ',' cs
      let (parts, cs) ← key? cs
      let cs ← expect? '=' cs
      let (d, cs) ← item (skipSpaces cs)
      let (path, key) := Document.split (parts.1 :: parts.2)
      braceEntries item fuel false (← t.setKey path key d) cs

/-- **A value**, with so many levels of nesting left. -/
def value? : Nat → List Char → Option (Data × List Char)
  | levels, cs =>
    match cs with
    | '"' :: _ => (string? cs).map fun (s, rest) => (.str s, rest)
    | '\'' :: _ => (string? cs).map fun (s, rest) => (.str s, rest)
    | '[' :: rest =>
      match levels with
      | 0 => none
      | levels + 1 => do
        let (ds, rest) ← listItems (value? levels) (rest.length + 1) true rest
        return (.list ds, rest)
    | '\x7b' :: rest =>
      match levels with
      | 0 => none
      | levels + 1 => do
        let (t, rest) ← braceEntries (value? levels) (rest.length + 1) true .empty rest
        return (t.toData, rest)
    | 't' :: 'r' :: 'u' :: 'e' :: rest => some (.bool true, rest)
    | 'f' :: 'a' :: 'l' :: 's' :: 'e' :: rest => some (.bool false, rest)
    | cs => dateOrNumber? cs

/-- A key and its value, up to the end of the line. -/
def keyLine? (doc : Document) (cs : List Char) : Option (Document × List Char) := do
  let (parts, cs) ← key? cs
  let cs ← expect? '=' cs
  let (d, cs) ← value? maxLevels (skipSpaces cs)
  let cs ← lineEnd? cs
  let (path, key) := Document.split (parts.1 :: parts.2)
  return (← doc.setKey path key d, cs)

/-- A header, from after its first bracket up to the end of the line. -/
def header? (doc : Document) : List Char → Option (Document × List Char)
  | '[' :: cs => do
    let (parts, cs) ← key? cs
    let cs ← lineEnd? (← expect? ']' (← expect? ']' cs))
    return (← doc.openListed (parts.1 :: parts.2), cs)
  | cs => do
    let (parts, cs) ← key? cs
    let cs ← lineEnd? (← expect? ']' cs)
    return (← doc.openTable (parts.1 :: parts.2), cs)

/-- The lines of a text, one after the other. The first argument bounds how many there can be. -/
def lines? : Nat → Document → List Char → Option Document
  | 0, _, _ => none
  | fuel + 1, doc, cs =>
    match skipSpaces cs with
    | [] => some doc
    | '#' :: rest => (lineEnd? ('#' :: rest)).bind (lines? fuel doc)
    | '[' :: rest => do
      let (doc, rest) ← header? doc rest
      lines? fuel doc rest
    | c :: rest =>
      if c = '\n' || c = '\r' then (newline? (c :: rest)).bind (lines? fuel doc)
      else do
        let (doc, rest) ← keyLine? doc (c :: rest)
        lines? fuel doc rest

/-- **The data of a TOML document.** A byte order mark in front is no part of it. -/
def parse (text : String) : Option Data := do
  let cs := match text.toList with
    | '\ufeff' :: rest => rest
    | cs => cs
  let doc ← lines? (cs.length + 1) {} cs
  return (← doc.close).toData

end HealthTree.Toml
