import HealthTree.Data

/-!
# Tables under assembly

A TOML text sets keys one at a time, and a table may come into being on the way to another one:
through a dotted key, or through a header for a table below it. Such a table is **implicit** until a
header names it, and **dotted** if a dotted key made it. The flags decide what may be added later:

- a dotted key goes on only through implicit tables and ends in a table that dotted keys made, while
  a plain key stands in a table that was not made by them;
- a header may name an implicit table that no dotted key made, once;
- a key is set once.
-/

namespace HealthTree.Toml

mutual
/-- What stands under a key. -/
inductive Node where
  | value (d : Data)
  | table (t : Table)
  /-- The tables of a list that headers make. -/
  | tables (ts : List Table)
/-- A table under assembly. -/
inductive Table where
  | mk (implicit dotted : Bool) (entries : List (String × Node))
end

namespace Table

/-- The table came into being on the way to another one. -/
def implicit : Table → Bool
  | mk i _ _ => i

/-- A dotted key made the table. -/
def dotted : Table → Bool
  | mk _ d _ => d

/-- The keys and what stands under them, in the order in which they were set. -/
def entries : Table → List (String × Node)
  | mk _ _ es => es

/-- A table that a header or a brace opens. -/
def empty : Table := mk false false []

instance : Inhabited Table := ⟨empty⟩

/-- What stands under a key. -/
def get? (t : Table) (key : String) : Option Node :=
  t.entries.lookup key

/-- A key put last. -/
def add (t : Table) (key : String) (n : Node) : Table :=
  mk t.implicit t.dotted (t.entries ++ [(key, n)])

/-- What stands under a key that is set, replaced in its place. -/
def replace (t : Table) (key : String) (n : Node) : Table :=
  mk t.implicit t.dotted (t.entries.map fun e => if e.1 == key then (key, n) else e)

/-- The table without a key. -/
def remove (t : Table) (key : String) : Table :=
  mk t.implicit t.dotted (t.entries.filter (·.1 != key))

/-- The table named by a header. -/
def named (t : Table) : Table :=
  mk false false t.entries

/-- A change made in the last of a list of tables. -/
def onLast (f : Table → Option Table) : List Table → Option (List Table)
  | [] => none
  | [t] => (f t).map ([·])
  | t :: rest => (onLast f rest).map (t :: ·)

/-- **A change made at the end of a path**, whose missing tables come into being as implicit
ones. -/
def at_ (byDots : Bool) (f : Table → Option Table) : List String → Table → Option Table
  | [], t => f t
  | key :: path, t =>
    match t.get? key with
    | none => (at_ byDots f path (mk true byDots [])).map fun below => t.add key (.table below)
    | some (.value _) => none
    | some (.table below) =>
      if byDots && !below.implicit then none
      else (at_ byDots f path below).map fun below => t.replace key (.table below)
    | some (.tables ts) => (onLast (at_ byDots f path) ts).map fun ts => t.replace key (.tables ts)

/-- **Set a key**, given as the parts before its last one and that one. -/
def setKey (t : Table) (path : List String) (key : String) (d : Data) : Option Table :=
  t.at_ true (fun t =>
    if t.dotted == path.isEmpty || (t.get? key).isSome then none else some (t.add key (.value d)))
    path

end Table

mutual
/-- The data of what stands under a key. -/
def Node.toData : Node → Data
  | .value d => d
  | .table t => t.toData
  | .tables ts => .list (tablesToData ts)
/-- The data of a table. -/
def Table.toData : Table → Data
  | .mk _ _ es => .map (entriesToData es)
/-- The data of the tables of a list. -/
def tablesToData : List Table → List Data
  | [] => []
  | t :: rest => t.toData :: tablesToData rest
/-- The data of the entries of a table. -/
def entriesToData : List (String × Node) → List (String × Data)
  | [] => []
  | (key, n) :: rest => (key, n.toData) :: entriesToData rest
end

/-- A text under assembly: the tables that are complete, and the one whose keys are being set. -/
structure Document where
  root : Table := .empty
  current : Table := .empty
  /-- The header of the table whose keys are being set. -/
  header : List String := []
  /-- That header is one of a list of tables. -/
  inList : Bool := false
  deriving Inhabited

namespace Document

/-- A path parted into what is before its last part and that one. -/
def split (path : List String) : List String × String :=
  (path.dropLast, path.getLastD "")

/-- The table whose keys were being set is put in its place. -/
def close (doc : Document) : Option Table :=
  if doc.header.isEmpty then some doc.current
  else
    let (above, key) := split doc.header
    doc.root.at_ false (fun t =>
      match doc.inList, t.get? key with
      | true, some (.tables ts) => some (t.replace key (.tables (ts ++ [doc.current])))
      | true, none => some (t.add key (.tables [doc.current]))
      | false, none => some (t.add key (.table doc.current))
      | _, _ => none) above

/-- A header names a table. -/
def openTable (doc : Document) (path : List String) : Option Document := do
  let root ← doc.close
  let (above, key) := split path
  let found ← lookIn root above
  match found.get? key with
  | none => return ⟨root, .empty, path, false⟩
  | some (.table t) =>
    if t.implicit && !t.dotted then
      return ⟨← root.at_ false (fun parent => some (parent.remove key)) above, t.named, path, false⟩
    else none
  | some _ => none
where
  /-- The table at the end of a path, an empty one if it is not there yet. -/
  lookIn (t : Table) : List String → Option Table
    | [] => some t
    | key :: path =>
      match t.get? key with
      | none => some .empty
      | some (.value _) => none
      | some (.table below) => lookIn below path
      | some (.tables ts) => ts.getLast?.bind (lookIn · path)

/-- A header names the next table of a list. -/
def openListed (doc : Document) (path : List String) : Option Document := do
  let root ← doc.close
  let (above, key) := split path
  let root ← root.at_ false (fun t =>
    match t.get? key with
    | none => some (t.add key (.tables []))
    | some (.tables ts) => some (t.replace key (.tables ts))
    | some _ => none) above
  return ⟨root, .empty, path, true⟩

/-- A key is set in the table named last. -/
def setKey (doc : Document) (path : List String) (key : String) (d : Data) : Option Document := do
  return { doc with current := ← doc.current.setKey path key d }

end Document

end HealthTree.Toml
