import HealthTree.Health
import HealthTree.Json.Writer

/-!
# Health as data

A node is written as a map of its status, its message and its services, in this order; what is
unset or empty is left out. Reading is as forgiving as `Status.read`: what is left out is unset or
empty, entries with other keys do not matter, and the three parts may also stand in a list, as many
of them as there are.

The words that name no status are gathered (`unrecognizedWords`), since a reader warns about each.
-/

namespace HealthTree

mutual
/-- The data of a node. -/
def Health.toData : Health → Data
  | ⟨status, message, services⟩ =>
    .map ((match status with | some s => [("status", Data.str s.word)] | none => []) ++
      (if message.isEmpty then [] else [("message", Data.str message)]) ++
      (if services.isEmpty then [] else [("services", Data.map (servicesToData services))]))
/-- The data of each service under its name. -/
def servicesToData : List (String × Health) → List (String × Data)
  | [] => []
  | (name, h) :: rest => (name, h.toData) :: servicesToData rest
end

/-- **The line a report prints.** -/
def Health.line (h : Health) : String :=
  Json.write h.toData

namespace Health

/-- The status an entry stands for. -/
def statusOfData? : Data → Option (Option Status)
  | .null => some none
  | .str s => some (some (Status.read s))
  | _ => none

mutual
/-- The node some data stands for. -/
def ofData? : Data → Option Health
  | .map entries => ofEntries? entries .blank
  | .list [] => some .blank
  | .list [s] => do return ⟨← statusOfData? s, "", []⟩
  | .list [s, m] => do return ⟨← statusOfData? s, ← m.str?, []⟩
  | .list [s, m, .map entries] => do
    return ⟨← statusOfData? s, ← m.str?, ← servicesOfData? entries []⟩
  | _ => none
/-- A node with the parts that these entries set. -/
def ofEntries? : List (String × Data) → Health → Option Health
  | [], h => some h
  | (key, d) :: rest, h =>
    if key = "status" then do
      ofEntries? rest { h with status := ← statusOfData? d }
    else if key = "message" then do
      ofEntries? rest { h with message := ← d.str? }
    else if key = "services" then
      match d with
      | .map entries => do
        let services ← servicesOfData? entries []
        ofEntries? rest { h with services := services }
      | _ => none
    else ofEntries? rest h
/-- The services some entries stand for, put into those found before. -/
def servicesOfData? : List (String × Data) → Services → Option Services
  | [], found => some found
  | (name, d) :: rest, found => do
    let h ← ofData? d
    servicesOfData? rest (Services.insert name h found)
end

/-- The words of an entry that name no status. -/
def unrecognizedStatus (d : Data) : List String :=
  match d with
  | .str s => (Status.unrecognized? s).toList
  | _ => []

mutual
/-- The status words in the data of a node that name no status. -/
def unrecognizedWords : Data → List String
  | .map entries => unrecognizedIn entries
  | .list [] => []
  | .list [s] => unrecognizedStatus s
  | .list [s, _] => unrecognizedStatus s
  | .list [s, _, .map entries] => unrecognizedStatus s ++ unrecognizedBelow entries
  | _ => []
/-- Those in the entries of one node. -/
def unrecognizedIn : List (String × Data) → List String
  | [] => []
  | (key, d) :: rest =>
    (if key = "status" then unrecognizedStatus d
     else if key = "services" then
       match d with
       | .map entries => unrecognizedBelow entries
       | _ => []
     else []) ++ unrecognizedIn rest
/-- Those in the data of several nodes. -/
def unrecognizedBelow : List (String × Data) → List String
  | [] => []
  | (_, d) :: rest => unrecognizedWords d ++ unrecognizedBelow rest
end

end Health

end HealthTree
