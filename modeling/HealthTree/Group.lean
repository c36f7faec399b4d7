import HealthTree.Event
import HealthTree.Outcome

/-!
# Groups: the outcomes of several children made one

While the children of a group answer, their outcomes are judged and gathered under their names
(`Gathered.add`). A child that passes with a status that does not, or with none, has failed; a child
that failed with a status that passes, or with none, is unhealthy (`Outcome.judged`). So every entry
has a status, and an entry is unhealthy-class exactly if its child failed.

When the scope of the group ends first, the children that have not answered are entered with the
cause (`Gathered.interrupt`), and the cause is what the group fails with. Of two children with one
name the later answer stands, and both are counted.
-/

namespace HealthTree

namespace Outcome

/-- **What a group makes of a child's outcome.** -/
def judged (name : String) : Outcome → Outcome
  | .error f => .error f.normalized
  | .ok health =>
    let h := health.resolve
    match h.status with
    | some s =>
      if s.passing then .ok h
      else .error ⟨h, .probe (if h.message.isEmpty then name ++ " is " ++ s.word else h.message)⟩
    | none =>
      let words := name ++ " reported no status"
      .error ⟨⟨some .unhealthy, if h.message.isEmpty then words else h.message, h.services⟩,
        .probe words⟩

end Outcome

/-- What the children of a group have answered so far. -/
structure Gathered where
  services : Services := []
  failed : Nat := 0
  /-- The fault entered last. -/
  last : Option Fault := none
  deriving Inhabited

namespace Gathered

/-- Enter an outcome that was judged. -/
def enter (g : Gathered) (name : String) : Outcome → Gathered
  | .ok h => { g with services := g.services.insert name h }
  | .error f => ⟨g.services.insert name f.health, g.failed + 1, some f.fault⟩

/-- **Gather the outcome of a child.** -/
def add (g : Gathered) (name : String) (o : Outcome) : Gathered :=
  g.enter name (o.judged name)

/-- What is told when the outcome of a child is gathered. -/
def eventsOf (name : String) (o : Outcome) : List Event :=
  match o.judged name with
  | .ok _ => []
  | .error f => [.childFailed name f.fault]

/-- A child without an answer, entered with the cause unless its name has an entry. -/
def addMissing (cause : Fault) (g : Gathered) (name : String) : Gathered :=
  if g.services.has name then g else g.add name (.error (.ofFault cause))

/-- What is told of the children without an answer, in their order. -/
def missingEvents (cause : Fault) (g : Gathered) : List String → List Event
  | [] => []
  | name :: rest =>
    (if g.services.has name then [] else eventsOf name (.error (.ofFault cause))) ++
      missingEvents cause (g.addMissing cause name) rest

/-- **The scope has ended**: every name without an entry is entered with the cause. -/
def interrupt (g : Gathered) (cause : Fault) (names : List String) : Gathered :=
  { names.foldl (addMissing cause) g with last := some cause }

/-- **The outcome of a group** of `total` children that is not waiting for any more of them. -/
def outcome (g : Gathered) (total : Nat) : Outcome :=
  let services := resolveServices g.services
  let health : Health := ⟨some (Services.overall g.services), "", services⟩
  match g.last with
  | none => .ok health
  | some last => .error ⟨health, .aggregate g.failed total last⟩

end Gathered

end HealthTree
