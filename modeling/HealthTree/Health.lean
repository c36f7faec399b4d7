import HealthTree.Status

/-!
# Health: one node of a report

A `Health` is what a check says of itself: a status, which a composite node may leave unset; a
message, empty when there is nothing to say; and the health of its services by name.

**Derivation.** A composite node without a status takes it from its services: `overall` looks at
how many of them are unhealthy-class, and if none is, at whether one is degraded. A service whose
own status is unset and which has services of its own is resolved first; one that has none counts
as unhealthy-class. `resolve` fills in the unset statuses of a node, `effective` only reads off the
status the node comes to.

**Services are kept in the order of their names**, by code point, and a name stands once
(`insert`). `Ordered` says so of a node and of everything below it.
-/

namespace HealthTree

/-- What a check says of itself. -/
structure Health where
  /-- Unset on a composite node that takes its status from its services. -/
  status : Option Status
  /-- Diagnostic text, empty when there is nothing to say. -/
  message : String
  /-- The health of each service, in the order of the names. -/
  services : List (String × Health)
  deriving Inhabited

/-- Services by name. -/
abbrev Services := List (String × Health)

namespace Services

/-- The services with the one called `name` replaced or put in its place in the order. -/
def insert (name : String) (health : Health) : Services → Services
  | [] => [(name, health)]
  | (k, h) :: rest =>
    if name < k then (name, health) :: (k, h) :: rest
    else if name = k then (name, health) :: rest
    else (k, h) :: insert name health rest

/-- The service called `name`. -/
def get? (name : String) (services : Services) : Option Health :=
  services.lookup name

/-- There is a service called `name`. -/
def has (name : String) (services : Services) : Bool :=
  services.any (·.1 == name)

/-- The services of a list of pairs; of two with one name the later stands. -/
def ofList (pairs : List (String × Health)) : Services :=
  pairs.foldl (fun services p => services.insert p.1 p.2) []

/-- The names, in their order. -/
def names (services : Services) : List String :=
  services.map (·.1)

end Services

mutual
/-- The same node in every part. -/
def Health.same : Health → Health → Bool
  | ⟨s, m, cs⟩, ⟨s', m', cs'⟩ => s == s' && m == m' && sameServices cs cs'
/-- The same services under the same names. -/
def sameServices : List (String × Health) → List (String × Health) → Bool
  | [], [] => true
  | (k, h) :: r, (k', h') :: r' => k == k' && h.same h' && sameServices r r'
  | _, _ => false
end

instance : BEq Health := ⟨Health.same⟩

namespace Health

/-- Nothing is said: no status, no message, no services. -/
def blank : Health := ⟨none, "", []⟩

/-- A node with this status and message, and no services. -/
def leaf (status : Status) (message : String) : Health := ⟨some status, message, []⟩

/-- Healthy, with nothing to add. -/
def healthy : Health := leaf .healthy ""

/-- Degraded, for this reason. -/
def degraded (message : String) : Health := leaf .degraded message

/-- Unhealthy, for this reason. -/
def unhealthy (message : String) : Health := leaf .unhealthy message

/-- The node with its status set. -/
def withStatus (h : Health) (status : Status) : Health := { h with status := some status }

/-- The node with one service put in. -/
def withService (h : Health) (name : String) (service : Health) : Health :=
  { h with services := Services.insert name service h.services }

end Health

/-! ## Deriving a status from services -/

namespace Status

/-- The status is unhealthy or partially unhealthy, or unset. -/
def unhealthyClass : Option Status → Bool
  | some healthy | some degraded => false
  | _ => true

/-- **The status of a node whose services have these statuses**: healthy without services; unhealthy
if all are unhealthy-class, partially unhealthy if some are; else degraded if one is. -/
def overall (statuses : List (Option Status)) : Status :=
  let bad := statuses.countP unhealthyClass
  if statuses.isEmpty then healthy
  else if bad = statuses.length then unhealthy
  else if 0 < bad then partiallyUnhealthy
  else if statuses.contains (some degraded) then degraded
  else healthy

end Status

mutual
/-- **Fill in an unset status from the services**, bottom-up. A node with a status, or without
services, is kept as it is. -/
def Health.resolve : Health → Health
  | ⟨none, m, c :: cs⟩ =>
    let services := resolveServices (c :: cs)
    ⟨some (Status.overall (services.map (·.2.status))), m, services⟩
  | ⟨none, m, []⟩ => ⟨none, m, []⟩
  | ⟨some s, m, cs⟩ => ⟨some s, m, cs⟩
/-- Each service resolved. -/
def resolveServices : List (String × Health) → List (String × Health)
  | [] => []
  | (k, h) :: rest => (k, h.resolve) :: resolveServices rest
end

namespace Services

/-- The status of a node with these services. -/
def overall (services : Services) : Status :=
  Status.overall ((resolveServices services).map (·.2.status))

end Services

namespace Health

/-- **The status a node comes to.** A node without status and services is unhealthy. -/
def effective (h : Health) : Status :=
  match h.status with
  | some s => s
  | none => if h.services.isEmpty then .unhealthy else Services.overall h.services

end Health

/-! ## Order of the names -/

mutual
/-- At every node the names of the services stand in strictly ascending order. -/
def Health.Ordered : Health → Prop
  | ⟨_, _, cs⟩ => List.Pairwise (· < ·) (cs.map (·.1)) ∧ orderedServices cs
/-- Every one of the services is ordered. -/
def orderedServices : List (String × Health) → Prop
  | [] => True
  | (_, h) :: rest => h.Ordered ∧ orderedServices rest
end

mutual
/-- How many levels of services stand below a node. -/
def Health.depth : Health → Nat
  | ⟨_, _, cs⟩ => depthServices cs
/-- One more than the deepest of the services, or zero. -/
def depthServices : List (String × Health) → Nat
  | [] => 0
  | (_, h) :: rest => max (h.depth + 1) (depthServices rest)
end

end HealthTree
