import HealthTree.Check.Blueprint

/-!
# Configurations

What a service is configured with: what it tells of itself, how often it reports, and which checks
its tree is made of (`CheckSpec`). Every setting has a default, and so has the tree: a group without
children, called `root`.

A node that refreshes or debounces another has no name of its own: it goes by the name of the check
inside (`CheckSpec.name`).
-/

namespace HealthTree

/-- How log lines are laid out. -/
inductive LogFormat where
  | pretty
  | json
  deriving DecidableEq, Repr, Inhabited

/-- What a service tells of itself. -/
structure Observability where
  logLevel : String := "info"
  logFormat : LogFormat := .pretty
  metricsEnabled : Bool := false
  metricsAddress : String := "0.0.0.0:9090"
  deriving DecidableEq, Repr, Inhabited

/-- How often the root is checked, and how long that may take, in seconds. -/
structure Reporting where
  interval : UInt64 := 10
  timeout : UInt64 := 5
  deriving DecidableEq, Repr, Inhabited

/-- One node of a configured check tree. -/
inductive CheckSpec where
  | group (name : String) (checks : List CheckSpec)
  /-- A check refreshed in the background, every `interval` milliseconds. -/
  | cached (interval : UInt64) (check : CheckSpec)
  /-- A check of which up to `budget` failures in a row are hidden. -/
  | debounced (budget : UInt32) (check : CheckSpec)
  /-- A check that always answers the same. -/
  | fixed (name : String) (status : Status) (message : String)
  deriving BEq, Repr, Inhabited

namespace CheckSpec

/-- The name a node goes by: its own, or that of the check inside. -/
def name : CheckSpec → String
  | group name _ => name
  | cached _ check => check.name
  | debounced _ check => check.name
  | fixed name _ _ => name

mutual
/-- The blueprint of a configured tree. -/
def blueprint : CheckSpec → Blueprint
  | group name checks => .group name (blueprints checks)
  | cached interval check => .cached interval.toNat check.blueprint
  | debounced budget check => .debounced budget check.blueprint
  | fixed name status message => .fixed name status message
/-- The blueprints of several trees. -/
def blueprints : List CheckSpec → List Blueprint
  | [] => []
  | c :: rest => c.blueprint :: blueprints rest
end

/-- The check tree a configured tree stands for, before the first call. -/
def tree? (c : CheckSpec) : Option CheckTree :=
  CheckTree.ofBlueprint? c.blueprint

/-- The tree of a service that is not told which checks to make. -/
def bare : CheckSpec := .group "root" []

end CheckSpec

/-- What a service is configured with. -/
structure Config where
  observability : Observability := {}
  reporting : Reporting := {}
  tree : CheckSpec := .bare
  deriving BEq, Repr, Inhabited

end HealthTree
