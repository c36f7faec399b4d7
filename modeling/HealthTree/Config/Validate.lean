import HealthTree.Config
import HealthTree.Config.Address
import HealthTree.Text.Quoted

/-!
# What is wrong with a configuration

`Config.problems` lists everything that a configuration of the right shape may still have wrong: the
settings in their order, then the tree from the root down, a node before what is below it. A child
whose name a sibling before it has is reported before its own problems.

A node is found by its path from the root (`CheckSpec.node?`), and a problem below a node is one of
the node itself with its path made longer (`Problem.below`).
-/

namespace HealthTree

/-- A step from a node to one right below it. -/
inductive Step where
  /-- To the child of a group with this number. -/
  | child (index : Nat)
  /-- To the check that is refreshed or debounced. -/
  | inner
  deriving DecidableEq, Repr, Inhabited

namespace Step

/-- The step as a message shows it. -/
def text : Step → String
  | child index => ".checks[" ++ toString index ++ "]"
  | inner => ".check"

/-- A place in a tree as a message shows it. -/
def pathText (path : List Step) : String :=
  "tree" ++ String.join (path.map text)

end Step

/-- A setting that has to be positive. -/
inductive PositiveSetting where
  | interval
  | timeout
  deriving DecidableEq, Repr, Inhabited

/-- The key of the setting. -/
def PositiveSetting.key : PositiveSetting → String
  | interval => "interval_secs"
  | timeout => "timeout_secs"

/-- One thing that is wrong with a configuration. -/
inductive Problem where
  | emptyName (path : List Step)
  | duplicateName (parent name : String)
  | zeroInterval (name : String)
  | zeroSetting (setting : PositiveSetting)
  | unknownLogLevel (value : String)
  | invalidMetricsAddress (value : String)
  deriving DecidableEq, Repr, Inhabited

namespace Problem

/-- The problem in words. -/
def message : Problem → String
  | emptyName path => "check at " ++ Step.pathText path ++ " has an empty name"
  | duplicateName parent name => "duplicate check name " ++ Text.quote name ++ " in " ++ parent
  | zeroInterval name => "async check " ++ Text.quote name ++ " must have interval_ms > 0"
  | zeroSetting setting => "report." ++ setting.key ++ " must be > 0"
  | unknownLogLevel value => "unknown log level " ++ Text.quote value
  | invalidMetricsAddress value => "invalid metrics address " ++ Text.quote value

/-- The problem of a node seen from the node above, which is this step away. -/
def below (step : Step) : Problem → Problem
  | emptyName path => emptyName (step :: path)
  | p => p

/-- All problems in words. -/
def allMessages (ps : List Problem) : String :=
  ", ".intercalate (ps.map message)

end Problem

namespace CheckSpec

/-- The check a step leads to. -/
def step? : CheckSpec → Step → Option CheckSpec
  | group _ checks, .child i => checks[i]?
  | cached _ check, .inner => some check
  | debounced _ check, .inner => some check
  | _, _ => none

/-- The check at the end of a path. -/
def node? (c : CheckSpec) : List Step → Option CheckSpec
  | [] => some c
  | step :: path => (c.step? step).bind (·.node? path)

/-- What is wrong with the name of a node. -/
def nameProblems (name : String) : List Problem :=
  if Text.isBlankText name then [.emptyName []] else []

mutual
/-- What is wrong with a tree, seen from its root. -/
def problems : CheckSpec → List Problem
  | group name checks => nameProblems name ++ childProblems name 0 [] checks
  | cached interval check =>
    nameProblems check.name ++ (if interval = 0 then [.zeroInterval check.name] else []) ++
      check.problems.map (.below .inner)
  | debounced _ check => nameProblems check.name ++ check.problems.map (.below .inner)
  | fixed name _ _ => nameProblems name
/-- What is wrong with the children of a group from number `i` on, those before having these
names. -/
def childProblems (parent : String) (i : Nat) (before : List String) :
    List CheckSpec → List Problem
  | [] => []
  | c :: rest =>
    (if c.name ∈ before then [.duplicateName parent c.name] else []) ++
      c.problems.map (.below (.child i)) ++ childProblems parent (i + 1) (c.name :: before) rest
end

end CheckSpec

/-- What is wrong with what a service tells of itself. -/
def Observability.problems (o : Observability) : List Problem :=
  (if (Level.ofName? o.logLevel).isSome then [] else [.unknownLogLevel o.logLevel]) ++
    (if o.metricsEnabled && !Address.isSocketAddress o.metricsAddress then
      [.invalidMetricsAddress o.metricsAddress] else [])

/-- What is wrong with how often a service reports. -/
def Reporting.problems (r : Reporting) : List Problem :=
  (if r.interval = 0 then [.zeroSetting .interval] else []) ++
    (if r.timeout = 0 then [.zeroSetting .timeout] else [])

/-- **Everything that is wrong with a configuration**, in order. -/
def Config.problems (c : Config) : List Problem :=
  c.observability.problems ++ c.reporting.problems ++ c.tree.problems

end HealthTree
