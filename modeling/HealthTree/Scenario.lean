import HealthTree.Check.Blueprint
import HealthTree.Machine

/-!
# Scenarios: a check tree put through its paces

A scenario plays commands, one after the other, against a check tree under the machine's clock:
calls, refreshes, loops, scopes, and all of these side by side. A command that takes time lets time
pass until it is over (`Session.play`); one that is set aside goes on beside the commands after it
and is joined later. After each command everything due at the present instant is run to its end.

Scopes and commands set aside go by names of the scenario's own. A command that names no scope runs
under a fresh one.
-/

namespace HealthTree

namespace Scenario

/-- The scope a command runs under. -/
structure Under where
  /-- A scope of the scenario; without one, a fresh one. -/
  name : Option String := none
  /-- The command's own timeout. -/
  timeout : Option Nat := none
  deriving Inhabited, DecidableEq, Repr

/-- Which check is called. -/
inductive Target where
  | root
  | cache (slot : Nat)
  | label (label : String)
  deriving Inhabited, DecidableEq, Repr

/-- What a scenario does next. -/
inductive Command where
  | check (target : Target) (under : Under)
  | start (slot : Nat) (under : Under)
  | force (slot : Nat) (under : Under)
  | stop (slot : Nat)
  | startAll (under : Under)
  | stopAll
  | state (slot : Nat)
  | advance (ms : Nat)
  /-- Derive a scope called `name`. -/
  | derive (name : String) (source : Option String) (timeout : Option Nat)
  | scopeState (under : Under)
  | watch (under : Under) (limit : Nat)
  | work (under : Under) (length : Nat)
  | cancel (under : Under)
  /-- Cancel the scope that the shutdown owns. -/
  | trigger
  | triggered
  | calls
  | metrics
  | events
  /-- Set a command aside under a name. -/
  | spawn (name : String) (command : Command)
  | join (name : String)
  | abort (name : String)
  deriving Inhabited

/-- What a command answers. -/
inductive Answer where
  | reply (r : Reply)
  | state (name : String) (interval : Nat) (running : Bool) (state : Option Snapshot)
  | scopeState (cause : Option Fault) (deadline : Option Nat)
  | triggered (yes : Bool)
  | calls (counts : List (String × Calls))
  | metrics (m : Metrics)
  | events (es : List Event)
  | done
  /-- A command set aside has answered, at this instant. -/
  | joined (finished : Nat) (answer : Answer)
  /-- The command names something that is not there, or never ends. -/
  | invalid
  deriving Inhabited

/-- A command that was set aside: a job, or an answer it gave at once. -/
inductive Aside where
  | job (id : JobId)
  | answered (finished : Nat) (answer : Answer)
  deriving Inhabited

/-- A scenario under way. -/
structure Session where
  machine : Machine
  root : Option Check
  labels : List (String × Check)
  /-- The scope the shutdown owns. -/
  shutdown : ScopeId
  scopes : List (String × ScopeId)
  asides : List (String × Aside)
  deriving Inhabited

namespace Session

/-- A scenario with this tree, or without one, before its first command. Events that were told
before it began come first. -/
def ofTree (tree : Option CheckTree) (before : List Event) : Session :=
  let world := (tree.map CheckTree.world).getD {}
  let (shutdown, scopes) := world.scopes.background
  let world := { world with scopes := scopes, events := world.events ++ before.reverse }
  { machine := { world := world }
    root := tree.map (·.root)
    labels := (tree.map (·.labels)).getD []
    shutdown := shutdown
    scopes := []
    asides := [] }

/-- The session with its forest of scopes replaced. -/
def withScopes (s : Session) (scopes : Scopes) : Session :=
  { s with machine := { s.machine with world := { s.machine.world with scopes := scopes } } }

/-- The name of the scope that the shutdown hands out. -/
def shutdownName : String := "shutdown"

/-- A scope by its name. The shutdown hands out a new one each time. -/
def scopeNamed? (s : Session) (name : Option String) : Option (ScopeId × Session) :=
  let scopes := s.machine.world.scopes
  match name with
  | none =>
    let (id, scopes) := scopes.background
    some (id, s.withScopes scopes)
  | some name =>
    match s.scopes.lookup name with
    | some id => some (id, s)
    | none =>
      if name = shutdownName then
        let (id, scopes) := scopes.withCancel s.shutdown
        some (id, s.withScopes scopes)
      else none

/-- The scope a command runs under. -/
def scope? (s : Session) (under : Under) : Option (ScopeId × Session) := do
  let (id, s) ← s.scopeNamed? under.name
  match under.timeout with
  | none => return (id, s)
  | some ms =>
    let (id, scopes) := s.machine.world.scopes.withTimeout id s.machine.now ms
    return (id, s.withScopes scopes)

/-- The check a target means. -/
def target? (s : Session) : Target → Option Check
  | .root => s.root
  | .cache slot => (s.machine.world.cache? slot).map fun c => .cached slot c.interval c.inner
  | .label label => s.labels.lookup label

/-- The job that a command is, if it is one. -/
def job? (s : Session) : Command → Option (Job × Session)
  | .check target under => do
    let check ← s.target? target
    let (scope, s) ← s.scope? under
    return (.call check.name scope (.fresh check), s)
  | .start slot under => do
    let (scope, s) ← s.scope? under
    return (.refresh slot scope (.start []) .arriving, s)
  | .force slot under => do
    let (scope, s) ← s.scope? under
    return (.refresh slot scope .force .arriving, s)
  | .startAll under => do
    let (scope, s) ← s.scope? under
    match List.range s.machine.world.caches.length with
    | [] => none
    | slot :: rest => return (.refresh slot scope (.start rest) .arriving, s)
  | .watch under limit => do
    let (scope, s) ← s.scope? under
    return (.watch scope (s.machine.now + limit), s)
  | .work under length => do
    let (scope, s) ← s.scope? under
    return (.work scope (s.machine.now + length), s)
  | .advance ms => some (.sleep (s.machine.now + ms), s)
  | _ => none

/-- Let time pass until a job is over. -/
def finish (s : Session) (id : JobId) : Option (Nat × Reply) × Session :=
  let m := s.machine.await id s.machine.horizon
  (m.result? id, { s with machine := m })

/-- The answer of a command that is over at once. -/
def instant (s : Session) : Command → Answer × Session
  | .startAll _ => (.reply .started, s)
  | .stop slot => (.done, { s with machine := s.machine.stop slot })
  | .stopAll => (.done, { s with
      machine := (List.range s.machine.world.caches.length).foldl Machine.stop s.machine })
  | .state slot =>
    match s.machine.world.cache? slot with
    | some c => (.state c.name c.interval (s.machine.world.loopRuns c) c.state, s)
    | none => (.invalid, s)
  | .derive name source timeout =>
    match s.scopeNamed? source with
    | some (parent, s) =>
      let scopes := s.machine.world.scopes
      let (id, scopes) := match timeout with
        | some ms => scopes.withTimeout parent s.machine.now ms
        | none => scopes.withCancel parent
      (.done, { s.withScopes scopes with scopes := (name, id) :: s.scopes })
    | none => (.invalid, s)
  | .scopeState under =>
    match s.scope? under with
    | some (id, s) =>
      (.scopeState (s.machine.world.cause? id) (s.machine.world.scopes.deadline? id), s)
    | none => (.invalid, s)
  | .cancel under =>
    match s.scope? under with
    | some (id, s) => (.done, { s with machine := s.machine.cancel id })
    | none => (.invalid, s)
  | .trigger =>
    let s := { s with machine := s.machine.cancel s.shutdown }
    (.triggered true, s)
  | .triggered => (.triggered (s.machine.world.cause? s.shutdown).isSome, s)
  | .calls => (.calls s.machine.world.calls, s)
  | .metrics => (.metrics s.machine.world.metrics, s)
  | .events => (.events s.machine.world.events.reverse, { s with
      machine := { s.machine with world := { s.machine.world with events := [] } } })
  | .abort name =>
    match s.asides.lookup name with
    | some (.job id) => (.done, { s with machine := s.machine.abort id })
    | some (.answered _ _) => (.done, s)
    | none => (.invalid, s)
  | _ => (.invalid, s)

/-- Set a command aside: it begins after this. -/
def setAside (s : Session) (name : String) (c : Command) : Answer × Session :=
  match s.job? c with
  | some (job, s) =>
    let (id, m) := s.machine.submit job
    (.done, { s with machine := m, asides := (name, .job id) :: s.asides })
  | none =>
    let (answer, s) := s.instant c
    (.done, { s with asides := (name, .answered s.machine.now answer) :: s.asides })

/-- Let time pass until a command set aside has answered. -/
def rejoin (s : Session) (name : String) : Answer × Session :=
  match s.asides.lookup name with
  | some (.job id) =>
    match s.finish id with
    | (some (_, .aborted), s) => (.reply .aborted, s)
    | (some (time, reply), s) => (.joined time (.reply reply), s)
    | (none, s) => (.invalid, s)
  | some (.answered time answer) => (.joined time answer, s)
  | none => (.invalid, s)

/-- The session once everything due is run. -/
def settled (s : Session) : Session :=
  { s with machine := s.machine.settle }

/-- **Play one command.** -/
def play (s : Session) (c : Command) : Answer × Session :=
  match c with
  | .spawn name c =>
    let (answer, s) := s.setAside name c
    (answer, s.settled)
  | .join name => s.rejoin name
  | c =>
    match s.job? c with
    | some (job, s) =>
      let (id, m) := s.machine.submit job
      match ({ s with machine := m.settle } : Session).finish id with
      | (some (_, reply), s) => (.reply reply, s)
      | (none, s) => (.invalid, s)
    | none =>
      let (answer, s) := s.instant c
      (answer, s.settled)

/-- Play commands one after the other; each answer comes with the instant it was given at. -/
def playAll : List Command → Session → List (Answer × Nat) × Session
  | [], s => ([], s)
  | c :: rest, s =>
    let (answer, s) := s.play c
    let (answers, s') := playAll rest s
    ((answer, s.machine.now) :: answers, s')

end Session

end Scenario

end HealthTree
