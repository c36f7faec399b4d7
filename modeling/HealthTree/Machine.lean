import HealthTree.Job

/-!
# The machine: jobs under one clock

A `Machine` is the world together with the jobs that are going on and what the others came to.

**Rounds.** At one instant the jobs take one step each, in the order they were set off, round after
round, until a round changes nothing (`settle`). A job set off in a round takes its first step in
the next one.

**Time moves only when nothing is left to do**: then it jumps to the next instant at which some job
has something to do (`nextWake`), or to the one that is waited for if that comes first (`jump`).
-/

namespace HealthTree

/-- The world, the jobs that are going on, and what the others came to and when, the last first. -/
structure Machine where
  world : World := {}
  jobs : List (JobId × Job) := []
  finished : List (JobId × Nat × Reply) := []
  deriving Inhabited

namespace Machine

/-- The present instant. -/
def now (m : Machine) : Nat :=
  m.world.now

/-- One step of the jobs of a list, in their order. -/
def stepJobs : List (JobId × Job) → Machine → Machine
  | [], m => m
  | (id, job) :: rest, m =>
    let (turn, spawned, w) := job.step id m.world
    stepJobs rest <|
      match turn with
      | .going job => { m with world := w, jobs := m.jobs ++ (id, job) :: spawned.toList }
      | .finished r =>
        { world := w, jobs := m.jobs ++ spawned.toList, finished := (id, w.now, r) :: m.finished }
      | .gone => { m with world := w, jobs := m.jobs ++ spawned.toList }

/-- **One round**: every job takes a step. -/
def round (m : Machine) : Machine :=
  stepJobs m.jobs { m with jobs := [] }

/-- How often the jobs can still go on before time has to move. -/
def weight (m : Machine) : Nat :=
  sumOf (fun j => j.2.weight m.world) m.jobs

/-- **Everything due at the present instant is run to its end.** -/
def settle (m : Machine) : Machine :=
  let m' := m.round
  if m'.weight < m.weight then settle m' else m'
termination_by m.weight

/-- The next instant after the present one at which some job may have something to do. -/
def nextWake (m : Machine) : Option Nat :=
  ((m.jobs.flatMap fun j => j.2.wakes m.world).filter (m.now < ·)).min?

/-- Time moves to the next instant at which something may be due, but not past `target`. -/
def jump (target : Nat) (m : Machine) : Machine :=
  let t := match m.nextWake with
    | some t => min t target
    | none => target
  settle { m with world := { m.world with now := t } }

/-- **Let time pass** until `target`, and run what is due then. -/
def runUntil (target : Nat) (m : Machine) : Machine :=
  if m.now < target then
    let m' := m.jump target
    if m.now < m'.now then runUntil target m' else m'
  else m
termination_by target - m.now
decreasing_by
  rename_i before moved
  have moved : m.now < (jump target m).now := moved
  omega

/-- What a job came to, and when. -/
def result? (m : Machine) (id : JobId) : Option (Nat × Reply) :=
  m.finished.lookup id

/-- **Let time pass until a job is over**, but not past `limit`. -/
def await (id : JobId) (limit : Nat) (m : Machine) : Machine :=
  if m.now < limit ∧ (m.result? id).isNone then
    let m' := m.jump limit
    if m.now < m'.now then await id limit m' else m'
  else m
termination_by limit - m.now
decreasing_by
  rename_i before moved
  have moved : m.now < (jump limit m).now := moved
  omega

/-- A job is set off; its first step is taken when the machine settles. -/
def submit (m : Machine) (job : Job) : JobId × Machine :=
  (m.world.nextJob, { m with
    world := { m.world with nextJob := m.world.nextJob + 1 }
    jobs := m.jobs ++ [(m.world.nextJob, job)] })

/-- A job that is going on is dropped. -/
def abort (m : Machine) (id : JobId) : Machine :=
  match m.jobs.lookup id with
  | some job => {
      world := job.drop id m.world
      jobs := m.jobs.filter (·.1 != id)
      finished := (id, m.now, .aborted) :: m.finished }
  | none => m

/-- A scope is cancelled. -/
def cancel (m : Machine) (scope : ScopeId) : Machine :=
  { m with world := { m.world with scopes := m.world.scopes.cancel scope } }

/-- The loop of a cache is stopped; the state is kept. -/
def stop (m : Machine) (slot : Nat) : Machine :=
  match (m.world.cache? slot).bind (·.loop) with
  | some l => { m.cancel l.scope with
      world := (m.cancel l.scope).world.modifyCache slot fun c =>
        { c with loop := none, past := l :: c.past } }
  | none => m

/-- **An instant by which every job is over that is ever over**, loops apart: refreshes wait for
each other in line, and each is over after half its interval. -/
def horizon (m : Machine) : Nat :=
  let inLine := m.jobs.length + m.world.caches.length + 1
  let refreshes := sumOf (·.interval) m.world.caches * inLine
  let calls := m.jobs.map fun j => match j.2 with
    | .call _ _ flight => flight.longest
    | _ => 0
  (m.jobs.flatMap fun j => j.2.wakes m.world).foldl max m.now + calls.foldl max 0 + refreshes + 1

end Machine

end HealthTree
