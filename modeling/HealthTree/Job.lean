import HealthTree.Flight

/-!
# Jobs: what goes on at the same time

A job is one line of work: a call of a check, a refresh of a cache, a refresh loop, or a wait on a
scope. Jobs share the world and nothing else. `Job.step` lets one job go on once at the present
instant.

**A refresh** first gets the lock of its cache: at once if nobody holds it or waits for it, else
after everybody who came before. Then the inner check is called under a scope that ends after half
the interval. If that scope ends first the call is dropped and has failed with the cause. At the end
the refresh looks at the scope it was asked under: if that has ended nothing is committed; else the
outcome becomes the state of the cache. The lock is given back in every case, a panic included.

**A loop** runs until its scope ends. Each tick begins a refresh of its own if the cache is idle,
and is skipped if it is not; the next tick is one interval after this one either way.

**A job whose scope has ended may be ready to go on too**, and then either is seen first
(`World.grace`). An inner check that is under way gets one more turn before it is dropped, and what
it answers by that stands: a check that heeds the scope says itself that it was cut off. In the same
way a lock that is free may still be had, and a loop takes one tick more if it is due.
-/

namespace HealthTree

/-- On whose behalf a refresh is made. -/
inductive Purpose where
  /-- To start the loop, and then to start these caches too, one after the other. -/
  | start (rest : List Nat)
  /-- Asked for by a caller who wants to know its fault. -/
  | force
  /-- A tick of the loop. -/
  | tick
  deriving Inhabited, DecidableEq, Repr

/-- How far a refresh has come. -/
inductive Phase where
  /-- It has not asked for the lock. -/
  | arriving
  /-- It waits for the lock. -/
  | queued
  /-- It holds the lock and has not called the inner check. -/
  | granted
  /-- It holds the lock, and the inner check was called under this scope. -/
  | calling (limit : ScopeId) (flight : Flight)
  deriving Inhabited

/-- One line of work. -/
inductive Job where
  /-- A call of a check. -/
  | call (name : String) (scope : ScopeId) (flight : Flight)
  /-- A refresh of a cache. -/
  | refresh (slot : Nat) (scope : ScopeId) (purpose : Purpose) (phase : Phase)
  /-- A refresh loop. -/
  | loop (slot : Nat) (scope : ScopeId)
  /-- Work done under a scope, finished at `wake`. -/
  | work (scope : ScopeId) (wake : Nat)
  /-- A wait for the end of a scope, given up at `wake`. -/
  | watch (scope : ScopeId) (wake : Nat)
  /-- A wait until `wake`. -/
  | sleep (wake : Nat)
  deriving Inhabited

/-- What a job came to. -/
inductive Reply where
  | answered (name : String) (o : Outcome)
  | callPanicked (name : String)
  | started
  /-- A refresh, and the fault it committed or was interrupted by. -/
  | refreshed (fault : Option Fault)
  | refreshPanicked
  /-- Work, and what cut it off. -/
  | worked (cut : Option Fault)
  /-- The cause a scope ended for, if it ended in time. -/
  | ended (cause : Option Fault)
  | slept
  | aborted
  deriving Inhabited

/-- What one step of a job comes to. -/
inductive JobTurn where
  | going (job : Job)
  | finished (r : Reply)
  /-- It is over, and nobody waits for it. -/
  | gone
  deriving Inhabited

/-- A job that a step sets off. -/
abbrev Spawned := Option (JobId × Job)

namespace World

/-- The loop of a cache is running. -/
def loopRuns (w : World) (c : Cache) : Bool :=
  c.loop.any fun l => (w.cause? l.scope).isNone

/-- **An outcome becomes the state of a cache.** -/
def commit (w : World) (slot : Nat) (c : Cache) (o : Outcome) : World :=
  let s := Snapshot.ofOutcome o
  let m := w.metrics.bump (.refreshed c.name s.isOk)
  let m := m.set (.status c.name) s.health.effective.severity
  ({ w with metrics := m }.modifyCache slot fun c => { c with state := some s }).tell
    (s.fault.toList.map (.refreshFailed c.name))

/-- The lock of a cache is given to a job. -/
def lock (w : World) (slot : Nat) (id : JobId) : World :=
  w.modifyCache slot fun c => { c with holder := some id, waiting := c.waiting.filter (· != id) }

/-- The lock of a cache is given back. -/
def unlock (w : World) (slot : Nat) : World :=
  w.modifyCache slot fun c => { c with holder := none }

/-- A job gets in line for the lock of a cache. -/
def enqueue (w : World) (slot : Nat) (id : JobId) : World :=
  w.modifyCache slot fun c => { c with waiting := c.waiting ++ [id] }

/-- A job gives up its place in the line. -/
def dequeue (w : World) (slot : Nat) (id : JobId) : World :=
  w.modifyCache slot fun c => { c with waiting := c.waiting.filter (· != id) }

/-- A loop is set off for a cache, under a scope of its own. -/
def spawnLoop (w : World) (slot : Nat) (c : Cache) (scope : ScopeId) : Spawned × World :=
  let (own, scopes) := w.scopes.withCancel scope
  let w := ({ w with scopes := scopes, nextJob := w.nextJob + 1 }.modifyCache slot fun c =>
    { c with loop := some ⟨own, w.now + c.interval⟩, past := c.loop.toList ++ c.past }).tell
      [.loopStarted c.name c.interval]
  (some (w.nextJob - 1, .loop slot own), w)

/-- **The loop of a cache is seen to**: one that runs has its timer reset, else one is set off. -/
def ensureLoop (w : World) (slot : Nat) (c : Cache) (scope : ScopeId) : Spawned × World :=
  if w.loopRuns c then
    (none, (w.modifyCache slot fun c =>
      { c with loop := c.loop.map fun l => { l with nextTick := w.now + c.interval } }).tell
        [.timerReset c.name])
  else w.spawnLoop slot c scope

/-- A refresh is over, with this fault; what it was for goes on. -/
def conclude (w : World) (slot : Nat) (c : Cache) (scope : ScopeId) (fault : Option Fault) :
    Purpose → JobTurn × Spawned × World
  | .tick => (.gone, none, w)
  | .force => (.finished (.refreshed fault), none, w)
  | .start rest =>
    let w := w.tell (fault.toList.map (.firstRefreshFailed c.name))
    let (spawned, w) := w.ensureLoop slot c scope
    (match rest with
      | [] => .finished .started
      | next :: rest => .going (.refresh next scope (.start rest) .arriving), spawned, w)

/-- The inner check has an outcome: it is committed unless the scope has ended. -/
def finishRefresh (w : World) (slot : Nat) (c : Cache) (scope : ScopeId) (purpose : Purpose)
    (o : Outcome) : JobTurn × Spawned × World :=
  match w.cause? scope with
  | some cause =>
    ((w.tell [.refreshInterrupted c.name cause]).unlock slot).conclude slot c scope (some cause)
      purpose
  | none => ((w.commit slot c o).unlock slot).conclude slot c scope o.fault? purpose

/-- A refresh after a step of the call of its inner check. -/
def refreshTurn (w : World) (slot : Nat) (c : Cache) (scope : ScopeId) (purpose : Purpose)
    (limit : ScopeId) : Turn → JobTurn × Spawned × World
  | .still flight => (.going (.refresh slot scope purpose (.calling limit flight)), none, w)
  | .done o => w.finishRefresh slot c scope purpose o
  | .panicked =>
    (match purpose with
      | .tick => .gone
      | _ => .finished .refreshPanicked, none, w.unlock slot)

/-- The call of an inner check goes on by one step: its scope is live, or it is under way and gets
one more turn. -/
def goesOn (w : World) (limit : ScopeId) (flight : Flight) : Bool :=
  (w.cause? limit).isNone || w.grace && flight.begun

/-- **The call of an inner check under its scope.** Once the scope has ended it is cut off, with or
without one more turn; what has not begun does not begin any more. -/
def callInner (w : World) (limit : ScopeId) (flight : Flight) : Turn × World :=
  let (turn, w') := if w.goesOn limit flight then flight.step limit w else (.still flight, w)
  (turn.cutOff (w.cause? limit), w')

/-- The call of the inner check goes on, or is cut off. -/
def goOnRefresh (w : World) (slot : Nat) (c : Cache) (scope : ScopeId) (purpose : Purpose)
    (limit : ScopeId) (flight : Flight) : JobTurn × Spawned × World :=
  let (turn, w) := w.callInner limit flight
  w.refreshTurn slot c scope purpose limit turn

/-- The lock is held: the inner check is called, for half the interval at most. -/
def beginRefresh (w : World) (slot : Nat) (c : Cache) (scope : ScopeId) (purpose : Purpose) :
    JobTurn × Spawned × World :=
  let (limit, scopes) := w.scopes.withTimeout scope w.now c.limit
  { w with scopes := scopes }.goOnRefresh slot c scope purpose limit (.fresh c.inner)

/-- One step of a refresh. -/
def stepRefresh (w : World) (id : JobId) (slot : Nat) (c : Cache) (scope : ScopeId)
    (purpose : Purpose) : Phase → JobTurn × Spawned × World
  | .arriving =>
    match w.cause? scope with
    | some cause => w.conclude slot c scope (some cause) purpose
    | none =>
      if c.isIdle then (w.lock slot id).beginRefresh slot c scope purpose
      else (.going (.refresh slot scope purpose .queued), none, w.enqueue slot id)
  | .queued =>
    let first := c.holder.isNone && c.waiting.head? == some id
    match w.cause? scope with
    | some cause =>
      if w.grace && first then (w.lock slot id).beginRefresh slot c scope purpose
      else (w.dequeue slot id).conclude slot c scope (some cause) purpose
    | none =>
      if first then (w.lock slot id).beginRefresh slot c scope purpose
      else (.going (.refresh slot scope purpose .queued), none, w)
  | .granted => w.beginRefresh slot c scope purpose
  | .calling limit flight => w.goOnRefresh slot c scope purpose limit flight

/-- **A tick**: a refresh of its own if the cache is idle, else nothing but the count of skips. -/
def tick (w : World) (slot : Nat) (c : Cache) (scope : ScopeId) : Spawned × World :=
  if c.isIdle then
    (some (w.nextJob, .refresh slot scope .tick .granted),
      { w with nextJob := w.nextJob + 1 }.lock slot w.nextJob)
  else
    (none, { w with metrics := w.metrics.bump (.skipped c.name) }.tell [.tickSkipped c.name])

/-- The next tick of a loop is one interval after the one that it takes. -/
def ticked (w : World) (slot : Nat) : World :=
  w.modifyCache slot fun c =>
    { c with loop := c.loop.map fun l => { l with nextTick := l.nextTick + c.interval } }

/-- A loop whose scope has ended takes one tick more, if that is due, and there is a turn left for
it. It may be one of the loops before. -/
def tickLeft (w : World) (c : Cache) (scope : ScopeId) : Bool :=
  w.grace && (c.loop.toList ++ c.past).any fun l => l.scope == scope && l.nextTick ≤ w.now

/-- One step of a loop. -/
def stepLoop (w : World) (slot : Nat) (c : Cache) (scope : ScopeId) : JobTurn × Spawned × World :=
  match w.cause? scope with
  | some cause =>
    let (spawned, w) := if w.tickLeft c scope then w.tick slot c scope else (none, w)
    (.gone, spawned, w.tell [.loopStopped c.name cause])
  | none =>
    if c.loop.any fun l => l.scope == scope && l.nextTick ≤ w.now then
      let (spawned, w) := (w.ticked slot).tick slot c scope
      (.going (.loop slot scope), spawned, w)
    else (.going (.loop slot scope), none, w)

end World

/-- The sum of what is counted for each element. -/
def sumOf {α : Type} (count : α → Nat) (xs : List α) : Nat :=
  xs.foldr (fun x sum => count x + sum) 0

@[simp] theorem sumOf_nil {α : Type} (count : α → Nat) : sumOf count [] = 0 := rfl

@[simp] theorem sumOf_cons {α : Type} (count : α → Nat) (x : α) (xs : List α) :
    sumOf count (x :: xs) = count x + sumOf count xs := rfl

@[simp] theorem sumOf_append {α : Type} (count : α → Nat) (xs ys : List α) :
    sumOf count (xs ++ ys) = sumOf count xs + sumOf count ys := by
  induction xs with
  | nil => exact (Nat.zero_add _).symm
  | cons x xs ih => rw [List.cons_append, sumOf_cons, sumOf_cons, ih, Nat.add_assoc]

namespace Job

/-- **One step of a job** at the present instant. -/
def step (id : JobId) (w : World) : Job → JobTurn × Spawned × World
  | call name scope flight =>
    let (turn, w) := flight.step scope w
    (match turn with
      | .still flight => .going (.call name scope flight)
      | .done o => .finished (.answered name o)
      | .panicked => .finished (.callPanicked name), none, w)
  | refresh slot scope purpose phase =>
    match w.cache? slot with
    | some c => w.stepRefresh id slot c scope purpose phase
    | none => (.gone, none, w)
  | loop slot scope =>
    match w.cache? slot with
    | some c => w.stepLoop slot c scope
    | none => (.gone, none, w)
  | work scope wake =>
    (match w.cause? scope with
      | some cause => .finished (.worked (some cause))
      | none => if wake ≤ w.now then .finished (.worked none) else .going (.work scope wake),
      none, w)
  | watch scope wake =>
    (match w.cause? scope with
      | some cause => .finished (.ended (some cause))
      | none => if wake ≤ w.now then .finished (.ended none) else .going (.watch scope wake),
      none, w)
  | sleep wake => (if wake ≤ w.now then .finished .slept else .going (.sleep wake), none, w)

/-- The job is dropped: the lock it holds is given back, its place in a line given up. -/
def drop (id : JobId) (w : World) : Job → World
  | refresh slot _ _ .queued => w.dequeue slot id
  | refresh slot _ _ .granted | refresh slot _ _ (.calling _ _) => w.unlock slot
  | _ => w

/-- The weight of a refresh of a cache that has not begun. -/
def refreshWeight (w : World) (slot : Nat) : Nat :=
  match w.cache? slot with
  | some c => Flight.weightOfCheck c.inner + 8
  | none => 8

/-- How often what comes after a refresh can still go on. -/
def purposeWeight (w : World) : Purpose → Nat
  | .start rest => sumOf (refreshWeight w) rest + 2 * rest.length + 2
  | _ => 0

/-- **How often a job can still go on** before time has to move. A step that changes something makes
the sum of all weights smaller. -/
def weight (w : World) : Job → Nat
  | call _ _ flight => flight.weight + 1
  | refresh slot _ purpose phase => purposeWeight w purpose +
    match phase with
    | .arriving => refreshWeight w slot
    | .queued => refreshWeight w slot - 1
    | .granted => refreshWeight w slot - 2
    | .calling _ flight => flight.weight + 5
  | loop slot scope =>
    match w.cache? slot with
    | some c =>
      if c.loop.any fun l => l.scope == scope && l.nextTick ≤ w.now then refreshWeight w slot + 1
      else 1
    | none => 1
  | work _ _ | watch _ _ | sleep _ => 1

/-- The instants at which a job may have something to do. -/
def wakes (w : World) : Job → List Nat
  | call _ scope flight => (w.scopes.deadline? scope).toList ++ flight.wakes
  | refresh _ scope _ phase => (w.scopes.deadline? scope).toList ++
    match phase with
    | .calling limit flight => (w.scopes.deadline? limit).toList ++ flight.wakes
    | _ => []
  | loop slot scope => (w.scopes.deadline? scope).toList ++
    ((w.cache? slot).bind (·.loop)).toList.map (·.nextTick)
  | work scope wake | watch scope wake => (w.scopes.deadline? scope).toList ++ [wake]
  | sleep wake => [wake]

end Job

end HealthTree
