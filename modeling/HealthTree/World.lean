import HealthTree.Check
import HealthTree.Debounce
import HealthTree.Group
import HealthTree.Scope

/-!
# The world that calls share

Time is counted in whole milliseconds and moves only when nothing is left to do at the present
instant. The world holds the time, the scopes, what debounced checks and caches keep, how often the
probes were called, the metrics and the events told so far. A call in flight is not part of it: the
world is what calls read and write.

**A cache** keeps the outcome committed last, a lock that one refresh at a time may hold, the jobs
that wait for the lock in the order they came, and the refresh loops started last.

**A scope ends, and what goes on under it may be ready to go on at the same instant.** Which of the
two is seen first is left to chance. The world holds the choice (`World.grace`), and whoever moves
the world makes it anew as often as he likes.
-/

namespace HealthTree

/-- The number of a job. -/
abbrev JobId := Nat

/-- A refresh loop. -/
structure Loop where
  /-- The loop runs until this scope ends. -/
  scope : ScopeId
  /-- The instant of its next tick. -/
  nextTick : Nat
  deriving Inhabited, DecidableEq, Repr

/-- What a cached check keeps from call to call. -/
structure Cache where
  /-- The check that refreshes call. -/
  inner : Check
  /-- Milliseconds between ticks; at least one. -/
  interval : Nat
  /-- The outcome committed last. -/
  state : Option Snapshot := none
  /-- The job that holds the refresh lock. -/
  holder : Option JobId := none
  /-- The jobs that wait for the lock, the first in line first. -/
  waiting : List JobId := []
  /-- The loop started last, unless it was stopped. -/
  loop : Option Loop := none
  /-- The loops before, which may not have seen yet that they are over. -/
  past : List Loop := []
  deriving Inhabited

namespace Cache

/-- The name the cached check goes by. -/
def name (c : Cache) : String :=
  c.inner.name

/-- A refresh is given up after this long: half the interval, rounded up to a whole millisecond. -/
def limit (c : Cache) : Nat :=
  (c.interval + 1) / 2

/-- **What a call of the cached check answers**, without calling anything. -/
def serve (c : Cache) : Outcome :=
  match c.state with
  | some s => s.replay
  | none => .error (.ofFault (.pending c.name))

/-- Nobody holds the lock and nobody waits for it. -/
def isIdle (c : Cache) : Bool :=
  c.holder.isNone && c.waiting.isEmpty

end Cache

/-- What calls read and write. -/
structure World where
  /-- The present instant, in milliseconds. -/
  now : Nat := 0
  scopes : Scopes := {}
  /-- By the number of the debounced check. -/
  debounces : List Debounce := []
  /-- By the number of the cached check. -/
  caches : List Cache := []
  /-- By the id of the probe. -/
  calls : List (String × Calls) := []
  metrics : Metrics := []
  /-- The newest first. -/
  events : List Event := []
  /-- The number the next job gets. -/
  nextJob : JobId := 0
  /-- What goes on under a scope that has ended gets one more turn before it is cut off. -/
  grace : Bool := false
  deriving Inhabited

namespace World

/-- Tell what happened, in this order. -/
def tell (w : World) (es : List Event) : World :=
  { w with events := es.reverse ++ w.events }

/-- Why a scope has ended, or `none` while it is live. -/
def cause? (w : World) (scope : ScopeId) : Option Fault :=
  w.scopes.cause? w.now scope

/-- How often the probes of an id were called. -/
def callsOf (w : World) (id : String) : Calls :=
  (w.calls.lookup id).getD {}

/-- Count for the probes of an id. -/
def setCalls (w : World) (id : String) (c : Calls) : World :=
  { w with calls := w.calls.filter (·.1 != id) ++ [(id, c)] }

/-- A call of a probe begins. -/
def startCall (w : World) (id : String) : World :=
  let c := w.callsOf id
  w.setCalls id { c with started := c.started + 1 }

/-- A call of a probe comes to an answer. -/
def completeCall (w : World) (id : String) : World :=
  let c := w.callsOf id
  w.setCalls id { c with completed := c.completed + 1 }

/-- What a cached check keeps. -/
def cache? (w : World) (slot : Nat) : Option Cache :=
  w.caches[slot]?

/-- Change what a cached check keeps. -/
def modifyCache (w : World) (slot : Nat) (f : Cache → Cache) : World :=
  { w with caches := w.caches.modify slot f }

/-- What a debounced check keeps. -/
def debounce (w : World) (slot : Nat) (budget : UInt32) : Debounce :=
  (w.debounces[slot]?).getD (.initial budget)

/-- **A debounced check sees an outcome** of its inner check, and answers. -/
def observe (w : World) (slot : Nat) (name : String) (budget : UInt32) (o : Outcome) :
    Outcome × World :=
  let d := w.debounce slot budget
  (d.answer budget o,
    ({ w with
      debounces := w.debounces.set slot (d.after o)
      metrics := d.record name budget w.metrics o }).tell (d.events name budget o))

end World

end HealthTree
