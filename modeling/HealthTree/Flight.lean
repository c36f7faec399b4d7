import HealthTree.World

/-!
# Calls in flight

A call of a check that has not answered is a `Flight`: a tree of the calls below it that are still
going on, with what the groups among them have gathered. `Flight.step` lets a flight go on once at
the present instant; it either is `still` under way, is `done` with an outcome, or `panicked`.

**What a step does.** A group looks at its scope first, so when a scope ends, the outermost group
that waits on it reacts and the calls below it are dropped with the flight. Else it steps its
children in declaration order and gathers the outcomes of those that are done. A group that starts
only sets its children out; they take their first step in the next round, so checks start level by
level.

**Dropping is forgetting.** A call is given up by no longer keeping its flight; it has no other
trace in the world than the calls it has begun.
-/

namespace HealthTree

/-- A call that has not answered. -/
inductive Flight where
  /-- Not begun yet. -/
  | fresh (check : Check)
  /-- A probe waits until `wake`, or for ever, and then goes on with `act`. -/
  | pausing (p : Probe) (wake : Option Nat) (heeds : Bool) (act : Act)
  /-- A group has gathered some answers and waits for those of `waiting`. -/
  | gathering (name : String) (names : List String) (gathered : Gathered)
      (waiting : List (String × Flight))
  /-- A debounced check waits for its inner check. -/
  | debouncing (slot : Nat) (budget : UInt32) (name : String) (inner : Flight)
  deriving Inhabited

/-- What one step of a call comes to. -/
inductive Turn where
  | still (flight : Flight)
  | done (o : Outcome)
  | panicked
  deriving Inhabited

namespace World

/-- A probe that has waited answers. -/
def answer (w : World) (p : Probe) (scope : ScopeId) (a : Answer) : Turn × World :=
  let w := w.completeCall p.id
  match a with
  | .outcome o => (.done o, w)
  | .tally => (.done (.ok (.degraded ("run " ++ toString (w.callsOf p.id).completed))), w)
  | .scope =>
    match w.cause? scope with
    | some cause => (.done (.error (.ofFault cause)), w)
    | none => (.done (.ok .healthy), w)
  | .panic => (.panicked, w)

/-- A probe goes through its pauses as far as it can at the present instant. -/
def goOn (w : World) (p : Probe) (scope : ScopeId) (a : Answer) : List Pause → Turn × World
  | [] => w.answer p scope a
  | pause :: rest =>
    match (if pause.heeds then w.cause? scope else none) with
    | some cause => (.done (.error (.ofFault cause)), w)
    | none =>
      if pause.length = some 0 then goOn w p scope a rest
      else (.still (.pausing p (pause.length.map (w.now + ·)) pause.heeds ⟨rest, a⟩), w)

/-- A call of a probe begins. -/
def call (w : World) (p : Probe) (scope : ScopeId) : Turn × World :=
  let act := p.act (w.callsOf p.id).started
  (w.startCall p.id).goOn p scope act.answer act.pauses

/-- The scope of a group has ended: the outcome, and what is told of it. -/
def interrupt (w : World) (name : String) (names : List String) (g : Gathered) (cause : Fault) :
    Turn × World :=
  (.done ((g.interrupt cause names).outcome names.length),
    w.tell (.groupInterrupted name cause :: g.missingEvents cause names))

/-- A group of these names starts: its children are set out. -/
def gather (w : World) (scope : ScopeId) (name : String) (children : List Check) : Turn × World :=
  if children.isEmpty then (.done (.ok .healthy), w)
  else
    let names := children.map Check.name
    match w.cause? scope with
    | some cause => w.interrupt name names {} cause
    | none => (.still (.gathering name names {} (children.map fun c => (c.name, .fresh c))), w)

/-- A debounced check after a step of its inner check. -/
def debounced (w : World) (slot : Nat) (budget : UInt32) (name : String) : Turn → Turn × World
  | .still flight => (.still (.debouncing slot budget name flight), w)
  | .panicked => (.panicked, w)
  | .done o =>
    let (o, w) := w.observe slot name budget o
    (.done o, w)

/-- A group after a step of the child called `name`. -/
def gathered (w : World) (name : String) (g : Gathered) : Turn → Option Flight × Gathered × World
  | .still flight => (some flight, g, w)
  | .done o => (none, g.add name o, w.tell (Gathered.eventsOf name o))
  | .panicked =>
    let o : Outcome := .error (.ofFault (.panicked name))
    (none, g.add name o, w.tell (.childPanicked name :: Gathered.eventsOf name o))

end World

/-- **A turn of what is run under a scope**: if the scope has ended, what is still under way is cut
off, and has failed with the cause. -/
def Turn.cutOff : Option Fault → Turn → Turn
  | some cause, .still _ => .done (.error (.ofFault cause))
  | _, turn => turn

namespace Check

/-- **A call begins**, up to where it first has to wait. -/
def begin (scope : ScopeId) : Check → World → Turn × World
  | fixed name status message, w => (.done (fixedOutcome name status message), w)
  | probe p, w => w.call p scope
  | group name children, w => w.gather scope name children
  | cached slot _ inner, w =>
    match w.cache? slot with
    | some c => (.done c.serve, w)
    | none => (.done (.error (.ofFault (.pending inner.name))), w)
  | debounced slot budget inner, w =>
    let (turn, w) := inner.begin scope w
    w.debounced slot budget inner.name turn

end Check

namespace Flight

/-- The call has begun. -/
def begun : Flight → Bool
  | fresh _ => false
  | pausing _ _ _ _ | gathering _ _ _ _ | debouncing _ _ _ _ => true

mutual
/-- **One step of a call** at the present instant. -/
def step (scope : ScopeId) : Flight → World → Turn × World
  | fresh check, w => check.begin scope w
  | pausing p wake heeds act, w =>
    match (if heeds then w.cause? scope else none) with
    | some cause => (.done (.error (.ofFault cause)), w)
    | none =>
      if wake.any (· ≤ w.now) then w.goOn p scope act.answer act.pauses
      else (.still (pausing p wake heeds act), w)
  | gathering name names g waiting, w =>
    match w.cause? scope with
    | some cause => w.interrupt name names g cause
    | none =>
      let (waiting, g, w) := stepAll scope waiting g w
      if waiting.isEmpty then (.done (g.outcome names.length), w)
      else (.still (gathering name names g waiting), w)
  | debouncing slot budget name inner, w =>
    let (turn, w) := inner.step scope w
    w.debounced slot budget name turn
/-- One step of each child a group waits for, in their order. -/
def stepAll (scope : ScopeId) :
    List (String × Flight) → Gathered → World → List (String × Flight) × Gathered × World
  | [], g, w => ([], g, w)
  | (name, flight) :: rest, g, w =>
    let (turn, w) := flight.step scope w
    let (still, g, w) := w.gathered name g turn
    let (rest, g, w) := stepAll scope rest g w
    (match still with
      | some flight => (name, flight) :: rest
      | none => rest, g, w)
end

mutual
/-- **How often a flight can still go on.** A step that changes a flight makes its weight
smaller. -/
def weight : Flight → Nat
  | fresh check => weightOfCheck check
  | pausing _ _ _ act => act.pauses.length + 1
  | gathering _ _ _ waiting => weightAll waiting + 1
  | debouncing _ _ _ inner => inner.weight
/-- The weights of the children a group waits for. -/
def weightAll : List (String × Flight) → Nat
  | [] => 0
  | (_, flight) :: rest => flight.weight + weightAll rest
/-- The weight of a call that has not begun. -/
def weightOfCheck : Check → Nat
  | .fixed _ _ _ => 1
  | .probe p => p.mostPauses + 2
  | .group _ children => weightOfChecks children + 2
  | .cached _ _ _ => 1
  | .debounced _ _ inner => weightOfCheck inner
/-- The same for several. -/
def weightOfChecks : List Check → Nat
  | [] => 0
  | c :: rest => weightOfCheck c + weightOfChecks rest
end

mutual
/-- The instants at which a flight has something to do: the ends of its pauses. -/
def wakes : Flight → List Nat
  | fresh _ => []
  | pausing _ wake _ _ => wake.toList
  | gathering _ _ _ waiting => wakesAll waiting
  | debouncing _ _ _ inner => inner.wakes
/-- Those of the children a group waits for. -/
def wakesAll : List (String × Flight) → List Nat
  | [] => []
  | (_, flight) :: rest => flight.wakes ++ wakesAll rest
end

mutual
/-- How long a flight can still take while its scope is live, from the instant its pauses under way
end, unless it never ends. -/
def longest : Flight → Nat
  | fresh check => check.longest
  | pausing _ _ _ act => act.length
  | gathering _ _ _ waiting => longestAll waiting
  | debouncing _ _ _ inner => inner.longest
/-- The same for the children a group waits for. -/
def longestAll : List (String × Flight) → Nat
  | [] => 0
  | (_, flight) :: rest => max flight.longest (longestAll rest)
end

end Flight

end HealthTree
