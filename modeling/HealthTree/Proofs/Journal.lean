import HealthTree.Flight

/-!
# What a call does to the world

A step of a call changes the world in four ways only: it counts the begin or the end of a probe's
call, it shows an outcome to a debounced check, and it tells events. `Flight.journal` lists what one
step does, in order, and `step_world` says that the list is complete: doing these deeds to the world
the step was taken in gives the world that the step leaves.

So what no deed touches, no call touches: time, scopes, caches, and the number of the next job.
Of a debounced check the journal shows each completed call, with what the inner check answered.
-/

namespace HealthTree

/-- One thing that a call does to the world. -/
inductive Deed where
  /-- A call of a probe begins. -/
  | startCall (id : String)
  /-- A call of a probe comes to an answer. -/
  | completeCall (id : String)
  /-- A call of a debounced check is complete: the inner check answered `inner`. -/
  | observe (slot : Nat) (budget : UInt32) (name : String) (inner : Outcome)
  /-- Events are told. -/
  | tell (es : List Event)

namespace World

/-- The world after a deed. -/
def perform (w : World) : Deed → World
  | .startCall id => w.startCall id
  | .completeCall id => w.completeCall id
  | .observe slot budget name inner => (w.observe slot name budget inner).2
  | .tell es => w.tell es

/-- The world after several deeds. -/
def performAll (w : World) (deeds : List Deed) : World :=
  deeds.foldl perform w

@[simp] theorem performAll_nil (w : World) : w.performAll [] = w := rfl

@[simp] theorem performAll_cons (w : World) (d : Deed) (ds : List Deed) :
    w.performAll (d :: ds) = (w.perform d).performAll ds := rfl

theorem performAll_append (w : World) (ds es : List Deed) :
    w.performAll (ds ++ es) = (w.performAll ds).performAll es :=
  List.foldl_append

/-! ## What no deed touches -/

private theorem perform_frame (w : World) (d : Deed) :
    (w.perform d).now = w.now ∧ (w.perform d).scopes = w.scopes ∧
      (w.perform d).caches = w.caches ∧ (w.perform d).nextJob = w.nextJob ∧
      (w.perform d).grace = w.grace := by
  cases d <;> exact ⟨rfl, rfl, rfl, rfl, rfl⟩

private theorem performAll_frame (w : World) (ds : List Deed) :
    (w.performAll ds).now = w.now ∧ (w.performAll ds).scopes = w.scopes ∧
      (w.performAll ds).caches = w.caches ∧ (w.performAll ds).nextJob = w.nextJob ∧
      (w.performAll ds).grace = w.grace := by
  induction ds generalizing w with
  | nil => exact ⟨rfl, rfl, rfl, rfl, rfl⟩
  | cons d ds ih =>
    obtain ⟨now, scopes, caches, next, grace⟩ := perform_frame w d
    obtain ⟨now', scopes', caches', next', grace'⟩ := ih (w.perform d)
    exact ⟨now'.trans now, scopes'.trans scopes, caches'.trans caches, next'.trans next,
      grace'.trans grace⟩

@[simp] theorem performAll_now (w : World) (ds : List Deed) : (w.performAll ds).now = w.now :=
  (performAll_frame w ds).1

@[simp] theorem performAll_scopes (w : World) (ds : List Deed) :
    (w.performAll ds).scopes = w.scopes :=
  (performAll_frame w ds).2.1

@[simp] theorem performAll_caches (w : World) (ds : List Deed) :
    (w.performAll ds).caches = w.caches :=
  (performAll_frame w ds).2.2.1

@[simp] theorem performAll_nextJob (w : World) (ds : List Deed) :
    (w.performAll ds).nextJob = w.nextJob :=
  (performAll_frame w ds).2.2.2.1

@[simp] theorem performAll_grace (w : World) (ds : List Deed) :
    (w.performAll ds).grace = w.grace :=
  (performAll_frame w ds).2.2.2.2

/-! ## The journal of a step -/

/-- What a probe that goes through its pauses does. -/
def pauseJournal (w : World) (p : Probe) (scope : ScopeId) : List Pause → List Deed
  | [] => [.completeCall p.id]
  | pause :: rest =>
    match (if pause.heeds then w.cause? scope else none) with
    | some _ => []
    | none => if pause.length = some 0 then w.pauseJournal p scope rest else []

/-- What is told when the scope of a group has ended. -/
def interruptJournal (name : String) (names : List String) (g : Gathered) (cause : Fault) :
    List Deed :=
  [.tell (.groupInterrupted name cause :: g.missingEvents cause names)]

/-- What a group does when the child called `name` has taken a step. -/
def gatherJournal (name : String) : Turn → List Deed
  | .still _ => []
  | .done o => [.tell (Gathered.eventsOf name o)]
  | .panicked =>
    [.tell (.childPanicked name :: Gathered.eventsOf name (.error (.ofFault (.panicked name))))]

/-- What a debounced check does when its inner check has taken a step. -/
def debounceJournal (slot : Nat) (budget : UInt32) (name : String) : Turn → List Deed
  | .done o => [.observe slot budget name o]
  | .still _ | .panicked => []

end World

/-- What the first step of a call does. -/
def Check.journal (scope : ScopeId) : Check → World → List Deed
  | fixed _ _ _, _ => []
  | probe p, w =>
    .startCall p.id ::
      (w.startCall p.id).pauseJournal p scope (p.act (w.callsOf p.id).started).pauses
  | group name children, w =>
    if children.isEmpty then []
    else match w.cause? scope with
      | some cause => World.interruptJournal name (children.map Check.name) {} cause
      | none => []
  | cached _ _ _, _ => []
  | debounced slot budget inner, w =>
    inner.journal scope w ++
      World.debounceJournal slot budget inner.name (inner.begin scope w).1

namespace Flight

mutual
/-- **What one step of a call does to the world**, in order. -/
def journal (scope : ScopeId) : Flight → World → List Deed
  | fresh check, w => check.journal scope w
  | pausing p wake heeds act, w =>
    match (if heeds then w.cause? scope else none) with
    | some _ => []
    | none => if wake.any (· ≤ w.now) then w.pauseJournal p scope act.pauses else []
  | gathering name names g waiting, w =>
    match w.cause? scope with
    | some cause => World.interruptJournal name names g cause
    | none => journalAll scope waiting w
  | debouncing slot budget name inner, w =>
    inner.journal scope w ++ World.debounceJournal slot budget name (inner.step scope w).1
/-- What one step of each child a group waits for does. -/
def journalAll (scope : ScopeId) : List (String × Flight) → World → List Deed
  | [], _ => []
  | (name, flight) :: rest, w =>
    let deeds := flight.journal scope w ++ World.gatherJournal name (flight.step scope w).1
    deeds ++ journalAll scope rest (w.performAll deeds)
end

end Flight

/-! ## The journal is complete -/

namespace World

theorem goOn_world (w : World) (p : Probe) (scope : ScopeId) (a : Answer) (pauses : List Pause) :
    (w.goOn p scope a pauses).2 = w.performAll (w.pauseJournal p scope pauses) := by
  induction pauses with
  | nil =>
    cases a with
    | scope =>
      simp only [goOn, answer, pauseJournal]
      split <;> rfl
    | outcome | tally | panic => rfl
  | cons pause rest ih =>
    simp only [goOn, pauseJournal]
    cases (if pause.heeds then w.cause? scope else none) with
    | some cause => rfl
    | none =>
      by_cases unwaited : pause.length = some 0
      · simpa only [if_pos unwaited] using ih
      · simp only [if_neg unwaited, performAll_nil]

theorem debounced_world (w : World) (slot : Nat) (budget : UInt32) (name : String) (t : Turn) :
    (w.debounced slot budget name t).2 =
      w.performAll (debounceJournal slot budget name t) := by
  cases t <;> rfl

theorem gathered_world (w : World) (name : String) (g : Gathered) (t : Turn) :
    (w.gathered name g t).2.2 = w.performAll (gatherJournal name t) := by
  cases t <;> rfl

end World

theorem Check.begin_world (scope : ScopeId) (c : Check) (w : World) :
    (c.begin scope w).2 = w.performAll (c.journal scope w) := by
  cases c with
  | fixed name status message => rfl
  | probe p => exact World.goOn_world _ p scope _ _
  | group name children =>
    simp only [Check.begin, Check.journal, World.gather]
    by_cases empty : children.isEmpty
    · simp only [if_pos empty, World.performAll_nil]
    · simp only [if_neg empty]
      cases w.cause? scope <;> rfl
  | cached slot interval inner =>
    simp only [Check.begin, Check.journal]
    cases w.cache? slot <;> rfl
  | debounced slot budget inner =>
    simp only [Check.begin, Check.journal]
    rw [World.debounced_world, Check.begin_world scope inner w, ← World.performAll_append]

namespace Flight

mutual
/-- **The journal is complete**: what it lists makes the world that the step leaves. -/
theorem step_world (scope : ScopeId) (f : Flight) (w : World) :
    (f.step scope w).2 = w.performAll (f.journal scope w) := by
  cases f with
  | fresh check => exact check.begin_world scope w
  | pausing p wake heeds act =>
    simp only [Flight.step, journal]
    cases (if heeds then w.cause? scope else none) with
    | some cause => rfl
    | none =>
      by_cases due : wake.any (· ≤ w.now)
      · simpa only [if_pos due] using World.goOn_world w p scope act.answer act.pauses
      · simp only [if_neg due, World.performAll_nil]
  | gathering name names g waiting =>
    simp only [Flight.step, journal]
    cases w.cause? scope with
    | some cause => rfl
    | none =>
      have all := stepAll_world scope waiting g w
      simp only
      split <;> exact all
  | debouncing slot budget name inner =>
    simp only [Flight.step, journal]
    rw [World.debounced_world, step_world scope inner w, ← World.performAll_append]
theorem stepAll_world (scope : ScopeId) (waiting : List (String × Flight)) (g : Gathered)
    (w : World) :
    (stepAll scope waiting g w).2.2 = w.performAll (journalAll scope waiting w) := by
  cases waiting with
  | nil => rfl
  | cons child rest =>
    obtain ⟨name, flight⟩ := child
    simp only [stepAll, journalAll]
    rw [stepAll_world scope rest, World.gathered_world, step_world scope flight w]
    simp only [← World.performAll_append]
end

@[simp] theorem step_now (scope : ScopeId) (f : Flight) (w : World) :
    (f.step scope w).2.now = w.now := by
  rw [step_world, World.performAll_now]

@[simp] theorem step_scopes (scope : ScopeId) (f : Flight) (w : World) :
    (f.step scope w).2.scopes = w.scopes := by
  rw [step_world, World.performAll_scopes]

@[simp] theorem step_caches (scope : ScopeId) (f : Flight) (w : World) :
    (f.step scope w).2.caches = w.caches := by
  rw [step_world, World.performAll_caches]

@[simp] theorem step_nextJob (scope : ScopeId) (f : Flight) (w : World) :
    (f.step scope w).2.nextJob = w.nextJob := by
  rw [step_world, World.performAll_nextJob]

/-- A step ends no scope and lets no time pass. -/
@[simp] theorem step_cause? (scope other : ScopeId) (f : Flight) (w : World) :
    (f.step scope w).2.cause? other = w.cause? other := by
  simp only [World.cause?, step_scopes, step_now]

/-- The world after a step of a child that a group takes note of. -/
theorem step_gathered_world (scope : ScopeId) (f : Flight) (w : World) (name : String)
    (g : Gathered) :
    ((f.step scope w).2.gathered name g (f.step scope w).1).2.2 =
      w.performAll (f.journal scope w ++ World.gatherJournal name (f.step scope w).1) := by
  rw [World.gathered_world, step_world, World.performAll_append]

/-- It is at the same instant, and what was live is. -/
theorem step_gathered_live {scope : ScopeId} {w : World} (live : w.cause? scope = none) (f : Flight)
    (name : String) (g : Gathered) :
    ((f.step scope w).2.gathered name g (f.step scope w).1).2.2.now = w.now ∧
      ((f.step scope w).2.gathered name g (f.step scope w).1).2.2.cause? scope = none := by
  rw [step_gathered_world, World.cause?, World.performAll_scopes, World.performAll_now]
  exact ⟨rfl, live⟩

end Flight

end HealthTree
