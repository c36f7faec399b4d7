import HealthTree.Proofs.Agreement
import HealthTree.Proofs.Underway

/-!
# Which probes a call calls

A call of a check reaches the probes that stand below it behind no cache (`Check.reached`). A probe
is listed as often as it stands there, each time with the names on the way down to it. What a step
of a call does with probes is listed in the same way (`Flight.crossed`), at either end of a probe's
call: where it begins, and where it comes to an answer or a panic.

**While its scope is live, a step takes from the list what it does** (`step_crossed`): what is
crossed in the step and what is still ahead of the call after it are what was ahead before. Nothing
else of the outcome of a child matters for this, and nothing of its siblings. So a call that is over
has called each probe it reaches once, wherever it stands, and no other
(`reaches_each_once`). A step of a call changes no cache, and the count of the calls of a probe grows
with what is listed.
-/

namespace HealthTree

/-- A probe where it stands: the names on the way down to it, and the probe. -/
abbrev Occurrence := List String × Probe

/-- The way down begins one name higher. -/
def Occurrence.under (name : String) (o : Occurrence) : Occurrence :=
  (name :: o.1, o.2)

mutual
/-- **The probes that a call of a check reaches**: those that stand below it behind no cache. -/
def Check.reached : Check → List Occurrence
  | .fixed _ _ _ => []
  | .probe p => [([], p)]
  | .group _ children => reachedOf children
  | .cached _ _ _ => []
  | .debounced _ _ inner => inner.reached
/-- Those that calls of several checks reach. -/
def reachedOf : List Check → List Occurrence
  | [] => []
  | c :: rest => c.reached.map (.under c.name) ++ reachedOf rest
end

/-- A probe that deeds of its own call take across the edge. -/
def Probe.crossed (p : Probe) (edge : Edge) (deeds : List Deed) : List Occurrence :=
  (crossings edge deeds).map fun _ => ([], p)

/-- The probes whose calls cross this edge in the first step of a call. A group calls none yet. -/
def Check.crossed (edge : Edge) (scope : ScopeId) : Check → World → List Occurrence
  | probe p, w => p.crossed edge ((probe p).journal scope w)
  | debounced _ _ inner, w => inner.crossed edge scope w
  | fixed _ _ _, _ | group _ _, _ | cached _ _ _, _ => []

namespace Flight

mutual
/-- **The probes whose calls cross this edge in one step of a call.** -/
def crossed (edge : Edge) (scope : ScopeId) : Flight → World → List Occurrence
  | fresh check, w => check.crossed edge scope w
  | pausing p wake heeds act, w => p.crossed edge ((pausing p wake heeds act).journal scope w)
  | gathering _ _ _ waiting, w =>
    match w.cause? scope with
    | some _ => []
    | none => crossedAll edge scope waiting w
  | debouncing _ _ _ inner, w => inner.crossed edge scope w
/-- Those in one step of each child a group waits for. -/
def crossedAll (edge : Edge) (scope : ScopeId) : List (String × Flight) → World → List Occurrence
  | [], _ => []
  | (name, flight) :: rest, w =>
    let deeds := flight.journal scope w ++ World.gatherJournal name (flight.step scope w).1
    (flight.crossed edge scope w).map (.under name) ++
      crossedAll edge scope rest (w.performAll deeds)
end

mutual
/-- **The probes whose calls have still to cross this edge** before a call is over. -/
def ahead (edge : Edge) : Flight → List Occurrence
  | fresh check => check.reached
  | pausing p _ _ _ => match edge with
    | .start => []
    | .finish => [([], p)]
  | gathering _ _ _ waiting => aheadAll edge waiting
  | debouncing _ _ _ inner => inner.ahead edge
/-- Those of the children a group waits for. -/
def aheadAll (edge : Edge) : List (String × Flight) → List Occurrence
  | [] => []
  | (name, flight) :: rest => (flight.ahead edge).map (.under name) ++ aheadAll edge rest
end

end Flight

/-- What is ahead of a call after a step. -/
def Turn.ahead (edge : Edge) : Turn → List Occurrence
  | .still flight => flight.ahead edge
  | .done _ | .panicked => []

/-! ## The journal tells the same -/

namespace World

variable (w : World) (edge : Edge)

theorem crossings_pauseJournal (p : Probe) (scope : ScopeId) (pauses : List Pause) :
    ∀ id ∈ crossings edge (w.pauseJournal p scope pauses), id = p.id := by
  induction pauses with
  | nil => cases edge <;> simp [pauseJournal, crossings, Deed.crosses?]
  | cons pause rest ih =>
    simp only [pauseJournal]
    split
    · exact List.forall_mem_nil _
    · split
      · exact ih
      · exact List.forall_mem_nil _

theorem crossings_debounceJournal (slot : Nat) (budget : UInt32) (name : String) (t : Turn) :
    crossings edge (debounceJournal slot budget name t) = [] := by
  cases t <;> rfl

theorem crossings_gatherJournal (name : String) (t : Turn) :
    crossings edge (gatherJournal name t) = [] := by
  cases t <;> rfl

end World

/-- The deeds of a probe's call are its own. -/
theorem Probe.crossed_ids {p : Probe} {edge : Edge} {deeds : List Deed}
    (own : ∀ id ∈ crossings edge deeds, id = p.id) :
    (p.crossed edge deeds).map (·.2.id) = crossings edge deeds := by
  rw [Probe.crossed, List.map_map]
  conv_rhs => rw [← List.map_id (crossings edge deeds)]
  exact List.map_congr_left fun id mem => (own id mem).symm

theorem Occurrence.under_ids (name : String) (os : List Occurrence) :
    (os.map (Occurrence.under name)).map (·.2.id) = os.map (·.2.id) := by
  rw [List.map_map]
  rfl

theorem Check.crossed_ids (edge : Edge) (scope : ScopeId) (c : Check) (w : World) :
    (c.crossed edge scope w).map (·.2.id) = crossings edge (c.journal scope w) := by
  cases c with
  | fixed | cached => rfl
  | probe p =>
    refine Probe.crossed_ids fun id mem => ?_
    rw [Check.journal, ← List.singleton_append, crossings_append, List.mem_append] at mem
    rcases mem with first | later
    · cases edge
      · exact List.mem_singleton.mp first
      · cases first
    · exact World.crossings_pauseJournal _ edge p scope _ id later
  | group name children =>
    simp only [Check.crossed, Check.journal]
    split
    · rfl
    · split <;> rfl
  | debounced slot budget inner =>
    rw [Check.crossed, Check.journal, crossings_append, World.crossings_debounceJournal,
      List.append_nil, inner.crossed_ids edge scope w]

namespace Flight

mutual
/-- **What is listed of a step is what its journal tells.** -/
theorem crossed_ids (edge : Edge) (scope : ScopeId) (f : Flight) (w : World) :
    (f.crossed edge scope w).map (·.2.id) = crossings edge (f.journal scope w) := by
  cases f with
  | fresh check => exact check.crossed_ids edge scope w
  | pausing p wake heeds act =>
    refine Probe.crossed_ids fun id mem => ?_
    simp only [journal] at mem
    split at mem
    · cases mem
    · split at mem
      · exact w.crossings_pauseJournal edge p scope _ id mem
      · cases mem
  | gathering name names g waiting =>
    simp only [crossed, journal]
    cases w.cause? scope with
    | some cause => rfl
    | none => exact crossedAll_ids edge scope waiting w
  | debouncing slot budget name inner =>
    rw [crossed, journal, crossings_append, World.crossings_debounceJournal, List.append_nil,
      crossed_ids edge scope inner w]
theorem crossedAll_ids (edge : Edge) (scope : ScopeId) (waiting : List (String × Flight))
    (w : World) :
    (crossedAll edge scope waiting w).map (·.2.id) =
      crossings edge (journalAll scope waiting w) := by
  cases waiting with
  | nil => rfl
  | cons child rest =>
    obtain ⟨name, flight⟩ := child
    simp only [crossedAll, journalAll, List.map_append, crossings_append, Occurrence.under_ids,
      World.crossings_gatherJournal, List.append_nil, crossed_ids edge scope flight w,
      crossedAll_ids edge scope rest]
end

end Flight

/-! ## What a step takes from the list -/

/-- A probe that goes on under a live scope comes to its end or pauses once more. -/
theorem World.goOn_crossed {w : World} {scope : ScopeId} (live : w.cause? scope = none)
    (edge : Edge) (p : Probe) (a : Answer) (wake : Option Nat) (heeds : Bool) (pauses : List Pause) :
    p.crossed edge (w.pauseJournal p scope pauses) ++ (w.goOn p scope a pauses).1.ahead edge =
      (Flight.pausing p wake heeds ⟨pauses, a⟩).ahead edge := by
  induction pauses with
  | nil =>
    have nothing : (w.goOn p scope a []).1.ahead edge = [] := by
      cases a with
      | scope =>
        simp only [goOn, answer]
        split <;> rfl
      | outcome | tally | panic => rfl
    rw [nothing]
    cases edge <;> rfl
  | cons pause rest ih =>
    have unheeded : (if pause.heeds then w.cause? scope else none) = none := by
      rw [live, ite_self]
    simp only [goOn, pauseJournal, unheeded]
    split
    · exact ih
    · cases edge <;> rfl

theorem aheadAll_fresh (edge : Edge) (children : List Check) :
    Flight.aheadAll edge (children.map fun c => (c.name, .fresh c)) = reachedOf children := by
  induction children with
  | nil => rfl
  | cons c rest ih => rw [List.map_cons, Flight.aheadAll, Flight.ahead, reachedOf, ih]

/-- A debounced check has the probes of its inner check ahead of it. -/
theorem World.debounced_ahead (w : World) (edge : Edge) (slot : Nat) (budget : UInt32)
    (name : String) (t : Turn) : (w.debounced slot budget name t).1.ahead edge = t.ahead edge := by
  cases t <;> rfl

/-- The first step of a call. -/
theorem Check.begin_crossed {scope : ScopeId} {w : World} (live : w.cause? scope = none)
    (edge : Edge) (c : Check) :
    c.crossed edge scope w ++ (c.begin scope w).1.ahead edge = c.reached := by
  cases c with
  | fixed => rfl
  | probe p =>
    have goesOn := World.goOn_crossed (w := w.startCall p.id) live edge p
      (p.act (w.callsOf p.id).started).answer none false (p.act (w.callsOf p.id).started).pauses
    have first : p.crossed edge ((probe p).journal scope w) =
        p.crossed edge [.startCall p.id] ++ p.crossed edge ((w.startCall p.id).pauseJournal p scope
          (p.act (w.callsOf p.id).started).pauses) := by
      simp only [Probe.crossed, ← List.map_append, ← crossings_append]
      rfl
    rw [Check.crossed, first, List.append_assoc, Check.begin, World.call, goesOn]
    cases edge <;> rfl
  | group name children =>
    simp only [Check.crossed, Check.begin, World.gather, List.nil_append]
    by_cases empty : children.isEmpty
    · rw [List.isEmpty_iff.mp empty]
      rfl
    · simp only [if_neg empty, live]
      exact aheadAll_fresh edge children
  | cached slot interval inner =>
    simp only [Check.crossed, Check.begin]
    cases w.cache? slot <;> rfl
  | debounced slot budget inner =>
    simp only [Check.begin, World.debounced_ahead]
    exact inner.begin_crossed live edge

namespace Flight

mutual
/-- **What a step takes across an edge and what it leaves ahead was ahead before.** -/
theorem step_crossed {scope : ScopeId} {w : World} (live : w.cause? scope = none) (edge : Edge)
    (f : Flight) :
    (f.crossed edge scope w ++ (f.step scope w).1.ahead edge).Perm (f.ahead edge) := by
  cases f with
  | fresh check => exact .of_eq (check.begin_crossed live edge)
  | pausing p wake heeds act =>
    have unheeded : (if heeds then w.cause? scope else none) = none := by rw [live, ite_self]
    simp only [crossed, journal, Flight.step, unheeded]
    split
    · exact .of_eq (World.goOn_crossed live edge p act.answer wake heeds act.pauses)
    · exact .refl _
  | gathering name names g waiting =>
    have all := stepAll_crossed live edge waiting g
    simp only [crossed, Flight.step, live]
    split
    · next empty =>
      rw [List.isEmpty_iff.mp empty] at all
      exact all
    · exact all
  | debouncing slot budget name inner =>
    simp only [Flight.step, World.debounced_ahead]
    exact step_crossed live edge inner
/-- The same for the children a group waits for. -/
theorem stepAll_crossed {scope : ScopeId} {w : World} (live : w.cause? scope = none) (edge : Edge)
    (waiting : List (String × Flight)) (g : Gathered) :
    (crossedAll edge scope waiting w ++ aheadAll edge (stepAll scope waiting g w).1).Perm
      (aheadAll edge waiting) := by
  cases waiting with
  | nil => exact .refl _
  | cons child rest =>
    obtain ⟨name, flight⟩ := child
    have here := (step_crossed live edge flight).map (Occurrence.under name)
    have world := flight.step_gathered_world scope w name g
    obtain ⟨-, live'⟩ := step_gathered_live live flight name g
    have there := stepAll_crossed live' edge rest
      ((flight.step scope w).2.gathered name g (flight.step scope w).1).2.1
    have left : aheadAll edge (stepAll scope ((name, flight) :: rest) g w).1 =
        ((flight.step scope w).1.ahead edge).map (.under name) ++ aheadAll edge (stepAll scope rest
          ((flight.step scope w).2.gathered name g (flight.step scope w).1).2.1
          ((flight.step scope w).2.gathered name g (flight.step scope w).1).2.2).1 := by
      simp only [stepAll]
      cases (flight.step scope w).1 <;> rfl
    rw [left, crossedAll, ← world, aheadAll, List.append_assoc]
    -- the probes of this child and those of the others do not mix
    refine ((List.perm_append_comm_assoc _ _ _).append_left _).trans ?_
    rw [← List.append_assoc, ← List.map_append]
    exact here.append there
end

end Flight

/-! ## Whole calls -/

namespace Job

variable {id : JobId} {w : World}

/-- The probes whose calls cross this edge in a step of a job. -/
def crossed (edge : Edge) (id : JobId) (w : World) (job : Job) : List Occurrence :=
  match job.inside id w with
  | some (scope, flight, w) => flight.crossed edge scope w
  | none => []

/-- Calls are counted with each step of a job as they cross an edge in it. -/
theorem step_at (edge : Edge) (id : JobId) (w : World) (job : Job) (probe : String) :
    ((job.step id w).2.2.callsOf probe).at edge = (w.callsOf probe).at edge +
      ((job.crossed edge id w).map (·.2.id)).count probe := by
  have told : (job.crossed edge id w).map (·.2.id) = crossings edge (job.deeds id w) := by
    rw [crossed, deeds]
    cases job.inside id w with
    | none => rfl
    | some p => exact p.2.1.crossed_ids edge p.1 p.2.2
  rw [told, step_crossings]

/-- A call that goes on is the rest of the call. -/
theorem call_of_going {name : String} {scope : ScopeId} {flight : Flight} {next : Job}
    (going : ((call name scope flight).step id w).1 = .going next) :
    ∃ flight', next = .call name scope flight' ∧ (flight.step scope w).1 = .still flight' := by
  simp only [Job.step] at going
  cases turn : (flight.step scope w).1 with
  | still flight' =>
    rw [turn] at going
    cases going
    exact ⟨flight', rfl, rfl⟩
  | done | panicked =>
    rw [turn] at going
    cases going

/-- A call that is over has nothing ahead of it. -/
theorem ahead_of_finished {name : String} {scope : ScopeId} {flight : Flight} {r : Reply}
    (finished : ((call name scope flight).step id w).1 = .finished r) (edge : Edge) :
    (flight.step scope w).1.ahead edge = [] := by
  simp only [Job.step] at finished
  cases turn : (flight.step scope w).1 with
  | still flight' =>
    rw [turn] at finished
    cases finished
  | done | panicked => rfl

end Job

namespace Scenario.Session

open CheckTree (ofBlueprint?)
open Job (call_of_going ahead_of_finished)

/-- **These steps of a job call each probe that the check reaches once**, from the start to the
finish, and no other; the counts of calls grow with that alone, and no cache is changed. -/
structure ReachesOnce (id : JobId) (c : Check) (steps : List (Machine × Job)) : Prop where
  calls : ∀ edge, (steps.flatMap fun p => p.2.crossed edge id p.1.world).Perm c.reached
  counted : ∀ p ∈ steps, ∀ edge probe, ((p.2.step id p.1.world).2.2.callsOf probe).at edge =
    (p.1.world.callsOf probe).at edge +
      ((p.2.crossed edge id p.1.world).map (·.2.id)).count probe
  caches : ∀ p ∈ steps, (p.2.step id p.1.world).2.2.caches = p.1.world.caches

section

variable {b : Blueprint} {t : CheckTree} (built : ofBlueprint? b = some t) (before : List Event)
  {run call : List Move} {id : JobId} {name : String} {scope : ScopeId} {c : Check} {job : Job}

include built

/-- **How far a call has come** that is under way while its scope is live: what its steps have taken
across an edge and what is ahead of it is what the check reaches. -/
theorem ahead_of_moves
    (asked : (id, .call name scope (.fresh c)) ∈
      ((ofTree (some t) before).moves run).machine.jobs)
    (mem : (id, job) ∈ (((ofTree (some t) before).moves run).moves call).machine.jobs)
    (live : (((ofTree (some t) before).moves run).moves call).machine.world.cause? scope = none) :
    let steps := ((ofTree (some t) before).moves run).stepsOf id call
    (∀ p ∈ steps, ∃ flight, p.2 = .call name scope flight) ∧
      ∃ flight, job = .call name scope flight ∧ ∀ edge,
        ((steps.flatMap fun p => p.2.crossed edge id p.1.world) ++ flight.ahead edge).Perm
          c.reached := by
  obtain ⟨_, within, orderly⟩ := orderly_of_moves built before run
  generalize same : (ofTree (some t) before).moves run = s at *
  have old := orderly.sheltered.scopes _ asked scope rfl
  induction call using List.reverseRecOn generalizing job with
  | nil =>
    have one := List.inj_on_of_nodup_map orderly.locked.distinct mem asked rfl
    cases one
    exact ⟨nofun, _, rfl, fun edge => .refl _⟩
  | append_singleton call next ih =>
    rw [moves_append] at mem live
    obtain ⟨held, within', orderly'⟩ := orderly_of_moves built before (run ++ call)
    rw [moves_append, same] at within' orderly'
    have numbered := Nat.lt_of_lt_of_le (orderly.locked.numbered _ asked) (moves_nextJob within call)
    have live' : (s.moves call).machine.world.cause? scope = none := by
      refine live_of_moves within' [next] (Nat.lt_of_lt_of_le old ?_) live
      exact (moves_after within call).grows
    rw [stepsOf_append]
    rcases move_job within' orderly'.locked numbered mem with ⟨none, mem'⟩ | ⟨job', step, mem', going, -⟩
    · simp only [stepsOf, none, Option.toList_none, List.append_nil]
      exact ih mem' live'
    · obtain ⟨calls, flight, rfl, sofar⟩ := ih mem' live'
      obtain ⟨flight', rfl, still⟩ := call_of_going going
      simp only [stepsOf, step, Option.toList_some, List.append_nil]
      refine ⟨fun p listed => ?_, flight', rfl, fun edge => ?_⟩
      · rcases List.mem_append.mp listed with before' | last
        · exact calls p before'
        · rw [List.mem_singleton.mp last]
          exact ⟨flight, rfl⟩
      · have taken := flight.step_crossed live' edge
        rw [still] at taken
        rw [List.flatMap_append, List.append_assoc, List.flatMap_singleton]
        exact (taken.append_left _).trans (sofar edge)

/-- **Every probe is called once, wherever it stands, and none behind a cache.** A check is called at
any time, beside whatever else goes on, and comes to its end with its next step; what it comes to
does not matter, and it may panic. If its scope is live then, the call has called each probe once
that stands below the check behind no cache, as often as it stands there, and each of these calls has
come to an answer or a panic; it has called no other. And it has changed no cache. -/
theorem reaches_each_once (run call : List Move) {id : JobId} {i : Nat} {name : String}
    {scope : ScopeId} {c : Check} {job : Job} {r : Reply} :
    let s := (ofTree (some t) before).moves run
    let m := (s.moves call).machine
    (id, .call name scope (.fresh c)) ∈ s.machine.jobs → m.jobs[i]? = some (id, job) →
    m.world.cause? scope = none → (job.step id m.world).1 = .finished r →
      ReachesOnce id c (s.stepsOf id call ++ [(m, job)]) := by
  intro s m asked found live finished
  obtain ⟨calls, flight, rfl, sofar⟩ :=
    ahead_of_moves built before asked (List.mem_of_getElem? found) live
  constructor
  case calls =>
    intro edge
    have taken := flight.step_crossed live edge
    rw [ahead_of_finished finished, List.append_nil] at taken
    rw [List.flatMap_append, List.flatMap_singleton]
    exact (taken.append_left _).trans (sofar edge)
  case counted =>
    intro p _ edge probe
    exact p.2.step_at edge id p.1.world probe
  case caches =>
    intro p listed
    have call : ∃ flight, p.2 = .call name scope flight := by
      rcases List.mem_append.mp listed with before' | last
      · exact calls p before'
      · exact ⟨flight, congrArg Prod.snd (List.mem_singleton.mp last)⟩
    obtain ⟨f, call⟩ := call
    rw [call]
    exact f.step_caches scope p.1.world

end

/-- A probe panics under a debounced check, and its sibling group calls a slow one twice, of which
there is one more behind a cache. -/
theorem reaches_each_once_shared :
    let panics : Probe := ⟨"p", "p", ⟨[], .panic⟩, []⟩
    let slow : Probe := ⟨"q", "q", ⟨[⟨some 40, true⟩], .outcome (.ok .healthy)⟩, []⟩
    let b : Blueprint := .group "g" [.debounced 1 (.probe panics), .cached 100 (.probe slow),
      .group "h" [.probe slow, .probe slow]]
    let c : Check := .group "g" [.debounced 0 1 (.probe panics), .cached 0 100 (.probe slow),
      .group "h" [.probe slow, .probe slow]]
    let run : List Move := [.begin (.check .root {})]
    let call : List Move := [.turn 0, .turn 0, .turn 0, .pass 40]
    ∃ t job, ofBlueprint? b = some t ∧
      let s := (ofTree (some t) []).moves run
      let m := (s.moves call).machine
      m.jobs[0]? = some (0, job) ∧ ReachesOnce 0 c (s.stepsOf 0 call ++ [(m, job)]) ∧
        c.reached = [(["p"], panics), (["h", "q"], slow), (["h", "q"], slow)] ∧
        (m.takeTurn 0).world.callsOf "q" = ⟨2, 2⟩ := by
  intro panics slow b c run call
  have asked : (ofBlueprint? b).map (fun t => ((ofTree (some t) []).moves run).machine.jobs[0]?) =
      some (some (0, .call "g" 1 (.fresh c))) := by rfl
  have last : (ofBlueprint? b).map (fun t =>
      let m := (((ofTree (some t) []).moves run).moves call).machine
      ((m.jobs[0]?).map fun p => (p.1, (p.2.step 0 m.world).1 matches .finished _),
        m.world.cause? 1, (m.takeTurn 0).world.callsOf "q")) =
      some (some (0, true), none, ⟨2, 2⟩) := by decide +kernel
  cases built : ofBlueprint? b with
  | none => simp [built] at asked
  | some t =>
    simp only [built, Option.map_some, Option.some.injEq, Prod.mk.injEq] at asked last
    obtain ⟨first, live, counted⟩ := last
    obtain ⟨⟨id, job⟩, found, same⟩ := Option.map_eq_some_iff.mp first
    obtain ⟨rfl, finished⟩ := Prod.mk.inj same
    cases turn : (job.step 0 (((ofTree (some t) []).moves run).moves call).machine.world).1 with
    | going | gone =>
      rw [turn] at finished
      cases finished
    | finished r =>
      exact ⟨t, job, rfl, found, reaches_each_once built [] run call (List.mem_of_getElem? asked)
        found live turn, rfl, counted⟩

end Scenario.Session

end HealthTree
