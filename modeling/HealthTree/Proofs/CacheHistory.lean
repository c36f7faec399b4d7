import HealthTree.Proofs.Limits
import HealthTree.Proofs.Locks

/-!
# What a cache serves

A step of a job changes the state of a cache only when it finishes a refresh of that cache, and then
to the outcome of the refresh (`step_states`). `Session.refreshes` collects these outcomes over a
run. So in every state of every run a cache holds the outcome of the refresh that finished last, and
that is what it answers, whoever asks and under whatever scope (`serves_last_refresh`).
-/

namespace HealthTree

/-- **The outcome of the call of an inner check**, if it has one at the present instant: what it
answers in a step that it takes, and the missed deadline if its limit has ended and it has not. -/
def World.innerOutcome? (w : World) (limit : ScopeId) (flight : Flight) : Option Outcome :=
  match (if w.goesOn limit flight then (flight.step limit w).1 else .still flight) with
  | .done o => some o
  | .panicked => none
  | .still _ =>
    if (w.cause? limit).isSome then some (.error (.ofFault .deadlineExceeded)) else none

/-- **The refresh that a step of a job finishes**: its cache and its outcome. A refresh that panics,
or that finds its own scope ended, is none. -/
def Job.refreshed? (id : JobId) (w : World) : Job → Option (Nat × Outcome)
  | refresh slot scope _ phase =>
    (w.cache? slot).bind fun c =>
      match w.attempt id slot c scope phase with
      | .calls limit flight w =>
        if (w.cause? scope).isSome then none
        else (w.innerOutcome? limit flight).map (slot, ·)
      | .refused _ _ | .waits _ => none
  | call _ _ _ | loop _ _ | work _ _ | watch _ _ | sleep _ => none

/-- The states of the caches after a refresh. -/
def World.statesAfter (w : World) : Option (Nat × Outcome) → List (Option Snapshot)
  | some (slot, o) => w.states.modify slot fun _ => some (.ofOutcome o)
  | none => w.states

namespace World

variable {w : World} {slot : Nat} {c : Cache} {scope limit : ScopeId} {purpose : Purpose}

theorem states_at (cached : w.cache? slot = some c) : w.states[slot]? = some c.state := by
  rw [states, List.getElem?_map, show w.caches[slot]? = some c from cached]
  rfl

/-- An outcome becomes the state of the cache, unless the scope of the refresh has ended. -/
theorem finishRefresh_states (o : Outcome) :
    (w.finishRefresh slot c scope purpose o).2.2.states =
      w.statesAfter (if (w.cause? scope).isSome then none else some (slot, o)) := by
  simp only [finishRefresh]
  cases w.cause? scope with
  | some cause =>
    rw [conclude_states, states_unlock]
    rfl
  | none =>
    rw [conclude_states, states_unlock, states_commit]
    rfl

theorem refreshTurn_states (t : Turn) :
    (w.refreshTurn slot c scope purpose limit t).2.2.states =
      w.statesAfter (if (w.cause? scope).isSome then none else t.outcome?.map (slot, ·)) := by
  cases t with
  | done o => exact finishRefresh_states o
  | still flight => simp [refreshTurn, Turn.outcome?, statesAfter]
  | panicked => cases purpose <;> simp [refreshTurn, Turn.outcome?, statesAfter]

/-- A limit that has ended under a scope that has not is a missed deadline. -/
theorem callInner_outcome? (below : w.scopes.Below scope limit) (live : w.cause? scope = none)
    (flight : Flight) :
    (w.callInner limit flight).1.outcome? = w.innerOutcome? limit flight := by
  have cases := w.callInner_cases limit flight
  unfold innerOutcome?
  generalize w.callInner limit flight = r at cases ⊢
  cases cases with
  | steps open' =>
    simp only [goesOn, open', Option.isNone_none, Bool.true_or, if_true]
    cases (flight.step limit w).1 <;> rfl
  | lastTurn ended grace begun =>
    cases below.cause ended live
    simp only [goesOn, ended, grace, begun, Bool.and_true, Bool.or_true, if_true]
    cases (flight.step limit w).1 <;> rfl
  | cut ended still =>
    cases below.cause ended live
    simp only [still, ended]
    rfl

end World

/-- **A step of a job changes the state of a cache only by finishing a refresh of it**, and then to
the outcome of the refresh. -/
theorem Job.step_states {id : JobId} {w : World} {job : Job} {jobs : List (JobId × Job)}
    {held : List ScopeId} (sheltered : w.Sheltered jobs held) (mem : (id, job) ∈ jobs) :
    (job.step id w).2.2.states = w.statesAfter (job.refreshed? id w) := by
  cases job with
  | call name scope flight => simp [Job.step, Job.refreshed?, World.statesAfter, World.states]
  | refresh slot scope purpose phase =>
    simp only [Job.step, Job.refreshed?]
    cases cached : w.cache? slot with
    | none => rfl
    | some c =>
      have before := w.attempt_states id slot c scope phase
      simp only [World.stepRefresh_eq, Option.bind_some]
      cases attempted : w.attempt id slot c scope phase with
      | refused cause w₁ =>
        rw [attempted] at before
        simp only [World.conclude_states, World.statesAfter]
        exact before
      | waits w₁ =>
        rw [attempted] at before
        exact before
      | calls limit flight w₁ =>
        rw [attempted] at before
        have same (r : Option (Nat × Outcome)) :
            (w₁.callInner limit flight).2.statesAfter r = w.statesAfter r := by
          have states : (w₁.callInner limit flight).2.states = w.states := by
            simpa [World.states, Attempt.world] using before
          cases r <;> simp only [World.statesAfter, states]
        simp only [World.goOnRefresh_eq, World.refreshTurn_states, World.callInner_cause?, same]
        cases live : w₁.cause? scope with
        | some cause => rfl
        | none => rw [World.callInner_outcome? (sheltered.below mem attempted) live]
  | loop slot scope =>
    simp only [Job.step, Job.refreshed?]
    cases w.cache? slot with
    | none => rfl
    | some c => exact w.stepLoop_states slot c scope
  | work | watch | sleep => rfl

namespace Machine

theorem takeTurn_states {m : Machine} {held : List ScopeId} (sheltered : m.Sheltered held)
    (i : Nat) :
    (m.takeTurn i).world.states =
      m.world.statesAfter ((m.jobs[i]?).bind fun p => p.2.refreshed? p.1 m.world) := by
  unfold takeTurn
  cases found : m.jobs[i]? with
  | none => rfl
  | some p =>
    obtain ⟨id, job⟩ := p
    exact Job.step_states sheltered (List.mem_of_getElem? found)

end Machine

/-- The state of one cache after a refresh. -/
theorem World.statesAfter_get (w : World) (r : Option (Nat × Outcome)) (slot : Nat) :
    (w.statesAfter r)[slot]? = (w.states[slot]?).map fun old =>
      (((r.filter (·.1 == slot)).map (·.2)).map Snapshot.ofOutcome).or old := by
  cases r with
  | none => simp [statesAfter]
  | some p =>
    obtain ⟨there, o⟩ := p
    simp only [statesAfter, List.getElem?_modify, Option.map_eq_map]
    by_cases same : there = slot
    · simp [same, Option.filter]
    · simp [same, Option.filter]

namespace Scenario.Session

/-- The refresh that a move finishes. -/
def refreshed? (s : Session) : Move → Option (Nat × Outcome)
  | .turn i => (s.machine.jobs[i]?).bind fun p => p.2.refreshed? p.1 s.machine.world
  | .begin _ | .aside _ _ | .pass _ | .grace _ => none

/-- **The outcomes of the refreshes of a cache** that a run finishes, in their order. -/
def refreshes (slot : Nat) : Session → List Move → List Outcome
  | _, [] => []
  | s, next :: rest =>
    (((s.refreshed? next).filter (·.1 == slot)).map (·.2)).toList ++
      refreshes slot (s.move next) rest

variable {known : Check → Prop} {s : Session} {held : List ScopeId}

theorem move_states (within : s.Within known held) (sheltered : s.machine.Sheltered held)
    (next : Move) :
    (s.move next).machine.world.states = s.machine.world.statesAfter (s.refreshed? next) := by
  have touches {s' : Session} (touched : ∃ held', s.Touched known held s' held') :
      s'.machine.world.states = s.machine.world.states := by
    obtain ⟨held', touches, -⟩ := touched
    exact (Machine.Touches.kept touches).states
  cases next with
  | begin c => exact touches (begin_touches within c)
  | aside name c => exact touches (setAside_touches within name c)
  | turn i => exact Machine.takeTurn_states sheltered i
  | pass | grace => rfl

/-- **A run leaves a cache in the state of the refresh that finished last**, if one has. -/
theorem moves_state (within : s.Within known held) (sheltered : s.machine.Sheltered held)
    (run : List Move) (slot : Nat) :
    (s.moves run).machine.world.states[slot]? = (s.machine.world.states[slot]?).map fun old =>
      ((s.refreshes slot run).getLast?.map Snapshot.ofOutcome).or old := by
  induction run generalizing s held with
  | nil => simp [moves, refreshes]
  | cons next rest ih =>
    obtain ⟨held', within', sheltered'⟩ := move_keep (I := fun p => p.1.Sheltered p.2)
      (fun touch sheltered => sheltered.touch touch) (fun _ _ i sheltered => sheltered.takeTurn i)
      (fun _ _ _ _ sheltered => ⟨sheltered.opened, sheltered.scopes, sheltered.limits⟩)
      within sheltered next
    have later := ih within' sheltered'
    rw [move_states within sheltered next, World.statesAfter_get] at later
    refine later.trans ?_
    rw [Option.map_map]
    refine congrArg (Option.map · _) (funext ?_)
    intro old
    simp only [Function.comp_apply, refreshes, List.getLast?_append, Option.map_or, Option.or_assoc]
    cases (s.refreshed? next).filter (·.1 == slot) <;> rfl

end Scenario.Session

/-- The job is a refresh of the cache that is under way: it has the lock, and calls the inner check
or is about to. -/
def Job.refreshing (slot : Nat) : Job → Bool
  | refresh there _ _ .granted | refresh there _ _ (.calling _ _) => there == slot
  | _ => false

theorem Job.refreshing_eq (slot : Nat) (job : Job) :
    job.refreshing slot = decide (job.stake slot = .holds) := by
  cases job with
  | refresh there scope purpose phase =>
    by_cases same : slot = there
    · subst same
      cases phase <;> simp [refreshing, stake, Phase.stake]
    · cases phase <;> simp [refreshing, stake, Stake.at, same, Ne.symm same]
  | _ => rfl

namespace Scenario.Session

open CheckTree (ofBlueprint?)

/-- **One refresh of a cache at a time, and the cache serves the one that finished last**: in every
state of every run at most one refresh is under way, the cache holds the outcome of the refresh that
finished last, and a call of the cached check answers with that outcome at once, whatever its scope,
and changes nothing; before the first refresh it answers that it is pending. -/
theorem serves_last_refresh {b : Blueprint} {t : CheckTree} (built : ofBlueprint? b = some t)
    (before : List Event) (run : List Move) {slot : Nat} {c : Cache}
    (cached : ((ofTree (some t) before).moves run).machine.world.cache? slot = some c) :
    let m := ((ofTree (some t) before).moves run).machine
    let last := ((ofTree (some t) before).refreshes slot run).getLast?
    m.jobs.countP (·.2.refreshing slot) ≤ 1 ∧
      c.state = last.map Snapshot.ofOutcome ∧
      ∀ (scope : ScopeId) (interval : Nat) (inner : Check),
        (Flight.fresh (.cached slot interval inner)).step scope m.world =
          (.done (last.getD (.error (.ofFault (.pending c.name)))), m.world) := by
  intro m last
  obtain ⟨plan, planned⟩ := CheckTree.planned_ofBlueprint built
  have within := planned.within before
  have locked := planned.locked before
  have sheltered := planned.sheltered before
  obtain ⟨_, -, locked'⟩ := moves_keep (I := fun p => p.1.Locked)
    (fun touch locked => locked.touch touch) (fun _ _ i locked => locked.takeTurn i)
    (fun _ _ _ _ locked => locked.of_world rfl rfl) within locked run
  have state : c.state = last.map Snapshot.ofOutcome := by
    have states := moves_state within sheltered run slot
    rw [World.states, List.getElem?_map, show m.world.caches[slot]? = some c from cached] at states
    obtain ⟨old, began, same⟩ := Option.map_eq_some_iff.mp states.symm
    obtain ⟨empty, there, rfl⟩ := Option.map_eq_some_iff.mp (List.getElem?_map ▸ began)
    rw [planned.assembled.empty empty (List.mem_of_getElem? there), Option.or_none] at same
    exact same.symm
  refine ⟨?_, state, ?_⟩
  · simpa only [Job.refreshing_eq] using locked'.holders_le_one cached
  · intro scope interval inner
    rw [Flight.step, Check.begin]
    simp only [show m.world.cache? slot = some c from cached, Cache.serve, state]
    cases last with
    | none => rfl
    | some o => simp [Snapshot.replay_ofOutcome]

/-- A probe that hangs is cut off after half the interval, while a second refresh waits in line:
what is served is the missed deadline. -/
theorem serves_last_refresh_cut_off :
    let b : Blueprint := .cached 10 (.probe ⟨"p", "p", ⟨[⟨none, false⟩], .panic⟩, []⟩)
    let run : List Move := [.begin (.force 0 {}), .begin (.force 0 {}), .turn 0, .turn 0, .pass 5,
      .turn 0]
    ∃ t c, ofBlueprint? b = some t ∧
      ((ofTree (some t) []).moves run).machine.world.cache? 0 = some c ∧
      c.state.map (·.fault) = some (some .deadlineExceeded) := by
  intro b run
  have missed : ((ofBlueprint? b).map fun t =>
      ((ofTree (some t) []).refreshes 0 run).map Outcome.fault?) =
      some [some .deadlineExceeded] := by decide +kernel
  have there : (ofBlueprint? b).any fun t =>
      (((ofTree (some t) []).moves run).machine.world.cache? 0).isSome := by decide +kernel
  cases built : ofBlueprint? b with
  | none => simp [built] at there
  | some t =>
    simp only [built, Option.any_some, Option.map_some, Option.some.injEq] at there missed
    obtain ⟨c, cached⟩ := Option.isSome_iff_exists.mp there
    have state := (serves_last_refresh built [] run cached).2.1
    refine ⟨t, c, rfl, cached, ?_⟩
    obtain ⟨o, last, fault⟩ := List.map_eq_singleton_iff.mp missed
    rw [state, last]
    cases o with
    | ok h => cases fault
    | error f => exact congrArg some fault

/-- A group heeds the limit of the refresh that calls it. When half the interval is over it may be
seen first, and then it is its own failure that is committed. -/
example :
    let b : Blueprint := .cached 100 (.group "g" [.probe ⟨"p", "p", ⟨[⟨none, true⟩],
      .outcome (.ok .healthy)⟩, []⟩])
    let run : List Move := [.begin (.force 0 {}), .turn 0, .turn 0, .pass 50]
    let kept := fun (given : Bool) => (ofBlueprint? b).map fun t =>
      let m := ((ofTree (some t) []).moves (run ++ [.grace given, .turn 0])).machine
      (m.world.cache? 0).map fun c => c.serve.fault?
    kept true = some (some (some (.aggregate 1 1 .deadlineExceeded))) ∧
      kept false = some (some (some .deadlineExceeded)) := by
  decide +kernel

end Scenario.Session

end HealthTree
