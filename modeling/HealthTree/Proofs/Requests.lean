import HealthTree.Proofs.GroupRun
import HealthTree.Proofs.Lighter
import HealthTree.Proofs.Marks
import HealthTree.Proofs.Nesting
import HealthTree.Proofs.Steps
import HealthTree.Proofs.Ticks

/-!
# Refreshes that are asked for

A refresh that a caller or a start asks for waits for the lock of its cache, calls the inner check,
and commits what the call has come to. Between its steps anything may happen: its scope may end, or
that of its call, and other refreshes of the cache come and go.

How far it has come after some steps is told by its `Stage`: it has called nothing yet, or it has
made one call, which goes on (`Called`). A step then comes to one of five things
(`Machine.RefreshStep`, `Stage.step`). The refresh is over: it was interrupted, or the outcome of
its one call is committed. Or it waits; or its call goes on; or the inner check has panicked. Each
says when it can be, so a refresh is put off for no other reason than that another comes first, or
that its call may still come to something.

When half the interval is over the call is cut off. But the inner check may be ready to go on at
that instant too, and be seen first; then what it answers by that is its outcome. So of a call that
is over in time or at that instant the outcome is its own, and a missed deadline is that of one
which has not answered.
-/

namespace HealthTree

/-- A step of the job leaves the states of caches as they are, and every series but those of hidden
failures. -/
def Job.Spares (id : JobId) (w : World) (job : Job) : Prop :=
  (job.step id w).2.2.states = w.states ∧ w.metrics.Agree (job.step id w).2.2.metrics

/-- The refresh that a step leaves unfinished, if it does: its cache, its scope and what it is for. It
waits for the lock, or its call goes on. -/
def JobTurn.pending? : JobTurn → Option (Nat × ScopeId × Purpose)
  | .going (.refresh _ _ _ .arriving) => none
  | .going (.refresh slot scope purpose _) => some (slot, scope, purpose)
  | .going _ | .finished _ | .gone => none

theorem JobTurn.pending?_eq_some {t : JobTurn} {slot : Nat} {scope : ScopeId} {purpose : Purpose}
    (pending : t.pending? = some (slot, scope, purpose)) :
    ∃ phase, phase ≠ .arriving ∧ t = .going (.refresh slot scope purpose phase) := by
  cases t with
  | finished | gone => cases pending
  | going job =>
    cases job with
    | refresh there own why phase =>
      refine ⟨phase, ?_, ?_⟩
      · rintro rfl
        cases pending
      · cases phase <;> cases pending <;> rfl
    | call | loop | work | watch | sleep => cases pending

/-- The fault that a refresh answers a caller with who forced it, if it is over. -/
def JobTurn.answer? : JobTurn → Option (Option Fault)
  | .finished (.refreshed fault) => some fault
  | .finished _ | .going _ | .gone => none

/-- What puts nothing down spares caches. -/
theorem Job.spares_of_mark {id : JobId} {w : World} {job : Job} {jobs : List (JobId × Job)}
    {held : List ScopeId} (sheltered : w.Sheltered jobs held) (mem : (id, job) ∈ jobs)
    (none : job.mark? id w = none) : job.Spares id w := by
  constructor
  · have nothing : job.refreshed? id w = Option.none := by
      by_contra some
      obtain ⟨⟨slot, o⟩, refreshed⟩ := Option.ne_none_iff_exists'.mp some
      have marked := Job.refreshed_of_mark sheltered mem slot
      rw [none, refreshed] at marked
      simp [Option.filter] at marked
    rw [Job.step_states sheltered mem, nothing]
    rfl
  · have agree := job.step_metrics id w
    rw [none] at agree
    exact agree

/-- What a step of a refresh does whose scope has ended. -/
theorem Job.spares_of_ended {id : JobId} {w : World} {jobs : List (JobId × Job)}
    {held : List ScopeId} (sheltered : w.Sheltered jobs held) {slot : Nat} {scope : ScopeId}
    {purpose : Purpose} {phase : Phase} (mem : (id, .refresh slot scope purpose phase) ∈ jobs)
    (ended : w.cause? scope ≠ none) : (Job.refresh slot scope purpose phase).Spares id w := by
  apply Job.spares_of_mark sheltered mem
  by_contra some
  obtain ⟨k, made⟩ := Option.ne_none_iff_exists'.mp some
  cases k with
  | committed there name why o =>
    obtain ⟨own, phase, same, live⟩ := Job.live_of_committed (sheltered.scopes _ mem) made
    cases same
    exact ended live
  | skipped there name =>
    obtain ⟨own, c, same, -⟩ := Job.takes_of_skipped made
    cases same

namespace Machine

/-- **What every machine of a run is like**, as far as a refresh depends on it. -/
structure Orderly (m : Machine) (held : List ScopeId) : Prop where
  locked : m.Locked
  sheltered : m.Sheltered held
  nested : m.Nested
  spaced : m.world.Spaced

variable {m : Machine} {held : List ScopeId} {id : JobId} {slot : Nat} {scope : ScopeId}
  {purpose : Purpose} {job : Job}

/-- **A step leaves a refresh unfinished only while its scope is live**, and commits nothing then. -/
theorem Orderly.unfinished (orderly : m.Orderly held) (mem : (id, job) ∈ m.jobs)
    (pending : (job.step id m.world).1.pending? = some (slot, scope, purpose)) :
    m.world.cause? scope = none ∧ job.Spares id m.world := by
  obtain ⟨phase, begun, going⟩ := JobTurn.pending?_eq_some pending
  cases Job.step_goesOn going with
  | next => exact absurd rfl begun
  | queued cached waits =>
    refine ⟨World.live_of_waits waits, ?_⟩
    apply Job.spares_of_mark orderly.sheltered mem
    simp only [Job.mark?, cached, Option.bind_some, waits]
  | @calling _ c _ limit _ _ flight _ w₁ cached calls still world =>
    have alive : w₁.cause? limit = none := (World.live_of_still still).1
    constructor
    · by_contra isOver
      exact orderly.sheltered.limit_ended orderly.nested mem isOver calls alive
    · apply Job.spares_of_mark orderly.sheltered mem
      simp [Job.mark?, cached, calls, still, Turn.outcome?]

end Machine

/-! ## The one call that a refresh makes -/

namespace Job

/-- The machines in which one of these steps of a refresh calls the inner check. -/
def begun (id : JobId) (steps : List (Machine × Job)) : List Machine :=
  (steps.filter fun p => p.2.limit?.isNone && (p.2.inside id p.1.world).isSome).map (·.1)

/-- The scope and the world of each step in which a call of the inner check goes on. -/
def gone (id : JobId) (steps : List (Machine × Job)) : List (ScopeId × World) :=
  steps.filterMap fun p => (p.2.inside id p.1.world).map fun q => (q.1, q.2.2)

variable {id : JobId} {steps : List (Machine × Job)} {m : Machine} {job : Job}

/-- A step in which no call is made adds to neither. -/
theorem begun_idle (idle : job.inside id m.world = none) :
    begun id (steps ++ [(m, job)]) = begun id steps ∧ gone id (steps ++ [(m, job)]) = gone id steps := by
  constructor
  · simp [begun, List.filter_append, idle]
  · simp [gone, idle]

/-- **Steps that do not go on with any call have begun none.** -/
theorem begun_of_gone (none : gone id steps = []) : begun id steps = [] := by
  unfold begun
  rw [List.map_eq_nil_iff, List.filter_eq_nil_iff]
  intro p mem begins
  rw [Bool.and_eq_true] at begins
  have idle := List.filterMap_eq_nil_iff.mp none p mem
  rw [Option.map_eq_none_iff] at idle
  simp [idle] at begins

end Job

/-- **These steps of a refresh make one call of its inner check**, and it has come to this. The call
was begun in one machine only, when the scope was live and no refresh of the cache was under way, and
it is made under a scope that comes from that of the refresh and ends after half the interval. -/
structure Called (w : World) (id : JobId) (slot : Nat) (c : Cache) (scope : ScopeId)
    (steps : List (Machine × Job)) (first : Machine) (limit : ScopeId) (t : Turn) : Prop where
  once : Job.begun id steps = [first]
  live : first.world.cause? scope = none
  alone : first.refreshing slot = false
  comes : w.scopes.parent? limit = some scope
  bound : w.scopes.deadline? limit =
    Scopes.earlier (w.scopes.deadline? scope) (some (first.now + c.limit))
  under : ∀ p ∈ Job.gone id steps, p.1 = limit
  turn : (Flight.fresh c.inner).through limit ((Job.gone id steps).map (·.2)) = t

namespace Called

variable {w w' : World} {id : JobId} {slot : Nat} {c c' : Cache} {scope limit : ScopeId}
  {steps : List (Machine × Job)} {first m : Machine} {t : Turn} {job : Job}

theorem of_make (called : Called w id slot c scope steps first limit t) (same : c'.make = c.make) :
    Called w id slot c' scope steps first limit t := by
  have inner : c'.inner = c.inner := congrArg Prod.fst same
  have interval : c'.interval = c.interval := congrArg Prod.snd same
  have half : c'.limit = c.limit := by rw [Cache.limit, Cache.limit, interval]
  obtain ⟨once, live, alone, comes, bound, under, turn⟩ := called
  exact ⟨once, live, alone, comes, half ▸ bound, under, inner ▸ turn⟩

/-- Whatever happens next, the call has been made. -/
theorem after (called : Called w id slot c scope steps first limit t)
    (known : scope < w.scopes.next) (after : w.After w') :
    Called w' id slot c scope steps first limit t := by
  obtain ⟨once, live, alone, comes, bound, under, turn⟩ := called
  have there := Scopes.lt_next_of_parent comes
  refine ⟨once, live, alone, ?_, ?_, under, turn⟩
  · rw [after.comes limit there]
    exact comes
  · rw [after.deadline limit there, after.deadline scope known]
    exact bound

/-- **While its scope is live a refresh has one reason to cut its call off**, that half the interval
is over. -/
theorem ended_iff (called : Called w id slot c scope steps first limit t)
    (below : w.scopes.Below scope limit) (live : w.cause? scope = none) :
    w.cause? limit ≠ none ↔ first.now + c.limit ≤ w.now := by
  have alive := mt Scopes.cause?_ne_none.mpr (not_not.mpr live)
  push Not at alive
  obtain ⟨uncancelled, ahead⟩ := alive
  have bound := called.bound
  constructor
  · intro isOver
    rcases Scopes.cause?_ne_none.mp isOver with cancelled | ⟨d, deadline, passed⟩
    · exact absurd (below.cancelled cancelled) uncancelled
    · rw [deadline] at bound
      cases own : w.scopes.deadline? scope with
      | none =>
        rw [own] at bound
        cases bound
        exact passed
      | some d' =>
        rw [own] at bound
        have later := ahead d' own
        simp only [Scopes.earlier, Option.some.injEq] at bound
        omega
  · intro passed
    apply Scopes.cause?_ne_none.mpr
    right
    cases own : w.scopes.deadline? scope with
    | none =>
      rw [own] at bound
      exact ⟨_, bound, passed⟩
    | some d' =>
      rw [own] at bound
      exact ⟨_, bound, Nat.le_trans (Nat.min_le_right _ _) passed⟩

/-- A step in which the call does not go on. -/
theorem idle (called : Called w id slot c scope steps first limit t)
    (idle : job.inside id m.world = none) :
    Called w id slot c scope (steps ++ [(m, job)]) first limit t := by
  obtain ⟨begun, gone⟩ := @Job.begun_idle id steps m job idle
  obtain ⟨once, live, alone, comes, bound, under, turn⟩ := called
  exact ⟨begun.trans once, live, alone, comes, bound, gone ▸ under, gone ▸ turn⟩

/-- A step in which the call goes on. -/
theorem goOn {flight : Flight}
    (called : Called m.world id slot c scope steps first limit (.still flight))
    (begun : job.limit? = some (scope, limit))
    (goes : job.inside id m.world = some (limit, flight, m.world)) :
    Called m.world id slot c scope (steps ++ [(m, job)]) first limit
      (flight.step limit m.world).1 := by
  obtain ⟨once, live, alone, comes, bound, under, turn⟩ := called
  have gone : Job.gone id (steps ++ [(m, job)]) = Job.gone id steps ++ [(limit, m.world)] := by
    simp [Job.gone, goes]
  refine ⟨?_, live, alone, comes, bound, ?_, ?_⟩
  · unfold Job.begun at once ⊢
    simpa [List.filter_append, begun] using once
  · intro p listed
    rw [gone] at listed
    rcases List.mem_append.mp listed with old | new
    · exact under p old
    · exact congrArg Prod.fst (List.mem_singleton.mp new)
  · rw [gone, List.map_append]
    exact Flight.through_concat turn m.world

end Called

/-- **How far a refresh has come** that was asked for, after these steps. -/
inductive Stage (w : World) (id : JobId) (slot : Nat) (c : Cache) (scope : ScopeId)
    (purpose : Purpose) (steps : List (Machine × Job)) : Job → Prop
  /-- It has not got the lock, and has called nothing. -/
  | waits {phase : Phase} (unheld : phase = .arriving ∨ phase = .queued)
      (none : Job.gone id steps = []) :
      Stage w id slot c scope purpose steps (.refresh slot scope purpose phase)
  /-- It has the lock, and has made one call, which is not over. -/
  | calls {first : Machine} {limit : ScopeId} {flight : Flight}
      (called : Called w id slot c scope steps first limit (.still flight)) :
      Stage w id slot c scope purpose steps (.refresh slot scope purpose (.calling limit flight))

/-- **What a step of a refresh comes to** that was asked for, if these are its steps so far, this one
included. -/
inductive Machine.RefreshStep (m : Machine) (id : JobId) (slot : Nat) (c : Cache) (scope : ScopeId)
    (purpose : Purpose) (steps : List (Machine × Job)) : JobTurn × Spawned × World → Prop
  /-- Its scope has ended, and it is over: the answer is the cause. None of its steps has committed
  anything; and if the scope had ended before the lock was obtained, no call was made. -/
  | interrupted {cause : Fault} {w₁ : World} (ended : m.world.cause? scope = some cause)
      (spared : ∀ p ∈ steps, p.2.Spares id p.1.world)
      (uncalled : ∀ p ∈ steps, p.2.stake slot ≠ .holds → p.1.world.cause? scope ≠ none →
        Job.begun id steps = []) :
      RefreshStep m id slot c scope purpose steps (w₁.conclude slot c scope (some cause) purpose)
  /-- Its scope is live, and it is over: it has made one call, and the outcome of that is what the
  cache keeps, or a missed deadline if half the interval is over and the call has come to nothing.
  The answer is the fault of it. -/
  | committed {first : Machine} {limit : ScopeId} {t : Turn} {o : Outcome} {w₁ : World}
      (live : m.world.cause? scope = none)
      (called : Called w₁ id slot c scope steps first limit t)
      (outcome : t = .done o ∨
        ¬ t.Over ∧ first.now + c.limit ≤ m.now ∧ o = .error (.ofFault .deadlineExceeded))
      (state : (w₁.conclude slot c scope (Snapshot.ofOutcome o).fault purpose).2.2.states[slot]? =
        some (some (.ofOutcome o))) :
      RefreshStep m id slot c scope purpose steps
        (w₁.conclude slot c scope (Snapshot.ofOutcome o).fault purpose)
  /-- Its scope is live, and it waits: somebody has the lock, or comes first. -/
  | waits {w₁ : World} (live : m.world.cause? scope = none)
      (behind : c.holder ≠ none ∨ ∃ other, other ≠ id ∧ c.waiting.head? = some other)
      (none : Job.gone id steps = []) :
      RefreshStep m id slot c scope purpose steps
        (.going (.refresh slot scope purpose .queued), Option.none, w₁)
  /-- Its scope is live, and its call goes on; half the interval is not over. -/
  | calls {first : Machine} {limit : ScopeId} {flight : Flight} {w₁ : World}
      (live : m.world.cause? scope = none)
      (called : Called w₁ id slot c scope steps first limit (.still flight))
      (early : m.now < first.now + c.limit) :
      RefreshStep m id slot c scope purpose steps
        (.going (.refresh slot scope purpose (.calling limit flight)), none, w₁)
  /-- The inner check has panicked. -/
  | panics {first : Machine} {limit : ScopeId} {w₁ : World}
      (called : Called w₁ id slot c scope steps first limit .panicked) :
      RefreshStep m id slot c scope purpose steps
        (w₁.refreshTurn slot c scope purpose limit .panicked)

namespace Stage

variable {w w' : World} {id : JobId} {slot : Nat} {c c' : Cache} {scope limit : ScopeId}
  {purpose : Purpose} {phase : Phase} {steps : List (Machine × Job)} {m : Machine} {job : Job}

theorem of_make (stage : Stage w id slot c scope purpose steps job) (same : c'.make = c.make) :
    Stage w id slot c' scope purpose steps job := by
  cases stage with
  | waits unheld none => exact .waits unheld none
  | calls called => exact .calls (called.of_make same)

theorem after (stage : Stage w id slot c scope purpose steps job) (known : scope < w.scopes.next)
    (after : w.After w') : Stage w' id slot c scope purpose steps job := by
  cases stage with
  | waits unheld none => exact .waits unheld none
  | calls called => exact .calls (called.after known after)

/-- **Where a step leaves a refresh unfinished**, it has come as far as the step says. -/
theorem next {r : JobTurn × Spawned × World}
    (step : m.RefreshStep id slot c scope purpose steps r)
    (pending : r.1.pending? = some (slot, scope, purpose)) (going : r.1 = .going job) :
    Stage r.2.2 id slot c scope purpose steps job := by
  cases step with
  | interrupted | committed =>
    obtain ⟨next, rest, rfl⟩ := World.conclude_going _ _ _ _ _ _ going
    rw [going] at pending
    cases pending
  | waits live behind none =>
    cases going
    exact .waits (.inr rfl) none
  | calls live called early =>
    cases going
    exact .calls called
  | panics called => cases purpose <;> cases going

/-! ## One step -/

variable {held : List ScopeId} {flight : Flight} {w₁ : World}

/-- **A refresh that gets the lock begins a call of its inner check**, which can go on: half the
interval is not over, and nothing else has ended it. -/
theorem begins (orderly : m.Orderly held) (mem : (id, .refresh slot scope purpose phase) ∈ m.jobs)
    (cached : m.world.cache? slot = some c) (unheld : phase = .arriving ∨ phase = .queued)
    (none : Job.gone id steps = [])
    (calls : m.world.attempt id slot c scope phase = .calls limit flight w₁)
    (live : m.world.cause? scope = .none) :
    m.now < m.now + c.limit ∧ w₁.cause? limit = .none ∧
      Called w₁ id slot c scope (steps ++ [(m, .refresh slot scope purpose phase)]) m limit
        (flight.step limit w₁).1 := by
  have known : scope < m.world.scopes.next := orderly.sheltered.scopes _ mem scope rfl
  have later := (m.world.attempt_aside id slot c scope phase).toLater
  rw [calls] at later
  replace later : m.world.Later w₁ := later
  have free : m.refreshing slot = false := by
    refine Bool.eq_false_iff.mpr fun refreshing => ?_
    exact orderly.locked.held_of_refreshing cached refreshing (World.attempt_unheld unheld calls)
  have positive : 0 < c.limit := by
    have interval := orderly.spaced.interval c cached
    unfold Cache.limit
    omega
  obtain ⟨fresh, rfl, scopes⟩ : limit = m.world.scopes.next ∧ flight = .fresh c.inner ∧
      w₁.scopes = (m.world.scopes.withTimeout scope m.world.now c.limit).2 := by
    rcases World.attempt_calls calls with ⟨rfl, -⟩ | fresh
    · rcases unheld with same | same <;> cases same
    · exact fresh
  have alive : w₁.cause? limit = .none := by
    rw [World.cause?, scopes, later.now, fresh]
    refine Scopes.derive_cause?_eq_none.mpr ⟨live, ?_⟩
    rintro d ⟨⟩
    omega
  have goes : (Job.refresh slot scope purpose phase).inside id m.world =
      some (limit, .fresh c.inner, w₁) := by
    simp [Job.inside, cached, calls, World.goesOn, alive]
  have limitless : (Job.refresh slot scope purpose phase).limit? = .none := by
    rcases unheld with rfl | rfl <;> rfl
  have gone : Job.gone id (steps ++ [(m, .refresh slot scope purpose phase)]) = [(limit, w₁)] := by
    simp [Job.gone, goes, show steps.filterMap _ = [] from none]
  refine ⟨Nat.lt_add_of_pos_right positive, alive, ?_, live, free, ?_, ?_, ?_, ?_⟩
  · have before := Job.begun_of_gone none
    unfold Job.begun at before ⊢
    simp [List.filter_append, before, limitless, goes]
  · rw [scopes, fresh]
    exact Scopes.derive_parent? ..
  · rw [(World.After.of_later later).deadline scope known, scopes, fresh]
    exact Scopes.derive_deadline? ..
  · intro p listed
    rw [gone] at listed
    exact congrArg Prod.fst (List.mem_singleton.mp listed)
  · rw [gone]
    exact @Flight.through_concat _ _ _ [] rfl w₁

/-- **A refresh calls its inner check once it has the lock**, for half the interval at most, and then
goes on with that call. At the end of that time it may go on once more, or not. -/
theorem call (orderly : m.Orderly held)
    (stage : Stage m.world id slot c scope purpose steps (.refresh slot scope purpose phase))
    (mem : (id, .refresh slot scope purpose phase) ∈ m.jobs) (cached : m.world.cache? slot = some c)
    (calls : m.world.attempt id slot c scope phase = .calls limit flight w₁)
    (live : m.world.cause? scope = none) :
    ∃ first, (w₁.cause? limit = none ∧ m.now < first.now + c.limit ∨
        w₁.cause? limit = some .deadlineExceeded ∧ first.now + c.limit ≤ m.now) ∧
      Called w₁ id slot c scope (steps ++ [(m, .refresh slot scope purpose phase)]) first limit
        (if w₁.goesOn limit flight then (flight.step limit w₁).1 else .still flight) := by
  have below := orderly.sheltered.below mem calls
  cases stage with
  | waits unheld none =>
    obtain ⟨early, alive, called⟩ := begins orderly mem cached unheld none calls live
    have goes : w₁.goesOn limit flight = true := by simp [World.goesOn, alive]
    exact ⟨m, .inl ⟨alive, early⟩, (if_pos goes).symm ▸ called⟩
  | @calls first limit flight called =>
    simp only [World.attempt, Attempt.calls.injEq] at calls
    obtain ⟨rfl, rfl, rfl⟩ := calls
    refine ⟨first, ?_, ?_⟩
    · by_cases late : first.now + c.limit ≤ m.now
      · obtain ⟨cause, ended⟩ :=
          Option.ne_none_iff_exists'.mp ((called.ended_iff below live).mpr late)
        exact .inr ⟨below.cause ended live ▸ ended, late⟩
      · refine .inl ⟨?_, Nat.lt_of_not_le late⟩
        by_contra isOver
        exact late ((called.ended_iff below live).mp isOver)
    · have inside : (Job.refresh slot scope purpose (.calling limit flight)).inside id m.world =
          if m.world.goesOn limit flight then some (limit, flight, m.world) else none := by
        simp only [Job.inside, cached, Option.bind_some, World.attempt]
      cases goes : m.world.goesOn limit flight with
      | true => exact called.goOn rfl (inside.trans (if_pos goes))
      | false => exact called.idle (inside.trans (if_neg (by simp [goes])))

/-- **A refresh waits because somebody else comes first.** -/
theorem behind (locked : m.Locked) (mem : (id, .refresh slot scope purpose phase) ∈ m.jobs)
    (cached : m.world.cache? slot = some c)
    (waits : m.world.attempt id slot c scope phase = .waits w₁) :
    c.holder ≠ none ∨ ∃ other, other ≠ id ∧ c.waiting.head? = some other := by
  have stands : id ∈ c.waiting ↔ phase.stake = .waits := by
    have gives := (locked.agrees _ mem slot _ (World.locks_at cached)).2
    rwa [Job.stake, Stake.at_self] at gives
  cases holder : c.holder with
  | some other => exact .inl (Option.some_ne_none other)
  | none =>
    right
    rcases World.attempt_waits waits with ⟨rfl, busy⟩ | ⟨rfl, -, second⟩
    · have inLine : c.waiting ≠ [] := by
        intro empty
        simp [Cache.isIdle, holder, empty] at busy
      obtain ⟨other, rest, line⟩ := List.exists_cons_of_ne_nil inLine
      refine ⟨other, ?_, by rw [line]; rfl⟩
      rintro rfl
      cases stands.mp (line ▸ List.mem_cons_self)
    · obtain ⟨other, rest, line⟩ := List.exists_cons_of_ne_nil
        (List.ne_nil_of_mem (stands.mpr rfl))
      refine ⟨other, ?_, by rw [line]; rfl⟩
      rintro rfl
      simp [holder, line] at second

/-- An outcome that is committed is what the cache keeps, and its fault the answer. -/
theorem committed {first : Machine} {t : Turn} {o : Outcome} (known : scope < m.world.scopes.next)
    (cached : m.world.cache? slot = some c) (live : m.world.cause? scope = none)
    (later : m.world.Later w₁) (states : w₁.states = m.world.states)
    (called : Called w₁ id slot c scope steps first limit t)
    (outcome : t = .done o ∨
      ¬ t.Over ∧ first.now + c.limit ≤ m.now ∧ o = .error (.ofFault .deadlineExceeded)) :
    m.RefreshStep id slot c scope purpose steps (w₁.finishRefresh slot c scope purpose o) := by
  have alive : w₁.cause? scope = none := (later.cause? known).trans live
  have known₁ := Nat.lt_of_lt_of_le known later.next_le
  simp only [World.finishRefresh, alive, ← Snapshot.fault_ofOutcome]
  refine .committed live (called.after known₁ ?_) outcome ?_
  · exact .of_later ((World.Aside.commit w₁ slot c o).trans (.unlock _ slot)).toLater
  · rw [World.conclude_states, World.states_unlock, World.states_commit, List.getElem?_modify_eq,
      states, World.states_at cached]
    rfl

/-- A call that is over tells what its refresh comes to. -/
theorem concluded {first : Machine} {t : Turn} (known : scope < m.world.scopes.next)
    (cached : m.world.cache? slot = some c) (live : m.world.cause? scope = none)
    (later : m.world.Later w₁) (states : w₁.states = m.world.states)
    (called : Called w₁ id slot c scope steps first limit t) (isOver : t.Over) :
    m.RefreshStep id slot c scope purpose steps
      (w₁.refreshTurn slot c scope purpose limit t) := by
  cases t with
  | still => cases isOver
  | done o => exact committed known cached live later states called (.inl rfl)
  | panicked => exact .panics called

/-- A refresh whose scope has ended begins no call. -/
theorem uncalled (orderly : m.Orderly held)
    (mem : (id, .refresh slot scope purpose phase) ∈ m.jobs) (ended : m.world.cause? scope ≠ none)
    (unheld : phase = .arriving ∨ phase = .queued) :
    (Job.refresh slot scope purpose phase).inside id m.world = none := by
  by_contra some
  obtain ⟨⟨limit, flight, w₁⟩, made⟩ := Option.ne_none_iff_exists'.mp some
  obtain ⟨rfl, -⟩ := Job.inside_of_ended orderly.nested orderly.sheltered mem ended made
  rcases unheld with same | same <;> cases same

/-- A refresh whose scope has ended is interrupted, whatever else its step does. -/
theorem interrupted (orderly : m.Orderly held)
    (stage : Stage m.world id slot c scope purpose steps (.refresh slot scope purpose phase))
    (mem : (id, .refresh slot scope purpose phase) ∈ m.jobs)
    (lived : ∀ p ∈ steps, p.1.world.cause? scope = none)
    (spared : ∀ p ∈ steps, p.2.Spares id p.1.world) {cause : Fault}
    (ended : m.world.cause? scope = some cause) (w₁ : World) :
    m.RefreshStep id slot c scope purpose (steps ++ [(m, .refresh slot scope purpose phase)])
      (w₁.conclude slot c scope (some cause) purpose) := by
  have isOver : m.world.cause? scope ≠ none := by simp [ended]
  refine .interrupted ended ?_ ?_
  · intro p listed
    rcases List.mem_append.mp listed with old | new
    · exact spared p old
    · cases List.mem_singleton.mp new
      exact Job.spares_of_ended orderly.sheltered mem isOver
  · intro p listed unheld ended'
    rcases List.mem_append.mp listed with old | new
    · exact absurd (lived p old) ended'
    · cases List.mem_singleton.mp new
      cases stage with
      | waits waiting none =>
        have idle := uncalled orderly mem isOver waiting
        exact (Job.begun_idle idle).1.trans (Job.begun_of_gone none)
      | calls => exact absurd (Stake.at_self slot _) unheld

/-- **A refresh whose scope is live has come this far** with a step in which it calls its inner
check. -/
theorem called (orderly : m.Orderly held)
    (stage : Stage m.world id slot c scope purpose steps (.refresh slot scope purpose phase))
    (mem : (id, .refresh slot scope purpose phase) ∈ m.jobs) (cached : m.world.cache? slot = some c)
    (attempted : m.world.attempt id slot c scope phase = .calls limit flight w₁)
    (live : m.world.cause? scope = none) :
    m.RefreshStep id slot c scope purpose (steps ++ [(m, .refresh slot scope purpose phase)])
      (w₁.goOnRefresh slot c scope purpose limit flight) := by
  have known : scope < m.world.scopes.next := orderly.sheltered.scopes _ mem scope rfl
  have later := (m.world.attempt_aside id slot c scope phase).toLater
  have states := m.world.attempt_states id slot c scope phase
  rw [attempted] at later states
  replace later : m.world.Later w₁ := later
  replace states : w₁.states = m.world.states := states
  have known₁ := Nat.lt_of_lt_of_le known later.next_le
  have stepped := flight.step_later limit w₁
  have states' : (flight.step limit w₁).2.states = m.world.states := by
    simpa [World.states] using states
  obtain ⟨first, time, called⟩ := stage.call orderly mem cached attempted live
  have called' := called.after known₁ (.of_later stepped)
  rw [World.goOnRefresh_eq]
  have cases := w₁.callInner_cases limit flight
  generalize w₁.callInner limit flight = r at cases ⊢
  cases cases with
  | steps open' =>
    have early : m.now < first.now + c.limit :=
      time.elim And.right fun missed => by cases open'.symm.trans missed.1
    rw [if_pos (by simp [World.goesOn, open'])] at called'
    cases turn : (flight.step limit w₁).1 with
    | still flight' =>
      rw [turn] at called'
      exact .calls live called' early
    | panicked | done o =>
      rw [turn] at called'
      exact concluded known cached live (later.trans stepped) states' called' trivial
  | lastTurn ended grace begun =>
    obtain ⟨missed, late⟩ :=
      time.resolve_left fun early => by cases ended.symm.trans early.1
    cases ended.symm.trans missed
    rw [if_pos (by simp [World.goesOn, grace, begun])] at called'
    cases turn : (flight.step limit w₁).1 with
    | still flight' =>
      rw [turn] at called'
      exact committed known cached live (later.trans stepped) states' called'
        (.inr ⟨not_false, late, rfl⟩)
    | panicked | done o =>
      rw [turn] at called'
      exact concluded known cached live (later.trans stepped) states' called' trivial
  | cut ended still =>
    obtain ⟨missed, late⟩ :=
      time.resolve_left fun early => by cases ended.symm.trans early.1
    cases ended.symm.trans missed
    rw [if_neg (by simp [still])] at called
    exact committed known cached live later states called (.inr ⟨not_false, late, rfl⟩)

/-- **One whose scope has ended is interrupted** with such a step, unless its inner check panics in
that. -/
theorem called_ended (orderly : m.Orderly held)
    (stage : Stage m.world id slot c scope purpose steps (.refresh slot scope purpose phase))
    (mem : (id, .refresh slot scope purpose phase) ∈ m.jobs) (cached : m.world.cache? slot = some c)
    (lived : ∀ p ∈ steps, p.1.world.cause? scope = none)
    (spared : ∀ p ∈ steps, p.2.Spares id p.1.world)
    (attempted : m.world.attempt id slot c scope phase = .calls limit flight w₁) {cause : Fault}
    (ended : m.world.cause? scope = some cause) :
    m.RefreshStep id slot c scope purpose (steps ++ [(m, .refresh slot scope purpose phase)])
      (w₁.goOnRefresh slot c scope purpose limit flight) := by
  have known : scope < m.world.scopes.next := orderly.sheltered.scopes _ mem scope rfl
  have isOver : m.world.cause? scope ≠ none := by simp [ended]
  have later := (m.world.attempt_aside id slot c scope phase).toLater
  rw [attempted] at later
  replace later : m.world.Later w₁ := later
  have ended₁ : (w₁.callInner limit flight).2.cause? scope = some cause :=
    (World.callInner_cause? ..).trans ((later.cause? known).trans ended)
  rw [World.goOnRefresh_eq]
  cases turn : (w₁.callInner limit flight).1 with
  | still next =>
    have cut := orderly.sheltered.limit_ended orderly.nested mem isOver attempted
    exact absurd (World.live_of_still turn).1 cut
  | done o =>
    simp only [World.refreshTurn, World.finishRefresh, ended₁]
    exact interrupted orderly stage mem lived spared ended _
  | panicked =>
    -- only a call that is under way gets one more turn
    obtain ⟨goes, stepped⟩ := World.goesOn_of_panicked turn
    have made : (Job.refresh slot scope purpose phase).inside id m.world =
        some (limit, flight, w₁) := by
      simp only [Job.inside, cached, Option.bind_some, attempted, goes, if_true]
    obtain ⟨rfl, rfl, -⟩ := Job.inside_of_ended orderly.nested orderly.sheltered mem isOver made
    cases stage with
    | waits unheld => rcases unheld with same | same <;> cases same
    | calls called =>
      have under : (Job.refresh slot scope purpose (.calling limit flight)).limit? =
          some (scope, limit) := rfl
      have panicked := called.goOn under made
      rw [stepped] at panicked
      exact .panics (panicked.after known (.of_later (World.callInner_later ..)))

/-- **What a step of a refresh comes to**, however far it has come, if its scope was live so far and
its steps have committed nothing. -/
theorem step (orderly : m.Orderly held) (stage : Stage m.world id slot c scope purpose steps job)
    (mem : (id, job) ∈ m.jobs) (cached : m.world.cache? slot = some c)
    (lived : ∀ p ∈ steps, p.1.world.cause? scope = none)
    (spared : ∀ p ∈ steps, p.2.Spares id p.1.world) :
    m.RefreshStep id slot c scope purpose (steps ++ [(m, job)]) (job.step id m.world) := by
  obtain ⟨phase, rfl⟩ : ∃ phase, job = .refresh slot scope purpose phase := by
    cases stage <;> exact ⟨_, rfl⟩
  simp only [Job.step, cached, World.stepRefresh_eq]
  cases attempted : m.world.attempt id slot c scope phase with
  | refused cause w₁ =>
    exact interrupted orderly stage mem lived spared (World.attempt_refused attempted).2 w₁
  | waits w₁ =>
    refine .waits (World.live_of_waits attempted) (behind orderly.locked mem cached attempted) ?_
    have idle : (Job.refresh slot scope purpose phase).inside id m.world = none := by
      simp only [Job.inside, cached, Option.bind_some, attempted]
    rw [(Job.begun_idle idle).2]
    cases stage with
    | waits _ none => exact none
    | calls => cases attempted
  | calls limit flight w₁ =>
    cases ended : m.world.cause? scope with
    | some cause => exact called_ended orderly stage mem cached lived spared attempted ended
    | none => exact called orderly stage mem cached attempted ended

end Stage

end HealthTree
