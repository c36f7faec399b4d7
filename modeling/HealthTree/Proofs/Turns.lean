import HealthTree.Proofs.Refresh

/-!
# What one step of a job does to the world

A step of a job is a step of one call at most, the one it makes or the one its refresh makes of the
inner check (`Job.inside`). What that call does to the world is in its journal (`Job.deeds`);
whatever else the step does, before it and after it, no debounced check sees (`step_deeds`).

How a job can go on is told once (`Job.GoesOn`), and so is what a step of a loop comes to
(`World.LoopStep`) and what a step can set off (`Job.step_spawned`).
-/

namespace HealthTree

namespace World

variable (w : World) (id : JobId) (slot : Nat) (c : Cache) (scope limit : ScopeId)
  (purpose : Purpose) (o : Outcome)

theorem finishRefresh_aside : w.Aside (w.finishRefresh slot c scope purpose o).2.2 := by
  simp only [finishRefresh]
  cases w.cause? scope with
  | some cause => exact ((Aside.tell w _).trans (.unlock _ slot)).trans (conclude_aside ..)
  | none => exact ((Aside.commit w slot c o).trans (.unlock _ slot)).trans (conclude_aside ..)

theorem refreshTurn_aside (t : Turn) :
    w.Aside (w.refreshTurn slot c scope purpose limit t).2.2 := by
  cases t with
  | still flight => exact .refl w
  | done o => exact w.finishRefresh_aside slot c scope purpose o
  | panicked => exact .unlock w slot

/-- The world after a tick that sets off a refresh, which holds the lock from the first. -/
def granted (w : World) (slot : Nat) : World :=
  { w with nextJob := w.nextJob + 1 }.lock slot w.nextJob

/-- The world after a tick that is skipped. -/
def skipped (w : World) (c : Cache) : World :=
  { w with metrics := w.metrics.bump (.skipped c.name) }.tell [.tickSkipped c.name]

/-- **What a step of a loop comes to.** -/
inductive LoopStep (w : World) (slot : Nat) (c : Cache) (scope : ScopeId) :
    JobTurn × Spawned × World → Prop
  /-- The scope has ended, and so the loop stops. -/
  | stops (cause : Fault) (ended : w.cause? scope = some cause) :
      LoopStep w slot c scope (.gone, none, w.tell [.loopStopped c.name cause])
  /-- The next tick is still to come. -/
  | rests (live : w.cause? scope = none)
      (early : ¬ (c.loop.any fun l => l.scope == scope && l.nextTick ≤ w.now) = true) :
      LoopStep w slot c scope (.going (.loop slot scope), none, w)
  /-- A tick finds the cache idle, and sets off a refresh. -/
  | ticks (live : w.cause? scope = none)
      (due : (c.loop.any fun l => l.scope == scope && l.nextTick ≤ w.now) = true)
      (idle : c.isIdle = true) :
      LoopStep w slot c scope (.going (.loop slot scope),
        some (w.nextJob, .refresh slot scope .tick .granted), (w.ticked slot).granted slot)
  /-- A tick finds the cache busy. -/
  | skips (live : w.cause? scope = none)
      (due : (c.loop.any fun l => l.scope == scope && l.nextTick ≤ w.now) = true)
      (busy : c.isIdle = false) :
      LoopStep w slot c scope (.going (.loop slot scope), none, (w.ticked slot).skipped c)
  /-- The scope has ended, and the loop stops when it has taken its last tick. -/
  | ticksLast (cause : Fault) (ended : w.cause? scope = some cause)
      (last : w.tickLeft c scope = true) (idle : c.isIdle = true) :
      LoopStep w slot c scope (.gone, some (w.nextJob, .refresh slot scope .tick .granted),
        (w.granted slot).tell [.loopStopped c.name cause])
  | skipsLast (cause : Fault) (ended : w.cause? scope = some cause)
      (last : w.tickLeft c scope = true) (busy : c.isIdle = false) :
      LoopStep w slot c scope (.gone, none, (w.skipped c).tell [.loopStopped c.name cause])

theorem stepLoop_cases : w.LoopStep slot c scope (w.stepLoop slot c scope) := by
  unfold stepLoop
  cases ended : w.cause? scope with
  | some cause =>
    cases last : w.tickLeft c scope with
    | true =>
      simp only [if_pos, tick]
      cases idle : c.isIdle with
      | true => exact .ticksLast cause ended last idle
      | false => exact .skipsLast cause ended last idle
    | false => exact .stops cause ended
  | none =>
    simp only
    by_cases due : (c.loop.any fun l => l.scope == scope && l.nextTick ≤ w.now) = true
    · simp only [if_pos due, tick]
      cases idle : c.isIdle with
      | true => exact .ticks ended due idle
      | false => exact .skips ended due idle
    · simp only [if_neg due]
      exact .rests ended due

theorem granted_aside : w.Aside (w.granted slot) :=
  (Aside.spawn w).trans (.lock _ slot _)

theorem skipped_aside : w.Aside (w.skipped c) := by
  refine ⟨⟨rfl, ⟨[], (List.append_nil _).symm⟩, rfl, rfl⟩, rfl, rfl, ?_⟩
  intro name
  simp [skipped, tell, Metrics.count_bump]

/-- **A step of a loop changes nothing of a cache** but its lock and the instant of its next
tick. -/
theorem stepLoop_part {β : Type} {part : Cache → β}
    (free : ∀ (c : Cache) holder waiting,
      part { c with holder := holder, waiting := waiting } = part c)
    (timed : ∀ c : Cache, part { c with
      loop := c.loop.map fun l => { l with nextTick := l.nextTick + c.interval } } = part c) :
    (w.stepLoop slot c scope).2.2.caches.map part = w.caches.map part := by
  have ticked : (w.ticked slot).caches.map part = w.caches.map part :=
    map_modify_same timed w.caches slot
  have locked (w : World) : (w.granted slot).caches.map part = w.caches.map part :=
    map_modify_same (fun c => free c _ _) w.caches slot
  have cases := w.stepLoop_cases slot c scope
  generalize w.stepLoop slot c scope = r at cases ⊢
  cases cases with
  | stops | rests | skipsLast => rfl
  | ticks => exact (locked _).trans ticked
  | skips => exact ticked
  | ticksLast => exact locked w

theorem stepLoop_states : (w.stepLoop slot c scope).2.2.states = w.states :=
  w.stepLoop_part slot c scope (fun _ _ _ => rfl) fun _ => rfl

theorem stepLoop_aside : w.Aside (w.stepLoop slot c scope).2.2 := by
  have cases := w.stepLoop_cases slot c scope
  generalize w.stepLoop slot c scope = r at cases ⊢
  cases cases with
  | stops => exact .tell w _
  | rests => exact .refl w
  | ticks => exact (w.ticked_aside slot).trans (granted_aside _ slot)
  | skips => exact (w.ticked_aside slot).trans (skipped_aside _ c)
  | ticksLast => exact (w.granted_aside slot).trans (.tell _ _)
  | skipsLast => exact (w.skipped_aside c).trans (.tell _ _)

end World

namespace World

variable {w : World} {slot : Nat} {c : Cache} {scope limit : ScopeId} {purpose : Purpose}
  {job : Job}

/-- A refresh goes on with the call of its inner check, or with the next cache. -/
theorem refreshTurn_going {t : Turn}
    (going : (w.refreshTurn slot c scope purpose limit t).1 = .going job) :
    (∃ flight, t = .still flight ∧ job = .refresh slot scope purpose (.calling limit flight)) ∨
      ∃ next rest, job = .refresh next scope (.start rest) .arriving := by
  cases t with
  | still flight => exact .inl ⟨flight, rfl, (JobTurn.going.inj going).symm⟩
  | panicked => cases purpose <;> cases going
  | done o =>
    simp only [refreshTurn, finishRefresh] at going
    cases ended : w.cause? scope with
    | some cause => exact .inr (conclude_going _ _ _ _ _ _ (by simpa only [ended] using going))
    | none => exact .inr (conclude_going _ _ _ _ _ _ (by simpa only [ended] using going))

end World

/-- **How a job goes on after a step.** -/
inductive Job.GoesOn (id : JobId) (w : World) : Job → Job → Prop
  | call {name : String} {scope : ScopeId} {flight flight' : Flight}
      (still : (flight.step scope w).1 = .still flight') :
      GoesOn id w (.call name scope flight) (.call name scope flight')
  /-- A refresh is over, and so the next cache is started. -/
  | next {slot next : Nat} {scope : ScopeId} {purpose : Purpose} {phase : Phase} {rest : List Nat} :
      GoesOn id w (.refresh slot scope purpose phase) (.refresh next scope (.start rest) .arriving)
  | queued {slot : Nat} {c : Cache} {scope : ScopeId} {purpose : Purpose} {phase : Phase}
      {w₁ : World} (cached : w.cache? slot = some c)
      (waits : w.attempt id slot c scope phase = .waits w₁) :
      GoesOn id w (.refresh slot scope purpose phase) (.refresh slot scope purpose .queued)
  | calling {slot : Nat} {c : Cache} {scope limit : ScopeId} {purpose : Purpose} {phase : Phase}
      {flight flight' : Flight} {w₁ : World} (cached : w.cache? slot = some c)
      (calls : w.attempt id slot c scope phase = .calls limit flight w₁)
      (still : (w₁.callInner limit flight).1 = .still flight')
      (world : ((Job.refresh slot scope purpose phase).step id w).2.2 =
        (w₁.callInner limit flight).2) :
      GoesOn id w (.refresh slot scope purpose phase)
        (.refresh slot scope purpose (.calling limit flight'))
  | loop {slot : Nat} {scope : ScopeId} : GoesOn id w (.loop slot scope) (.loop slot scope)
  | work {scope : ScopeId} {wake : Nat} : GoesOn id w (.work scope wake) (.work scope wake)
  | watch {scope : ScopeId} {wake : Nat} : GoesOn id w (.watch scope wake) (.watch scope wake)
  | sleep {wake : Nat} : GoesOn id w (.sleep wake) (.sleep wake)

theorem Job.step_goesOn {id : JobId} {w : World} {job next : Job}
    (going : (job.step id w).1 = .going next) : job.GoesOn id w next := by
  cases job with
  | call name scope flight =>
    simp only [Job.step] at going
    cases turn : (flight.step scope w).1 with
    | still flight' =>
      rw [turn] at going
      cases going
      exact .call turn
    | done | panicked =>
      rw [turn] at going
      cases going
  | refresh slot scope purpose phase =>
    simp only [Job.step] at going
    cases cached : w.cache? slot with
    | none => simp [cached] at going
    | some c =>
      simp only [cached, World.stepRefresh_eq] at going
      cases attempted : w.attempt id slot c scope phase with
      | refused cause w₁ =>
        rw [attempted] at going
        obtain ⟨_, _, rfl⟩ := World.conclude_going _ _ _ _ _ _ going
        exact .next
      | waits w₁ =>
        rw [attempted] at going
        cases going
        exact .queued cached attempted
      | calls limit flight w₁ =>
        simp only [attempted, World.goOnRefresh_eq] at going
        rcases World.refreshTurn_going going with ⟨flight', still, rfl⟩ | ⟨_, _, rfl⟩
        · refine .calling cached attempted still ?_
          simp only [Job.step, cached, World.stepRefresh_eq, attempted, World.goOnRefresh_eq, still]
          rfl
        · exact .next
  | loop slot scope =>
    simp only [Job.step] at going
    cases cached : w.cache? slot with
    | none => simp [cached] at going
    | some c =>
      simp only [cached] at going
      have cases := w.stepLoop_cases slot c scope
      generalize w.stepLoop slot c scope = r at cases going
      cases cases with
      | rests | ticks | skips =>
        cases going
        exact .loop
      | stops | ticksLast | skipsLast => cases going
  | work scope wake | watch scope wake =>
    simp only [Job.step] at going
    split at going
    · cases going
    · split at going <;> cases going
      constructor
  | sleep wake =>
    simp only [Job.step] at going
    split at going <;> cases going
    exact .sleep

theorem World.attempt_aside (w : World) (id : JobId) (slot : Nat) (c : Cache) (scope : ScopeId)
    (phase : Phase) : w.Aside (w.attempt id slot c scope phase).world := by
  have cases := w.attempt_cases id slot c scope phase
  generalize w.attempt id slot c scope phase = a at cases ⊢
  cases cases with
  | walksIn | movesUp => exact (Aside.lock w slot id).trans (limited_aside ..)
  | linesUp => exact .enqueue w slot id
  | stepsOut => exact .dequeue w slot id
  | granted => exact w.limited_aside c scope
  | turnsBack | stays | calling => exact .refl w

/-- **An attempt goes on with the call it finds**, or begins one under a new limit. -/
theorem World.attempt_calls {w w₁ : World} {id : JobId} {slot : Nat} {c : Cache}
    {scope limit : ScopeId} {phase : Phase} {flight : Flight}
    (calls : w.attempt id slot c scope phase = .calls limit flight w₁) :
    phase = .calling limit flight ∧ w₁ = w ∨
      limit = w.scopes.next ∧ flight = .fresh c.inner ∧
        w₁.scopes = (w.scopes.withTimeout scope w.now c.limit).2 := by
  have cases := w.attempt_cases id slot c scope phase
  rw [calls] at cases
  cases cases with
  | walksIn | movesUp | granted => exact .inr ⟨rfl, rfl, rfl⟩
  | calling => exact .inl ⟨rfl, rfl⟩

theorem World.attempt_next (w : World) (id : JobId) (slot : Nat) (c : Cache) (scope : ScopeId)
    (phase : Phase) : (w.attempt id slot c scope phase).world.nextJob = w.nextJob := by
  have cases := w.attempt_cases id slot c scope phase
  generalize w.attempt id slot c scope phase = a at cases ⊢
  cases cases <;> rfl

namespace Job

/-- **The call that a step of a job goes on with**: its scope, the flight, and the world it is made
in. A refresh makes the call of its inner check, unless that is cut off without one more turn. -/
def inside (id : JobId) (w : World) : Job → Option (ScopeId × Flight × World)
  | call _ scope flight => some (scope, flight, w)
  | refresh slot scope _ phase =>
    (w.cache? slot).bind fun c =>
      match w.attempt id slot c scope phase with
      | .calls limit flight w => if w.goesOn limit flight then some (limit, flight, w) else none
      | .refused _ _ | .waits _ => none
  | loop _ _ | work _ _ | watch _ _ | sleep _ => none

/-- What the call does that a step of a job goes on with. -/
def deeds (id : JobId) (w : World) (job : Job) : List Deed :=
  match job.inside id w with
  | some (scope, flight, w) => flight.journal scope w
  | none => []

/-- **What a step of a job does**: a call does its deeds, and what is done before and after it is
done aside. -/
theorem step_deeds (id : JobId) (w : World) (job : Job) :
    ∃ w₁, w.Aside w₁ ∧ (w₁.performAll (job.deeds id w)).Aside (job.step id w).2.2 := by
  have quiet {w' : World} (aside : w.Aside w') :
      ∃ w₁, w.Aside w₁ ∧ (w₁.performAll []).Aside w' := ⟨w, .refl w, aside⟩
  cases job with
  | call name scope flight =>
    refine ⟨w, .refl w, ?_⟩
    simp only [deeds, inside, Job.step, ← Flight.step_world]
    exact .refl _
  | refresh slot scope purpose phase =>
    simp only [deeds, inside, Job.step]
    cases w.cache? slot with
    | none => exact quiet (.refl w)
    | some c =>
      have before := w.attempt_aside id slot c scope phase
      simp only [World.stepRefresh_eq, Option.bind_some]
      cases attempted : w.attempt id slot c scope phase with
      | refused cause w₁ =>
        rw [attempted] at before
        exact quiet (before.trans (w₁.conclude_aside slot c scope purpose (some cause)))
      | waits w₁ =>
        rw [attempted] at before
        exact quiet before
      | calls limit flight w₁ =>
        rw [attempted] at before
        have after := World.refreshTurn_aside (w₁.callInner limit flight).2 slot c scope limit
          purpose (w₁.callInner limit flight).1
        have world := w₁.callInner_world limit flight
        refine ⟨w₁, before, ?_⟩
        simp only [World.goOnRefresh_eq]
        cases goes : w₁.goesOn limit flight with
        | false =>
          rw [goes, if_neg Bool.false_ne_true] at world
          rw [world] at after ⊢
          exact after
        | true =>
          rw [goes, if_pos rfl, Flight.step_world] at world
          rw [world] at after ⊢
          exact after
  | loop slot scope =>
    simp only [deeds, inside, Job.step]
    cases w.cache? slot with
    | none => exact quiet (.refl w)
    | some c => exact quiet (w.stepLoop_aside slot c scope)
  | work | watch | sleep => exact quiet (.refl w)

theorem step_later (id : JobId) (w : World) (job : Job) : w.Later (job.step id w).2.2 := by
  obtain ⟨w₁, before, after⟩ := step_deeds id w job
  exact (before.toLater.trans (w₁.performAll_later _)).trans after.toLater

/-- The loop that a refresh sets off runs under a new scope. -/
theorem conclude_started {w w₁ : World} {slot : Nat} {c : Cache} {scope : ScopeId}
    {purpose : Purpose} {fault : Option Fault} {new : JobId} {next : Job}
    (spawned : (w₁.conclude slot c scope fault purpose).2.1 = some (new, next))
    (grows : w.scopes.next ≤ w₁.scopes.next) :
    ∃ there own, next = .loop there own ∧ w.scopes.next ≤ own ∧
      own < (w₁.conclude slot c scope fault purpose).2.2.scopes.next := by
  rcases w₁.conclude_spawned slot c scope purpose fault with ⟨none, _⟩ | ⟨loop, _, more⟩
  · rw [none] at spawned
    cases spawned
  · rw [loop] at spawned
    cases spawned
    exact ⟨slot, _, rfl, grows, more ▸ Nat.lt_succ_self _⟩

theorem refreshTurn_started {w w₁ : World} {slot : Nat} {c : Cache} {scope limit : ScopeId}
    {purpose : Purpose} {t : Turn} {new : JobId} {next : Job}
    (spawned : (w₁.refreshTurn slot c scope purpose limit t).2.1 = some (new, next))
    (grows : w.scopes.next ≤ w₁.scopes.next) :
    ∃ there own, next = .loop there own ∧ w.scopes.next ≤ own ∧
      own < (w₁.refreshTurn slot c scope purpose limit t).2.2.scopes.next := by
  cases t with
  | still flight | panicked => cases spawned
  | done o =>
    simp only [World.refreshTurn, World.finishRefresh] at spawned ⊢
    cases ended : w₁.cause? scope with
    | some cause =>
      simp only [ended] at spawned ⊢
      exact conclude_started spawned grows
    | none =>
      simp only [ended] at spawned ⊢
      exact conclude_started spawned grows

/-- **What a step can set off**: a loop under a new scope, or for a loop a refresh that holds the
lock. -/
theorem step_spawned {id : JobId} {w : World} {job : Job} {new : JobId} {next : Job}
    (spawned : (job.step id w).2.1 = some (new, next)) :
    (∃ slot own, next = .loop slot own ∧ w.scopes.next ≤ own ∧
        own < (job.step id w).2.2.scopes.next) ∨
      ∃ slot scope, job = .loop slot scope ∧ next = .refresh slot scope .tick .granted := by
  cases job with
  | refresh slot scope purpose phase =>
    simp only [Job.step] at spawned ⊢
    cases cached : w.cache? slot with
    | none => simp [cached] at spawned
    | some c =>
      have before := (w.attempt_aside id slot c scope phase).next_le
      simp only [cached, World.stepRefresh_eq] at spawned ⊢
      cases attempted : w.attempt id slot c scope phase with
      | refused cause w₁ =>
        rw [attempted] at before
        simp only [attempted] at spawned ⊢
        exact .inl (conclude_started spawned before)
      | waits w₁ =>
        simp only [attempted] at spawned
        cases spawned
      | calls limit flight w₁ =>
        rw [attempted] at before
        simp only [attempted, World.goOnRefresh_eq] at spawned ⊢
        have grows := Nat.le_trans before (w₁.callInner_later limit flight).next_le
        exact .inl (refreshTurn_started spawned grows)
  | loop slot scope =>
    simp only [Job.step] at spawned ⊢
    cases cached : w.cache? slot with
    | none => simp [cached] at spawned
    | some c =>
      simp only [cached] at spawned
      have cases := w.stepLoop_cases slot c scope
      generalize w.stepLoop slot c scope = r at cases spawned
      cases cases with
      | stops | rests | skips | skipsLast => cases spawned
      | ticks | ticksLast =>
        cases spawned
        exact .inr ⟨slot, scope, rfl, rfl⟩
  | _ => cases spawned

end Job

/-! ## The numbers of new jobs -/

/-- A job set off in a step gets the next number, and only then is it used up. -/
def Numbered (next : JobId) (r : JobTurn × Spawned × World) : Prop :=
  match r.2.1 with
  | none => r.2.2.nextJob = next
  | some (new, _) => new = next ∧ r.2.2.nextJob = next + 1

/-- No job is set off under a number that was used up before. -/
theorem Numbered.apart {next id : JobId} {turn : JobTurn} {spawned : Spawned} {w : World}
    (numbers : Numbered next (turn, spawned, w)) (old : id < next) :
    id ∉ spawned.toList.map Prod.fst ∧ id < w.nextJob := by
  cases spawned with
  | none =>
    have same : w.nextJob = next := numbers
    exact ⟨List.not_mem_nil, same ▸ old⟩
  | some new =>
    obtain ⟨number, more⟩ := numbers
    have more : w.nextJob = next + 1 := more
    refine ⟨?_, more ▸ Nat.lt_succ_of_lt old⟩
    intro listed
    have same : id = next := (List.mem_singleton.mp listed).trans number
    exact Nat.lt_irrefl _ (same ▸ old)

namespace World

variable (w : World) (slot : Nat) (c : Cache) (scope limit : ScopeId) (purpose : Purpose)

theorem conclude_numbered (fault : Option Fault) :
    Numbered w.nextJob (w.conclude slot c scope fault purpose) := by
  unfold Numbered
  rcases w.conclude_spawned slot c scope purpose fault with ⟨spawned, same⟩ | ⟨spawned, more, _⟩
  · rw [spawned]
    exact same
  · rw [spawned]
    exact ⟨rfl, more⟩

theorem refreshTurn_numbered (t : Turn) :
    Numbered w.nextJob (w.refreshTurn slot c scope purpose limit t) := by
  cases t with
  | still flight | panicked => exact rfl
  | done o =>
    simp only [refreshTurn, finishRefresh]
    cases w.cause? scope with
    | some cause => exact conclude_numbered ((w.tell _).unlock slot) slot c scope purpose _
    | none => exact conclude_numbered ((w.commit slot c o).unlock slot) slot c scope purpose _

theorem stepLoop_numbered : Numbered w.nextJob (w.stepLoop slot c scope) := by
  have cases := w.stepLoop_cases slot c scope
  generalize w.stepLoop slot c scope = r at cases ⊢
  cases cases with
  | stops | rests | skips | skipsLast => exact rfl
  | ticks | ticksLast => exact ⟨rfl, rfl⟩

end World

theorem Job.step_numbered (id : JobId) (w : World) (job : Job) :
    Numbered w.nextJob (job.step id w) := by
  cases job with
  | call name scope flight => exact flight.step_nextJob scope w
  | refresh slot scope purpose phase =>
    simp only [Job.step]
    cases w.cache? slot with
    | none => exact rfl
    | some c =>
      have next := w.attempt_next id slot c scope phase
      simp only [World.stepRefresh_eq]
      cases attempted : w.attempt id slot c scope phase with
      | refused cause w₁ =>
        rw [attempted] at next
        exact (next : w₁.nextJob = _) ▸ w₁.conclude_numbered slot c scope purpose _
      | waits w₁ =>
        rw [attempted] at next
        exact next
      | calls limit flight w₁ =>
        rw [attempted] at next
        simp only [World.goOnRefresh_eq]
        have same := (w₁.callInner_nextJob limit flight).trans next
        exact same ▸ World.refreshTurn_numbered _ slot c scope limit purpose _
  | loop slot scope =>
    simp only [Job.step]
    cases w.cache? slot with
    | none => exact rfl
    | some c => exact w.stepLoop_numbered slot c scope
  | work | watch | sleep => exact rfl

end HealthTree
