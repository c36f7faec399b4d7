import HealthTree.Proofs.Frame

/-!
# Refreshes taken apart

One step of a refresh comes to one of three things before anything else happens (`Attempt`): the
lock is refused because the scope has ended, the refresh waits for the lock, or it holds the lock
and its inner check is called. `World.attempt` says which and `attempt_cases` when, `stepRefresh_eq`
that this is all that a step of a refresh decides, and `goOnRefresh_eq` what follows a call of the
inner check. The call itself takes a step while its scope is live; after that it is cut off, with
one more turn or without (`callInner_cases`).

What follows is told by parts: a refresh that is concluded changes neither lock nor state
(`conclude_locks`, `conclude_states`), sets off a loop at most (`conclude_spawned`) and goes on with
the next cache at most (`conclude_going`).
-/

namespace HealthTree

/-- What a step of a refresh comes to, before its inner check is called. -/
inductive Attempt where
  /-- The scope has ended: there is no lock to be had. -/
  | refused (cause : Fault) (w : World)
  /-- Somebody else comes first. -/
  | waits (w : World)
  /-- The lock is held, and the call goes on under this scope. -/
  | calls (limit : ScopeId) (flight : Flight) (w : World)

/-- The world in which an attempt leaves a refresh. -/
def Attempt.world : Attempt → World
  | refused _ w | waits w | calls _ _ w => w

namespace World

/-- The world with the scope in it that a refresh calls its inner check under. -/
def limited (w : World) (c : Cache) (scope : ScopeId) : World :=
  { w with scopes := (w.scopes.withTimeout scope w.now c.limit).2 }

/-- **What a step of a refresh comes to**, before its inner check is called. -/
def attempt (w : World) (id : JobId) (slot : Nat) (c : Cache) (scope : ScopeId) : Phase → Attempt
  | .arriving =>
    match w.cause? scope with
    | some cause => .refused cause w
    | none =>
      if c.isIdle then .calls w.scopes.next (.fresh c.inner) ((w.lock slot id).limited c scope)
      else .waits (w.enqueue slot id)
  | .queued =>
    let first := c.holder.isNone && c.waiting.head? == some id
    match w.cause? scope with
    | some cause =>
      if w.grace && first then
        .calls w.scopes.next (.fresh c.inner) ((w.lock slot id).limited c scope)
      else .refused cause (w.dequeue slot id)
    | none =>
      if first then .calls w.scopes.next (.fresh c.inner) ((w.lock slot id).limited c scope)
      else .waits w
  | .granted => .calls w.scopes.next (.fresh c.inner) (w.limited c scope)
  | .calling limit flight => .calls limit flight w

/-- **What an attempt comes to**, phase by phase. -/
inductive Attempts (w : World) (id : JobId) (slot : Nat) (c : Cache) (scope : ScopeId) :
    Phase → Attempt → Prop
  /-- The scope has ended before the lock was asked for. -/
  | turnsBack {cause : Fault} (ended : w.cause? scope = some cause) :
      Attempts w id slot c scope .arriving (.refused cause w)
  /-- The scope has ended in line. -/
  | stepsOut {cause : Fault} (ended : w.cause? scope = some cause) :
      Attempts w id slot c scope .queued (.refused cause (w.dequeue slot id))
  | linesUp (live : w.cause? scope = none) (busy : c.isIdle = false) :
      Attempts w id slot c scope .arriving (.waits (w.enqueue slot id))
  | stays (live : w.cause? scope = none)
      (behind : (c.holder.isNone && c.waiting.head? == some id) = false) :
      Attempts w id slot c scope .queued (.waits w)
  /-- The lock is free for whoever comes. -/
  | walksIn (live : w.cause? scope = none) (idle : c.isIdle = true) :
      Attempts w id slot c scope .arriving
        (.calls w.scopes.next (.fresh c.inner) ((w.lock slot id).limited c scope))
  /-- The lock is free for the first in line, even if its scope has ended and a turn is left. -/
  | movesUp (first : (c.holder.isNone && c.waiting.head? == some id) = true)
      (turn : w.cause? scope = none ∨ w.grace = true) :
      Attempts w id slot c scope .queued
        (.calls w.scopes.next (.fresh c.inner) ((w.lock slot id).limited c scope))
  | granted : Attempts w id slot c scope .granted
      (.calls w.scopes.next (.fresh c.inner) (w.limited c scope))
  | calling {limit : ScopeId} {flight : Flight} :
      Attempts w id slot c scope (.calling limit flight) (.calls limit flight w)

variable (w : World) (id : JobId) (slot : Nat) (c : Cache) (scope limit : ScopeId)
  (purpose : Purpose) (flight : Flight)

theorem attempt_cases (phase : Phase) :
    w.Attempts id slot c scope phase (w.attempt id slot c scope phase) := by
  cases phase with
  | arriving =>
    simp only [attempt]
    cases ended : w.cause? scope with
    | some cause => exact .turnsBack ended
    | none =>
      cases idle : c.isIdle with
      | true => exact .walksIn ended idle
      | false => exact .linesUp ended idle
  | queued =>
    simp only [attempt]
    cases ended : w.cause? scope with
    | some cause =>
      by_cases ready : (w.grace && (c.holder.isNone && c.waiting.head? == some id)) = true
      · simp only [if_pos ready]
        have both := Bool.and_eq_true_iff.mp ready
        exact .movesUp both.2 (.inr both.1)
      · simp only [if_neg ready]
        exact .stepsOut ended
    | none =>
      cases first : c.holder.isNone && c.waiting.head? == some id with
      | true => exact .movesUp first (.inl ended)
      | false => exact .stays ended first
  | granted => exact .granted
  | calling limit flight => exact .calling

/-- **An attempt changes nothing of a cache but its lock.** -/
theorem attempt_part {β : Type} {part : Cache → β}
    (free : ∀ (c : Cache) holder waiting,
      part { c with holder := holder, waiting := waiting } = part c) (phase : Phase) :
    (w.attempt id slot c scope phase).world.caches.map part = w.caches.map part := by
  have cases := w.attempt_cases id slot c scope phase
  generalize w.attempt id slot c scope phase = a at cases ⊢
  cases cases with
  | walksIn | movesUp => exact map_modify_same (fun c => free c _ _) w.caches slot
  | stepsOut | linesUp => exact map_modify_same (fun c => free c c.holder _) w.caches slot
  | turnsBack | stays | granted | calling => rfl

theorem attempt_states (phase : Phase) :
    (w.attempt id slot c scope phase).world.states = w.states :=
  w.attempt_part id slot c scope (fun _ _ _ => rfl) phase

theorem attempt_loops (phase : Phase) :
    (w.attempt id slot c scope phase).world.loops = w.loops :=
  w.attempt_part id slot c scope (fun _ _ _ => rfl) phase

theorem goOnRefresh_eq :
    w.goOnRefresh slot c scope purpose limit flight =
      (w.callInner limit flight).2.refreshTurn slot c scope purpose limit
        (w.callInner limit flight).1 :=
  rfl

/-- **A step of a refresh decides no more than its attempt does.** -/
theorem stepRefresh_eq (phase : Phase) :
    w.stepRefresh id slot c scope purpose phase =
      match w.attempt id slot c scope phase with
      | .refused cause w => w.conclude slot c scope (some cause) purpose
      | .waits w => (.going (.refresh slot scope purpose .queued), none, w)
      | .calls limit flight w => w.goOnRefresh slot c scope purpose limit flight := by
  cases phase with
  | arriving =>
    simp only [stepRefresh, attempt]
    cases w.cause? scope with
    | some cause => rfl
    | none => by_cases idle : c.isIdle <;> simp only [idle] <;> rfl
  | queued =>
    simp only [stepRefresh, attempt]
    cases w.cause? scope with
    | some cause => cases w.grace && (c.holder.isNone && c.waiting.head? == some id) <;> rfl
    | none => cases c.holder.isNone && c.waiting.head? == some id <;> rfl
  | granted | calling => rfl

section

variable {w w₁ : World} {id : JobId} {slot : Nat} {c : Cache} {scope limit : ScopeId}
  {phase : Phase} {flight : Flight}

/-- **A refresh is refused a lock that it has not got** when its scope has ended, and for that
cause. -/
theorem attempt_refused {cause : Fault}
    (refused : w.attempt id slot c scope phase = .refused cause w₁) :
    (phase = .arriving ∨ phase = .queued) ∧ w.cause? scope = some cause := by
  have cases := w.attempt_cases id slot c scope phase
  rw [refused] at cases
  cases cases with
  | turnsBack ended => exact ⟨.inl rfl, ended⟩
  | stepsOut ended => exact ⟨.inr rfl, ended⟩

/-- A refresh that gets the lock gets it from nobody. -/
theorem attempt_unheld (unheld : phase = .arriving ∨ phase = .queued)
    (calls : w.attempt id slot c scope phase = .calls limit flight w₁) : c.holder = none := by
  have cases := w.attempt_cases id slot c scope phase
  rw [calls] at cases
  cases cases with
  | walksIn live idle =>
    rw [Cache.isIdle, Bool.and_eq_true, Option.isNone_iff_eq_none] at idle
    exact idle.1
  | movesUp first =>
    rw [Bool.and_eq_true, Option.isNone_iff_eq_none] at first
    exact first.1
  | granted | calling => rcases unheld with unheld | unheld <;> cases unheld

/-- A refresh that waits gets in line for a lock that is not free, or stands there as before. -/
theorem attempt_waits (waits : w.attempt id slot c scope phase = .waits w₁) :
    phase = .arriving ∧ c.isIdle = false ∨
      phase = .queued ∧ w₁ = w ∧ (c.holder.isNone && c.waiting.head? == some id) = false := by
  have cases := w.attempt_cases id slot c scope phase
  rw [waits] at cases
  cases cases with
  | linesUp live busy => exact .inl ⟨rfl, busy⟩
  | stays live behind => exact .inr ⟨rfl, rfl, behind⟩

/-- A refresh waits only while its scope is live. -/
theorem live_of_waits (waits : w.attempt id slot c scope phase = .waits w₁) :
    w.cause? scope = none := by
  have cases := w.attempt_cases id slot c scope phase
  rw [waits] at cases
  cases cases with
  | linesUp live | stays live => exact live

end

theorem ticked_aside : w.Aside (w.ticked slot) :=
  .modifyCache w slot fun _ => rfl

/-! ## What follows a refresh -/

theorem limited_aside : w.Aside (w.limited c scope) :=
  .derive w scope _

/-- Seeing to a loop sets off one at most, under a scope of its own. -/
theorem ensureLoop_spawned :
    ((w.ensureLoop slot c scope).1 = none ∧
        (w.ensureLoop slot c scope).2.nextJob = w.nextJob) ∨
      ((w.ensureLoop slot c scope).1 = some (w.nextJob, .loop slot w.scopes.next) ∧
        (w.ensureLoop slot c scope).2.nextJob = w.nextJob + 1 ∧
        (w.ensureLoop slot c scope).2.scopes.next = w.scopes.next + 1) := by
  unfold ensureLoop
  cases w.loopRuns c with
  | true => exact .inl ⟨rfl, rfl⟩
  | false =>
    refine .inr ⟨rfl, rfl, ?_⟩
    simp [spawnLoop, Scopes.withCancel, Scopes.derive, Scopes.next, tell, modifyCache]

theorem ensureLoop_aside : w.Aside (w.ensureLoop slot c scope).2 := by
  unfold ensureLoop
  cases w.loopRuns c with
  | true =>
    exact ⟨⟨rfl, ⟨[], (List.append_nil _).symm⟩, makes_modifyCache _ slot fun _ => rfl, rfl⟩, rfl,
      rfl, fun _ => rfl⟩
  | false =>
    exact ⟨⟨rfl, ⟨_, rfl⟩, makes_modifyCache _ slot fun _ => rfl, rfl⟩, rfl, rfl, fun _ => rfl⟩

@[simp] theorem ensureLoop_locks : (w.ensureLoop slot c scope).2.locks = w.locks := by
  unfold ensureLoop
  cases w.loopRuns c <;> exact locks_modifyCache_same _ slot fun _ => rfl

@[simp] theorem ensureLoop_states : (w.ensureLoop slot c scope).2.states = w.states := by
  unfold ensureLoop
  cases w.loopRuns c <;> exact states_modifyCache_same _ slot fun _ => rfl

variable (fault : Option Fault)

theorem conclude_aside : w.Aside (w.conclude slot c scope fault purpose).2.2 := by
  cases purpose with
  | force | tick => exact .refl w
  | start rest => exact (Aside.tell w _).trans (ensureLoop_aside _ slot c scope)

@[simp] theorem conclude_locks :
    (w.conclude slot c scope fault purpose).2.2.locks = w.locks := by
  cases purpose with
  | force | tick => rfl
  | start rest => exact ensureLoop_locks _ slot c scope

@[simp] theorem conclude_states :
    (w.conclude slot c scope fault purpose).2.2.states = w.states := by
  cases purpose with
  | force | tick => rfl
  | start rest => exact ensureLoop_states _ slot c scope

/-- A refresh that is concluded goes on with the next cache at most. -/
theorem conclude_going {job : Job}
    (going : (w.conclude slot c scope fault purpose).1 = .going job) :
    ∃ next rest, job = .refresh next scope (.start rest) .arriving := by
  cases purpose with
  | force | tick => cases going
  | start rest =>
    cases rest with
    | nil => cases going
    | cons next rest => exact ⟨next, rest, (JobTurn.going.inj going).symm⟩

/-- A refresh that is concluded sets off a loop at most, under a scope of its own. -/
theorem conclude_spawned :
    ((w.conclude slot c scope fault purpose).2.1 = none ∧
        (w.conclude slot c scope fault purpose).2.2.nextJob = w.nextJob) ∨
      ((w.conclude slot c scope fault purpose).2.1 = some (w.nextJob, .loop slot w.scopes.next) ∧
        (w.conclude slot c scope fault purpose).2.2.nextJob = w.nextJob + 1 ∧
        (w.conclude slot c scope fault purpose).2.2.scopes.next = w.scopes.next + 1) := by
  cases purpose with
  | force | tick => exact .inl ⟨rfl, rfl⟩
  | start rest => exact ensureLoop_spawned (w.tell _) slot c scope

/-! ## The call of the inner check -/

/-- **What the call of an inner check comes to**: a step of it under a live scope, one more turn
once the scope has ended, or nothing but its end. -/
inductive Called (w : World) (limit : ScopeId) (flight : Flight) : Turn × World → Prop
  | steps (live : w.cause? limit = none) : Called w limit flight (flight.step limit w)
  | lastTurn {cause : Fault} (ended : w.cause? limit = some cause) (grace : w.grace = true)
      (begun : flight.begun = true) :
      Called w limit flight ((flight.step limit w).1.cutOff (some cause), (flight.step limit w).2)
  | cut {cause : Fault} (ended : w.cause? limit = some cause)
      (still : w.goesOn limit flight = false) :
      Called w limit flight (.done (.error (.ofFault cause)), w)

theorem callInner_cases : w.Called limit flight (w.callInner limit flight) := by
  unfold callInner
  cases ended : w.cause? limit with
  | none =>
    have goes : w.goesOn limit flight = true := by simp [goesOn, ended]
    rw [if_pos goes]
    exact .steps ended
  | some cause =>
    cases goes : w.goesOn limit flight with
    | false => exact .cut ended goes
    | true =>
      obtain ⟨grace, begun⟩ : w.grace = true ∧ flight.begun = true := by
        simpa [goesOn, ended] using goes
      exact .lastTurn ended grace begun

/-- While its scope is live the call of an inner check takes a step. -/
theorem callInner_live {w : World} {limit : ScopeId} (live : w.cause? limit = none)
    (flight : Flight) : w.callInner limit flight = flight.step limit w := by
  have cases := w.callInner_cases limit flight
  generalize w.callInner limit flight = r at cases ⊢
  cases cases with
  | steps => rfl
  | lastTurn ended | cut ended => cases live.symm.trans ended

/-- **The call of an inner check does to the world what its step does**, if it goes on. -/
theorem callInner_world : (w.callInner limit flight).2 =
    if w.goesOn limit flight then (flight.step limit w).2 else w := by
  unfold callInner
  cases w.goesOn limit flight <;> rfl

theorem callInner_later : w.Later (w.callInner limit flight).2 := by
  rw [callInner_world]
  split
  · exact flight.step_later limit w
  · exact (Aside.refl w).toLater

@[simp] theorem callInner_caches : (w.callInner limit flight).2.caches = w.caches := by
  rw [callInner_world]
  split <;> simp

@[simp] theorem callInner_nextJob : (w.callInner limit flight).2.nextJob = w.nextJob := by
  rw [callInner_world]
  split <;> simp

@[simp] theorem callInner_scopes : (w.callInner limit flight).2.scopes = w.scopes := by
  rw [callInner_world]
  split <;> simp

@[simp] theorem callInner_cause? (other : ScopeId) :
    (w.callInner limit flight).2.cause? other = w.cause? other := by
  rw [callInner_world]
  split <;> simp

/-- A call that panics has taken a step, and has panicked in it. -/
theorem goesOn_of_panicked {w : World} {limit : ScopeId} {flight : Flight}
    (panicked : (w.callInner limit flight).1 = .panicked) :
    w.goesOn limit flight = true ∧ (flight.step limit w).1 = .panicked := by
  have cases := w.callInner_cases limit flight
  generalize w.callInner limit flight = r at cases panicked
  cases cases with
  | steps live => exact ⟨by simp [goesOn, live], panicked⟩
  | lastTurn ended grace begun =>
    refine ⟨by simp [goesOn, grace, begun], ?_⟩
    cases turn : (flight.step limit w).1 <;> rw [turn] at panicked <;> first | rfl | cases panicked
  | cut => cases panicked

/-- **A call that is still under way** has taken a step under a live scope. -/
theorem live_of_still {w : World} {limit : ScopeId} {flight flight' : Flight}
    (still : (w.callInner limit flight).1 = .still flight') :
    w.cause? limit = none ∧ (flight.step limit w).1 = .still flight' := by
  have cases := w.callInner_cases limit flight
  generalize w.callInner limit flight = r at cases still
  cases cases with
  | steps live => exact ⟨live, still⟩
  | lastTurn =>
    cases turn : (flight.step limit w).1 <;> rw [turn] at still <;> cases still
  | cut => cases still

end World

end HealthTree
