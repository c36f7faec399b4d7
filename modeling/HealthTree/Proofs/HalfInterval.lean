import HealthTree.Proofs.Steps
import HealthTree.Proofs.Ticking

/-!
# No refresh outlives half its interval

A refresh that has the lock calls its inner check at once, under a scope that ends after half the
interval (`Phase.InTime`). The end of that scope is an instant at which its job wakes, and at which it
has something to do whatever the inner check does. So over a patient run it never goes by
(`Phase.InTime.pass`): what a refresh has kept to when it got the lock it keeps to until it gives the
lock back, and no refresh outlives half its interval (`within_half_interval`).

A refresh that a tick has begun is over before the next tick then, for that comes a whole interval
later at the earliest, whatever starts do to the loop between the two (`Machine.TicksApart`). What a
loop has left behind that is over is gone before the loop after it comes to tick
(`Machine.Relieved`). So a tick is skipped on account of a refresh only that a start or a caller has
asked for.
-/

namespace HealthTree

/-! ## How long a refresh has been under way -/

/-- **A refresh is in time** that got the lock at this instant and has so long for its call: it is
about to begin the call at that very instant, or the scope of the call ends when the time is over, and
that has not gone by. -/
inductive Phase.InTime (w : World) (since limit : Nat) : Phase → Prop
  | granted (now : w.now = since) : InTime w since limit .granted
  | calling {scope : ScopeId} {flight : Flight} {ends : Nat} (begun : since ≤ w.now)
      (deadline : w.scopes.deadline? scope = some ends) (soon : ends ≤ since + limit)
      (early : w.now ≤ ends) : InTime w since limit (.calling scope flight)

namespace Phase.InTime

variable {w w' : World} {since limit : Nat} {phase : Phase}

theorem begun (inTime : phase.InTime w since limit) : since ≤ w.now := by
  cases inTime with
  | granted now => exact Nat.le_of_eq now.symm
  | calling begun => exact begun

theorem holds (inTime : phase.InTime w since limit) : phase.stake = .holds := by
  cases inTime <;> rfl

theorem now_le (inTime : phase.InTime w since limit) : w.now ≤ since + limit := by
  cases inTime with
  | granted now => omega
  | calling _ _ soon early => exact Nat.le_trans early soon

/-- **What others do at one instant leaves it in time.** -/
theorem after (inTime : phase.InTime w since limit) (after : w.After w') (now : w'.now = w.now) :
    phase.InTime w' since limit := by
  cases inTime with
  | granted same => exact .granted (now.trans same)
  | @calling scope _ _ begun deadline soon early =>
    have known : scope < w.scopes.next := by
      obtain ⟨n, found, -⟩ := Option.bind_eq_some_iff.mp deadline
      exact (List.getElem?_eq_some_iff.mp found).1
    exact .calling (now ▸ begun) ((after.deadline scope known).trans deadline) soon (now ▸ early)

/-- **So does the passing of time**, where nothing is left to do: the refresh is not about to begin its
call, and it wakes when the scope of the call ends. -/
theorem pass {m : Machine} {id : JobId} {slot ms : Nat} {scope : ScopeId} {purpose : Purpose}
    (inTime : phase.InTime m.world since limit) (still : m.Still)
    (mem : (id, .refresh slot scope purpose phase) ∈ m.jobs)
    (early : ∀ wake ∈ (Job.refresh slot scope purpose phase).wakes m.world, m.now < wake →
      m.now + ms ≤ wake) : phase.InTime (m.pass ms).world since limit := by
  have going : ((Job.refresh slot scope purpose phase).step id m.world).1 =
      .going (.refresh slot scope purpose phase) := congrArg Prod.fst (still _ mem)
  cases Job.step_goesOn going with
  | next | queued => cases inTime
  | @calling _ _ _ own _ _ flight flight' _ _ calls stays =>
    cases inTime with
    | @calling _ _ ends begun deadline soon before =>
      cases calls
      -- the call goes on, so its scope is live and ends later than now
      have ahead : m.now < ends := by
        by_contra late
        have ended : m.world.cause? own ≠ none :=
          Scopes.cause?_ne_none.mpr (.inr ⟨ends, deadline, Nat.le_of_not_lt late⟩)
        exact ended (World.live_of_still stays).1
      refine .calling (Nat.le_add_right_of_le begun) deadline soon (early ends ?_ ahead)
      simp [Job.wakes, deadline]

end Phase.InTime

/-- **A refresh follows from what it was**: it is in time if it was, and if it has just got the lock it
has done so now. -/
structure Phase.Follows (w w' : World) (limit : Nat) (phase phase' : Phase) : Prop where
  keeps : ∀ since, phase.InTime w since limit → phase'.InTime w' since limit
  gets : phase.stake ≠ .holds → phase'.stake = .holds → phase'.InTime w' w.now limit

/-- A derived scope has a deadline no later than its own. -/
theorem Scopes.derive_ends (s : Scopes) (scope : ScopeId) (deadline : Nat) :
    ∃ ends, (s.derive scope (some deadline)).2.deadline? s.next = some ends ∧ ends ≤ deadline := by
  rw [derive_deadline?]
  cases s.deadline? scope with
  | none => exact ⟨deadline, rfl, Nat.le_refl _⟩
  | some above => exact ⟨min above deadline, rfl, Nat.min_le_right ..⟩

namespace Job

variable {w : World} {id : JobId} {job : Job} {slot : Nat} {c : Cache} {scope : ScopeId}
  {purpose : Purpose} {phase phase' : Phase}

/-- **What a step leaves of a refresh follows from what it was**, unless the step has gone on to the
next cache of a start. -/
theorem step_follows (cached : w.cache? slot = some c)
    (going : (job.step id w).1 = .going (.refresh slot scope purpose phase')) :
    (∃ phase, job = .refresh slot scope purpose phase ∧
        phase.Follows w (job.step id w).2.2 c.limit phase') ∨
      phase' = .arriving ∧ purpose ≠ .tick := by
  cases step_goesOn going with
  | next => exact .inr ⟨rfl, nofun⟩
  | @queued _ _ _ _ phase _ _ waits =>
    refine .inl ⟨phase, rfl, fun since inTime => ?_, fun _ holds => by cases holds⟩
    -- one that is in time has the lock, and does not wait for it
    rcases World.attempt_waits waits with ⟨rfl, -⟩ | ⟨rfl, -⟩ <;> cases inTime
  | @calling _ _ _ own _ phase flight flight' w₁ cached' calls stays world =>
    cases cached.symm.trans cached'
    have live : w₁.cause? own = none := (World.live_of_still stays).1
    have later : w.Later w₁ := by
      have aside := w.attempt_aside id slot c scope phase
      rw [calls] at aside
      exact aside.toLater
    have after := World.After.of_later (w₁.callInner_later own flight)
    have now := (w₁.callInner_later own flight).now
    rw [world]
    refine .inl ⟨phase, rfl, ?_⟩
    rcases World.attempt_calls calls with ⟨rfl, rfl⟩ | ⟨rfl, -, scopes⟩
    · refine ⟨fun since inTime => ?_, fun free => absurd rfl free⟩
      have same : (Phase.calling own flight').InTime w₁ since c.limit := by
        cases inTime with
        | calling begun deadline soon early => exact .calling begun deadline soon early
      exact same.after after now
    · have begins : (Phase.calling w.scopes.next flight').InTime w₁ w.now c.limit := by
        obtain ⟨ends, deadline, soon⟩ := w.scopes.derive_ends scope (w.now + c.limit)
        have deadline' : w₁.scopes.deadline? w.scopes.next = some ends := by
          rw [scopes]
          exact deadline
        refine .calling (Nat.le_of_eq later.now.symm) deadline' soon ?_
        by_contra late
        exact Scopes.cause?_ne_none.mpr (.inr ⟨ends, deadline', Nat.le_of_not_le late⟩) live
      refine ⟨fun since inTime => ?_, fun _ _ => begins.after after now⟩
      cases inTime with
      | granted same => exact same ▸ begins.after after now
      | calling begun deadline =>
        -- a call that has begun goes on under the scope that it has
        cases calls
        obtain ⟨n, found, -⟩ := Option.bind_eq_some_iff.mp deadline
        exact absurd (List.getElem?_eq_some_iff.mp found).1 (Nat.lt_irrefl _)

/-- A refresh that a step sets off is one of a tick, unless the loop is over that takes it. -/
theorem tick_of_spawned {new : JobId}
    (spawned : (job.step id w).2.1 = some (new, .refresh slot scope purpose phase)) :
    purpose = .tick ∧ phase = .granted ∧
      (job.loopEvent? id w = some (.tick slot) ∨ w.cause? scope ≠ none) := by
  rcases step_spawned spawned with ⟨_, _, other, -⟩ | ⟨_, _, rfl, same⟩
  · cases other
  cases same
  refine ⟨rfl, rfl, ?_⟩
  simp only [step] at spawned
  cases cached : w.cache? slot with
  | none => simp [cached] at spawned
  | some c =>
    simp only [cached] at spawned
    have cases := w.stepLoop_cases slot c scope
    generalize w.stepLoop slot c scope = r at cases spawned
    cases cases with
    | stops | rests | skips | skipsLast => cases spawned
    | ticks live due => exact .inl (by simp [loopEvent?, cached, live, due])
    | ticksLast cause ended => exact .inr (ended.trans_ne (Option.some_ne_none cause))

end Job

namespace Machine

/-- A refresh of the cache is under way that is made by the job of this number. -/
def holds (m : Machine) (slot : Nat) (id : JobId) : Bool :=
  m.jobs.any fun p => p.1 == id && p.2.refreshing slot

variable {m : Machine} {slot : Nat} {id : JobId}

theorem holds_iff : m.holds slot id = true ↔ ∃ scope purpose phase,
    (id, .refresh slot scope purpose phase) ∈ m.jobs ∧ phase.stake = .holds := by
  simp only [holds, List.any_eq_true, Bool.and_eq_true, beq_iff_eq, Job.refreshing_eq,
    decide_eq_true_eq]
  constructor
  · rintro ⟨⟨_, job⟩, mem, rfl, holds⟩
    cases job with
    | refresh there scope purpose phase =>
      by_cases here : slot = there
      · subst here
        exact ⟨scope, purpose, phase, mem, by simpa [Job.stake] using holds⟩
      · simp [Job.stake, Stake.at, here] at holds
    | call | loop | work | watch | sleep => cases holds
  · rintro ⟨scope, purpose, phase, mem, holds⟩
    exact ⟨_, mem, rfl, by simpa [Job.stake] using holds⟩

/-- Who has the lock of a cache or stands in its line makes a refresh of it. -/
theorem Locked.refresh_of_lock (locked : m.Locked) {c : Cache}
    (cached : m.world.cache? slot = some c) (has : c.holder = some id ∨ id ∈ c.waiting) :
    ∃ scope purpose phase, (id, .refresh slot scope purpose phase) ∈ m.jobs := by
  have staked {stake : Stake} (gives : c.lock.Gives id stake) : stake ≠ .free := by
    rintro rfl
    rcases has with holder | waits
    · cases gives.1.mp holder
    · cases gives.2.mp waits
  rcases locked.gives cached id with ⟨job, mem, gives⟩ | gives
  · cases job with
    | refresh there scope purpose phase =>
      by_cases here : slot = there
      · subst here
        exact ⟨scope, purpose, phase, mem⟩
      · have apart := staked gives
        simp [Job.stake, Stake.at, here] at apart
    | call | loop | work | watch | sleep => exact absurd rfl (staked gives)
  · exact absurd rfl (staked gives)

/-- **Where a cache is busy a refresh of it comes first**: it has the lock, or nobody has and it is first
in line. -/
theorem Locked.first_of_busy (locked : m.Locked) {c : Cache}
    (cached : m.world.cache? slot = some c) (busy : c.isIdle = false) :
    ∃ id scope purpose phase, (id, .refresh slot scope purpose phase) ∈ m.jobs ∧
      (c.holder = some id ∨ c.holder = none ∧ c.waiting.head? = some id) := by
  cases holder : c.holder with
  | some id =>
    obtain ⟨scope, purpose, phase, mem⟩ := locked.refresh_of_lock cached (.inl holder)
    exact ⟨id, scope, purpose, phase, mem, .inl rfl⟩
  | none =>
    have inLine : c.waiting ≠ [] := by
      intro empty
      simp [Cache.isIdle, holder, empty] at busy
    obtain ⟨id, rest, line⟩ := List.exists_cons_of_ne_nil inLine
    obtain ⟨scope, purpose, phase, mem⟩ :=
      locked.refresh_of_lock cached (.inr (line ▸ List.mem_cons_self))
    exact ⟨id, scope, purpose, phase, mem, .inr ⟨rfl, by rw [line]; rfl⟩⟩

/-- A command leaves refreshes as they are, drops them, or sets off one that has not asked for the
lock. -/
theorem Touch.refresh {known : Check → Prop} {p p' : Machine × List ScopeId}
    (touch : Touch known p p') {scope : ScopeId} {purpose : Purpose} {phase : Phase}
    (mem : (id, .refresh slot scope purpose phase) ∈ p'.1.jobs) :
    (id, .refresh slot scope purpose phase) ∈ p.1.jobs ∨ phase = .arriving ∧ purpose ≠ .tick := by
  cases touch with
  | @submit m held job asked =>
    rcases List.mem_append.mp mem with old | new
    · exact .inl old
    · cases List.mem_singleton.mp new
      cases asked <;> exact .inr ⟨rfl, nofun⟩
  | stop m held there => exact .inl ((m.stop_jobs there).1 ▸ mem)
  | abort m held other => exact .inl ((m.abort_jobs other).1 mem)
  | background | derive | cancel | forget => exact .inl mem

end Machine

namespace Scenario.Session

variable {known : Check → Prop} {s : Session} {held : List ScopeId} {slot : Nat} {id : JobId}
  {scope : ScopeId} {purpose : Purpose} {phase' : Phase} {c : Cache} {next : Move}

/-- **Where a refresh comes from** that there is after a patient move: it follows from what it was
before, it has not asked for the lock, or a tick has just set it off, which may have been the last
of a loop that is over. -/
theorem Timely.move_refresh (timely : s.Timely known held) (patient : s.PatientMove next)
    (cached : s.machine.world.cache? slot = some c)
    (mem : (id, .refresh slot scope purpose phase') ∈ (s.move next).machine.jobs) :
    (∃ phase, (id, .refresh slot scope purpose phase) ∈ s.machine.jobs ∧
        phase.Follows s.machine.world (s.move next).machine.world c.limit phase') ∨
      (phase' = .arriving ∧ purpose ≠ .tick) ∨
      (id = s.machine.world.nextJob ∧ phase' = .granted ∧
        (s.move next).machine.now = s.machine.now ∧
        (s.loopEvent? next = some (.tick slot) ∨ s.machine.world.cause? scope ≠ none)) := by
  have after := move_after timely.within next
  -- a refresh that is left alone follows from itself
  have alone (now : (s.move next).machine.now = s.machine.now)
      (old : (id, .refresh slot scope purpose phase') ∈ s.machine.jobs) :
      ∃ phase, (id, .refresh slot scope purpose phase) ∈ s.machine.jobs ∧
        phase.Follows s.machine.world (s.move next).machine.world c.limit phase' :=
    ⟨phase', old, fun _ inTime => inTime.after after now, fun free holds => absurd holds free⟩
  rcases move_cases timely.within next with
    ⟨⟨_, touched⟩, -⟩ | ⟨i, rfl⟩ | ⟨ms, rfl⟩ | ⟨given, rfl⟩
  · have now := (Machine.Touches.kept touched.touches).now
    have before := touched.touches.keep (I := fun p =>
        (id, .refresh slot scope purpose phase') ∈ p.1.jobs →
          (id, .refresh slot scope purpose phase') ∈ s.machine.jobs ∨
            phase' = .arriving ∧ purpose ≠ .tick)
      (fun touch before mem => (touch.refresh mem).elim before .inr) .inl mem
    rcases before with old | new
    · exact .inl (alone now old)
    · exact .inr (.inl new)
  · have now := (s.machine.takeTurn_later i).now
    rcases Machine.mem_takeTurn mem with beside | ⟨⟨number, job⟩, found, ⟨same, going⟩ | spawned⟩
    · exact .inl (alone now (List.mem_of_mem_eraseIdx beside))
    · have world : (s.move (.turn i)).machine.world = (job.step number s.machine.world).2.2 := by
        simp only [Session.move, Machine.takeTurn, found]
      cases (same : id = number)
      rcases Job.step_follows cached going with ⟨phase, rfl, follows⟩ | asked
      · exact .inl ⟨phase, List.mem_of_getElem? found, world ▸ follows⟩
      · exact .inr (.inl asked)
    · obtain ⟨-, rfl, event⟩ := Job.tick_of_spawned spawned
      have numbers := Job.step_numbered number s.machine.world job
      unfold Numbered at numbers
      rw [spawned] at numbers
      refine .inr (.inr ⟨numbers.1, rfl, now, event.imp_left fun event => ?_⟩)
      rw [loopEvent?, Machine.loopEvent?, found]
      exact event
  · have old : (id, .refresh slot scope purpose phase') ∈ s.machine.jobs := mem
    have wakes (wake : Nat) (wakes : wake ∈ (Job.refresh slot scope purpose phase').wakes
        s.machine.world) := patient.2 _ old wake wakes
    exact .inl ⟨phase', old, fun _ inTime => inTime.pass patient.1 old wakes,
      fun free holds => absurd holds free⟩
  · exact .inl (alone rfl mem)

/-! ## From the lock to the end -/

/-- **A job gets the lock of a cache in the first of these moves**, and has it after each of them. -/
structure HoldsSince (s : Session) (slot : Nat) (id : JobId) (later : List Move) : Prop where
  unheld : s.machine.holds slot id = false
  some : later ≠ []
  held : ∀ n < later.length, (s.moves (later.take (n + 1))).machine.holds slot id = true

/-- One move more, after which the job has the lock too. -/
theorem HoldsSince.concat {later : List Move} (since : s.HoldsSince slot id later)
    (holds : (s.moves (later ++ [next])).machine.holds slot id = true) :
    s.HoldsSince slot id (later ++ [next]) := by
  refine ⟨since.unheld, by simp, fun n lt => ?_⟩
  rcases Nat.lt_or_ge n later.length with before | last
  · rw [List.take_append_of_le_length before]
    exact since.held n before
  · rw [List.take_of_length_le (by simpa using last)]
    exact holds

/-- The refresh that this job makes of the cache is in time, if it has got the lock at this
instant. -/
def InTime (s : Session) (slot : Nat) (id : JobId) (since limit : Nat) : Prop :=
  ∃ scope purpose phase, (id, .refresh slot scope purpose phase) ∈ s.machine.jobs ∧
    phase.InTime s.machine.world since limit

/-- **A refresh that keeps the lock stays in time**, and one that gets it is. -/
theorem Timely.move_inTime (timely : s.Timely known held) (patient : s.PatientMove next)
    (cached : s.machine.world.cache? slot = some c)
    (holds : (s.move next).machine.holds slot id = true) :
    (s.machine.holds slot id = false → (s.move next).InTime slot id s.machine.now c.limit) ∧
      ∀ since, s.InTime slot id since c.limit → (s.move next).InTime slot id since c.limit := by
  obtain ⟨scope, purpose, phase', mem, has⟩ := Machine.holds_iff.mp holds
  have locked := timely.paced.locked
  rcases timely.move_refresh patient cached mem with
    ⟨phase, old, follows⟩ | ⟨rfl, -⟩ | ⟨new, rfl, now, -⟩
  · refine ⟨fun unheld => ?_, ?_⟩
    · have free : phase.stake ≠ .holds := by
        intro holds
        rw [Machine.holds_iff.mpr ⟨scope, purpose, phase, old, holds⟩] at unheld
        cases unheld
      exact ⟨scope, purpose, phase', mem, follows.gets free has⟩
    · rintro since ⟨scope₁, purpose₁, phase₁, old₁, inTime⟩
      -- a number is that of one job
      have same := List.inj_on_of_nodup_map locked.distinct old₁ old rfl
      cases same
      exact ⟨scope, purpose, phase', mem, follows.keeps since inTime⟩
  · cases has
  · refine ⟨fun _ => ⟨scope, purpose, .granted, mem, .granted now⟩, ?_⟩
    rintro since ⟨_, _, _, old, -⟩
    exact absurd (locked.numbered _ old) (Nat.not_lt.mpr (Nat.le_of_eq new.symm))

open CheckTree (ofBlueprint?)

/-- **No refresh outlives half its interval.** One that is under way after a patient run got the lock in
some move of it and has had it ever since, and no more than half the interval has gone by. -/
theorem holds_within_limit {b : Blueprint} {t : CheckTree} (built : ofBlueprint? b = some t)
    (before : List Event) {run : List Move} {slot : Nat} {id : JobId} {c : Cache} :
    let s := ofTree (some t) before
    s.Patient run → (s.moves run).machine.holds slot id = true →
    (s.moves run).machine.world.cache? slot = some c →
      ∃ first later, run = first ++ later ∧ (s.moves first).HoldsSince slot id later ∧
        (s.moves run).InTime slot id (s.moves first).machine.now c.limit := by
  intro s patient holds cached
  induction run using List.reverseRecOn generalizing c with
  | nil => cases holds
  | append_singleton run next ih =>
    obtain ⟨patient, last, -⟩ := patient_append.mp patient
    obtain ⟨_, timely⟩ := timely_of_patient built before patient
    have one : s.moves (run ++ [next]) = (s.moves run).move next := s.moves_append run [next]
    rw [one] at holds cached ⊢
    obtain ⟨held', timely'⟩ := timely.move (timely.move_punctual last)
    have makes : ((s.moves run).move next).machine.world.makes =
        (s.moves run).machine.world.makes := moves_makes timely.within [next]
    obtain ⟨c₀, cached₀, make⟩ := World.cache?_of_makes makes.symm cached
    have limit : c₀.limit = c.limit := congrArg (fun make => (make.2 + 1) / 2) make
    obtain ⟨begins, goesOn⟩ := timely.move_inTime last cached₀ holds
    rw [limit] at begins goesOn
    cases held : (s.moves run).machine.holds slot id with
    | false =>
      refine ⟨run, [next], rfl, ⟨held, List.cons_ne_nil _ _, fun n lt => ?_⟩, begins held⟩
      rw [List.take_of_length_le (by simp)]
      exact holds
    | true =>
      obtain ⟨first, later, rfl, since, inTime⟩ := ih patient held cached₀
      refine ⟨first, later ++ [next], List.append_assoc .., since.concat ?_, ?_⟩
      · rw [← moves_append, ← List.append_assoc, one]
        exact holds
      · exact goesOn _ (limit ▸ inTime)

/-! ## From one tick to the next -/

end Scenario.Session

namespace World

variable {w w' : World} {e : Option LoopEvent} {spawned : Spawned} {slot : Nat} {c : Cache}
  {l' : Loop}

/-- **A step that does something to a loop** puts its next tick a whole interval ahead. -/
theorem LoopChange.ahead (change : w.LoopChange e spawned w') (on : w.OnTime)
    (cached : w.cache? slot = some c) (loop : w'.loops[slot]? = some (some l')) :
    (w.loops[slot]? = some (some l') ∧ e ≠ some (.tick slot)) ∨
      w.now + c.interval ≤ l'.nextTick := by
  have written {other : Nat} {c' : Cache} {new : Loop} (cached' : w.cache? other = some c')
      (loops : w'.loops = w.loops.set other (some new))
      (ahead : w.now + c'.interval ≤ new.nextTick) (event : ∀ there, e = some (.tick there) → there = other) :
      (w.loops[slot]? = some (some l') ∧ e ≠ some (.tick slot)) ∨
        w.now + c.interval ≤ l'.nextTick := by
    rcases loop_of_set loops loop with ⟨rfl, rfl⟩ | ⟨apart, old⟩
    · cases cached.symm.trans cached'
      exact .inr ahead
    · exact .inl ⟨old, fun tick => apart (event slot tick).symm⟩
  cases change with
  | unseen _ loops => exact .inl ⟨loops ▸ loop, nofun⟩
  | ticked cached' own live _ _ loops =>
    have here := (loops_at cached').trans (congrArg some own)
    refine written cached' loops (Nat.add_le_add_right (on.not_late here live) _) ?_
    rintro _ ⟨⟩
    rfl
  | reset cached' _ _ loops | setOff _ _ cached' _ _ loops =>
    exact written cached' loops (Nat.le_refl _) nofun

end World

namespace Machine

/-- **The refresh of a tick is in time, and the next tick is a whole interval later** than the instant
when it got the lock, if the loop is live that has set it off. -/
def TicksApart (m : Machine) (slot : Nat) : Prop :=
  ∀ c id own phase, m.world.cache? slot = some c → (id, .refresh slot own .tick phase) ∈ m.jobs →
    ∃ since, phase.InTime m.world since c.limit ∧ ∀ l, c.loop = some l → l.scope = own →
      m.world.cause? own = none → since + c.interval ≤ l.nextTick

/-- **While anything ticks for another loop, the next tick of the live one is a whole interval
ahead.** -/
def Relieved (m : Machine) (slot : Nat) : Prop :=
  ∀ c l, m.world.cache? slot = some c → c.loop = some l → m.world.cause? l.scope = none →
    ∀ p ∈ m.jobs, ∀ own, p.2.ticksFor? slot = some own → own ≠ l.scope →
      m.now + c.interval ≤ l.nextTick

end Machine

namespace Scenario.Session

variable {known : Check → Prop} {s : Session} {held : List ScopeId} {slot : Nat} {next : Move}

/-- **A move leaves the loop of a cache as it is**, and no tick is taken, or its next tick is a whole
interval ahead. -/
theorem Timely.move_ahead (timely : s.Timely known held) {c : Cache} {l' : Loop}
    (cached : s.machine.world.cache? slot = some c)
    (loop : (s.move next).machine.world.loops[slot]? = some (some l')) :
    (s.machine.world.loops[slot]? = some (some l') ∧ s.loopEvent? next ≠ some (.tick slot)) ∨
      s.machine.now + c.interval ≤ l'.nextTick := by
  have looped := timely.paced.looped
  rcases move_cases timely.within next with
    ⟨⟨_, touched⟩, none, -⟩ | ⟨i, rfl⟩ | ⟨ms, rfl⟩ | ⟨given, rfl⟩
  · refine .inl ⟨?_, none ▸ nofun⟩
    exact touched.keep (I := fun m => m.world.loops[slot]? = some (some l') →
        s.machine.world.loops[slot]? = some (some l'))
      (fun touch looped old loop => old ((touch.spares looped.knows).old slot l' loop))
      looped id loop
  · obtain ⟨_, -, change⟩ := Machine.takeTurn_change looped.knows i
    exact change.ahead timely.paced.onTime cached loop
  · exact .inl ⟨loop, nofun⟩
  · exact .inl ⟨loop, nofun⟩

/-- A loop that a move sets off is the one that the cache keeps then. -/
theorem Timely.loop_setOff (timely : s.Timely known held) {own : ScopeId}
    (setOff : s.loopSetOff? next = some (slot, own)) :
    ∃ l, (s.move next).machine.world.loops[slot]? = some (some l) ∧ l.scope = own := by
  cases next with
  | begin | aside | pass | grace => cases setOff
  | turn i =>
    obtain ⟨_, same, change⟩ := Machine.takeTurn_change timely.paced.looped.knows i
    exact (change.of_setOff (same.trans setOff)).2.2.1

/-- A loop that was there before a move and is live after it was live before. -/
theorem Timely.live_before (timely : s.Timely known held) {c : Cache} {l : Loop}
    (cached : s.machine.world.cache? slot = some c) (loop : c.loop = some l)
    (live : (s.move next).machine.world.cause? l.scope = none) :
    s.machine.world.cause? l.scope = none := by
  by_contra ended
  have known :=
    timely.paced.looped.knows slot l ((World.loops_at cached).trans (congrArg some loop))
  exact (move_after timely.within next).stays known ended live

/-- **A patient move keeps ticks apart.** -/
theorem Timely.move_ticksApart (timely : s.Timely known held) (patient : s.PatientMove next)
    (apart : s.machine.TicksApart slot) : (s.move next).machine.TicksApart slot := by
  intro c' id own phase' cached' mem
  obtain ⟨c, cached, make⟩ :=
    World.cache?_of_makes (moves_makes timely.within [next]).symm cached'
  have interval : c.interval = c'.interval := congrArg Prod.snd make
  have limit : c.limit = c'.limit := congrArg (fun make => (make.2 + 1) / 2) make
  rw [← interval, ← limit]
  -- a loop is as it was, and live as before, or its next tick is ahead
  have loops {l' : Loop} (loop : c'.loop = some l')
      (live : (s.move next).machine.world.cause? l'.scope = none) :
      (c.loop = some l' ∧ s.machine.world.cause? l'.scope = none ∧
          s.loopEvent? next ≠ some (.tick slot)) ∨
        s.machine.now + c.interval ≤ l'.nextTick := by
    have there := (World.loops_at cached').trans (congrArg some loop)
    refine (timely.move_ahead cached there).imp_left ?_
    rintro ⟨same, untaken⟩
    have before := Option.some.inj ((World.loops_at cached).symm.trans same)
    exact ⟨before, timely.live_before cached before live, untaken⟩
  rcases timely.move_refresh patient cached mem with
    ⟨phase, old, follows⟩ | ⟨-, other⟩ | ⟨-, rfl, now, tick⟩
  · obtain ⟨since, inTime, later⟩ := apart c id own phase cached old
    refine ⟨since, follows.keeps since inTime, ?_⟩
    rintro l' loop rfl live
    rcases loops loop live with ⟨before, alive, -⟩ | ahead
    · exact later l' before rfl alive
    · exact Nat.le_trans (Nat.add_le_add_right inTime.begun _) ahead
  · exact absurd rfl other
  · refine ⟨s.machine.now, .granted now, ?_⟩
    rintro l' loop rfl live
    rcases loops loop live with ⟨-, alive, untaken⟩ | ahead
    · exact (tick.elim untaken (absurd alive)).elim
    · exact ahead

/-- **A patient move keeps the live loop relieved** of those before it. -/
theorem Timely.move_relieved (timely : s.Timely known held) (patient : s.PatientMove next)
    (nested : s.machine.Nested)
    (ticking : ∀ p ∈ s.machine.jobs, ∀ own, p.2.ticksFor? slot = some own →
      s.machine.world.cause? own = none →
        ∃ l, s.machine.world.loops[slot]? = some (some l) ∧ l.scope = own)
    (relieved : s.machine.Relieved slot) : (s.move next).machine.Relieved slot := by
  intro c' l' cached' loop' live p mem own ticks other
  obtain ⟨c, cached, make⟩ :=
    World.cache?_of_makes (moves_makes timely.within [next]).symm cached'
  have interval : c.interval = c'.interval := congrArg Prod.snd make
  rw [← interval]
  have entry := (World.loops_at cached').trans (congrArg some loop')
  -- what ticks for another loop did so before
  have old : ∃ q ∈ s.machine.jobs, q.2.ticksFor? slot = some own := by
    have from' : s.machine.FromLoops slot (s.machine.jobs.filterMap (·.2.ticksFor? slot)) :=
      fun q there own ticks => List.mem_filterMap.mpr ⟨q, there, ticks⟩
    rcases List.mem_append.mp (move_fromLoops timely.within from' next p mem own ticks) with
      old | new
    · exact List.mem_filterMap.mp old
    · obtain ⟨⟨there, own'⟩, listed, rfl⟩ := List.mem_map.mp new
      obtain ⟨setOff, here⟩ := Option.filter_eq_some_iff.mp (Option.mem_toList.mp listed)
      cases (beq_iff_eq.mp here : there = slot)
      obtain ⟨l, is, same⟩ := timely.loop_setOff setOff
      cases entry.symm.trans is
      exact absurd same.symm other
  obtain ⟨q, there, ticks⟩ := old
  have before (same : s.machine.world.loops[slot]? = some (some l')) : c.loop = some l' :=
    Option.some.inj ((World.loops_at cached).symm.trans same)
  have settled (now : (s.move next).machine.now = s.machine.now) :
      (s.move next).machine.now + c.interval ≤ l'.nextTick := by
    rw [now]
    rcases timely.move_ahead cached entry with ⟨same, -⟩ | ahead
    · have alive := timely.live_before cached (before same) live
      exact relieved c l' cached (before same) alive q there own ticks other
    · exact ahead
  rcases move_cases timely.within next with
    ⟨⟨_, touched⟩, -⟩ | ⟨i, rfl⟩ | ⟨ms, rfl⟩ | ⟨given, rfl⟩
  · exact settled (Machine.Touches.kept touched.touches).now
  · exact settled (s.machine.takeTurn_later i).now
  · -- time passes, so whatever ticks is of the live loop
    have alive := patient.1.live_of_ticks nested timely.paced.sheltered there ticks
    obtain ⟨l, is, same⟩ := ticking q there own ticks alive
    cases entry.symm.trans is
    exact absurd same.symm other
  · exact settled rfl

open CheckTree (ofBlueprint?)

/-- After a patient run the ticks of every loop are apart, and it is relieved of those before it. -/
theorem ticksApart_of_patient {b : Blueprint} {t : CheckTree} (built : ofBlueprint? b = some t)
    (before : List Event) {run : List Move} (patient : (ofTree (some t) before).Patient run)
    (slot : Nat) : ((ofTree (some t) before).moves run).machine.TicksApart slot ∧
      ((ofTree (some t) before).moves run).machine.Relieved slot := by
  induction run using List.reverseRecOn with
  | nil =>
    refine ⟨fun c id own phase cached mem => ?_, fun c l cached loop live p mem => ?_⟩ <;> cases mem
  | append_singleton run next ih =>
    obtain ⟨patient, last, -⟩ := patient_append.mp patient
    obtain ⟨_, timely⟩ := timely_of_patient built before patient
    obtain ⟨apart, relieved⟩ := ih patient
    rw [moves_append]
    exact ⟨timely.move_ticksApart last apart, timely.move_relieved last
      (nested_of_moves built before run)
      (fun p mem own ticks live => loop_of_ticks built before mem ticks live) relieved⟩

/-- **When a loop ticks, the refresh of the tick before is over**, and so a tick is skipped on account
of a refresh only that somebody has asked for. That one has the lock, or nobody has and it is first in
line. -/
theorem tick_after_ticks {b : Blueprint} {t : CheckTree} (built : ofBlueprint? b = some t)
    (before : List Event) {run : List Move} {i slot : Nat} {c : Cache} :
    let s := ofTree (some t) before
    let m := (s.moves run).machine
    s.Patient run → (s.moves run).loopEvent? (.turn i) = some (.tick slot) →
    m.world.cache? slot = some c → 2 ≤ c.interval →
      (∀ id own phase, (id, .refresh slot own .tick phase) ∉ m.jobs) ∧
      (m.Begins (m.takeTurn i) slot ∨ m.Skips (m.takeTurn i) c.name ∧
        ∃ id own purpose phase, (id, .refresh slot own purpose phase) ∈ m.jobs ∧ purpose ≠ .tick ∧
          (c.holder = some id ∨ c.holder = none ∧ c.waiting.head? = some id)) := by
  intro s m patient tick cached long
  obtain ⟨_, timely⟩ := timely_of_patient built before patient
  have locked : m.Locked := timely.paced.locked
  have gone (id : JobId) (own : ScopeId) (phase : Phase) :
      (id, .refresh slot own .tick phase) ∉ m.jobs := by
    intro mem
    obtain ⟨apart, relieved⟩ := ticksApart_of_patient built before patient slot
    obtain ⟨since, inTime, later⟩ := apart c id own phase cached mem
    have soon := inTime.now_le
    -- the tick that is taken is due, and it was to come a whole interval after the lock
    obtain ⟨⟨_, job⟩, found, event⟩ := Option.bind_eq_some_iff.mp tick
    obtain ⟨own', c', rfl, cached', live, due⟩ := Job.loop_of_tick event
    cases cached.symm.trans cached'
    obtain ⟨l, loop, passed⟩ := (Option.any_eq_true _ _).mp due
    rw [Bool.and_eq_true, beq_iff_eq, decide_eq_true_eq] at passed
    obtain ⟨rfl, reached⟩ := passed
    have reached : l.nextTick ≤ m.world.now := reached
    by_cases same : l.scope = own
    · have ahead := later l loop same (same ▸ live)
      have half : c.limit = (c.interval + 1) / 2 := rfl
      have soon : m.world.now ≤ since + c.limit := soon
      omega
    · have ahead := relieved c l cached loop live _ mem own (if_pos rfl) (Ne.symm same)
      have ahead : m.world.now + c.interval ≤ l.nextTick := ahead
      omega
  refine ⟨gone, ?_⟩
  rcases Machine.tick_cases tick cached with ⟨-, begins⟩ | ⟨busy, skips⟩
  · exact .inl begins
  obtain ⟨id, own, purpose, phase, mem, first⟩ := locked.first_of_busy cached busy
  refine .inr ⟨skips, id, own, purpose, phase, mem, ?_, first⟩
  rintro rfl
  exact gone id own phase mem

/-- **A refresh never outlives half its interval**, whatever its inner check does. One that is under way
after a patient run got the lock in some move of it and has had it ever since; no more than half the
interval has gone by, rounded up. So if the interval is two milliseconds or longer no refresh of a tick
is left when the loop ticks again, and a tick is skipped on account of a refresh only that a start or a
caller has asked for. Scenarios are such runs. -/
theorem within_half_interval {b : Blueprint} {t : CheckTree} (built : ofBlueprint? b = some t)
    (before : List Event) (slot : Nat) :
    let s := ofTree (some t) before
    (∀ (run : List Move) (id : JobId) (c : Cache), s.Patient run →
      (s.moves run).machine.holds slot id = true →
      (s.moves run).machine.world.cache? slot = some c →
        ∃ first later, run = first ++ later ∧ (s.moves first).HoldsSince slot id later ∧
          (s.moves run).machine.now ≤ (s.moves first).machine.now + (c.interval + 1) / 2) ∧
    (∀ (run : List Move) (i : Nat) (c : Cache),
      let m := (s.moves run).machine
      s.Patient run → (s.moves run).loopEvent? (.turn i) = some (.tick slot) →
      m.world.cache? slot = some c → 2 ≤ c.interval →
        (∀ id own phase, (id, .refresh slot own .tick phase) ∉ m.jobs) ∧
        (m.Begins (m.takeTurn i) slot ∨ m.Skips (m.takeTurn i) c.name ∧
          ∃ id own purpose phase, (id, .refresh slot own purpose phase) ∈ m.jobs ∧
            purpose ≠ .tick ∧
            (c.holder = some id ∨ c.holder = none ∧ c.waiting.head? = some id))) ∧
    ∀ cs : List Command, s.LeadsPatiently (playAll cs s).2 := by
  intro s
  refine ⟨?_, fun run i c => tick_after_ticks built before, playAll_patient built before⟩
  intro run id c patient holds cached
  obtain ⟨first, later, split, since, inTime⟩ := holds_within_limit built before patient holds cached
  obtain ⟨_, _, phase, -, inTime⟩ := inTime
  exact ⟨first, later, split, since, inTime.now_le⟩

/-- A probe that hangs, refreshed every 5 milliseconds. The refresh of the tick at 8 is under way at 11,
and has been since 8. At 13 the loop ticks again, and the tick is skipped for a refresh that was forced
at 12. -/
theorem from_8_to_11_and_skipped_at_13 :
    let b : Blueprint := .cached 5 (.probe ⟨"p", "p", ⟨[⟨none, false⟩], .panic⟩, []⟩)
    let start : List Move := [.begin (.start 0 {}), .turn 0, .pass 3, .turn 0, .pass 5]
    let tick : List Move := start ++ [.turn 0, .turn 1, .pass 3]
    let force : List Move := tick ++ [.turn 1, .pass 1, .begin (.force 0 {}), .turn 1, .pass 1]
    ∃ t, ofBlueprint? b = some t ∧
      let s := ofTree (some t) []
      let m := (s.moves force).machine
      (s.moves tick).machine.holds 0 2 = true ∧
      (∃ first later, tick = first ++ later ∧ (s.moves first).HoldsSince 0 2 later ∧
        (s.moves tick).machine.now = 11 ∧ 11 ≤ (s.moves first).machine.now + 3) ∧
      (∀ id own phase, (id, .refresh 0 own .tick phase) ∉ m.jobs) ∧
      m.Skips (m.takeTurn 0) "p" ∧
      ∃ own purpose phase, (3, .refresh 0 own purpose phase) ∈ m.jobs ∧ purpose ≠ .tick := by
  intro b start tick force
  have facts : (ofBlueprint? b).any fun t =>
      let s := ofTree (some t) []
      decide <| s.patient? force = true ∧ (s.moves tick).machine.holds 0 2 = true ∧
        (s.moves tick).machine.now = 11 ∧
        ((s.moves tick).machine.world.cache? 0).map (·.interval) = some 5 ∧
        (s.moves force).loopEvent? (.turn 0) = some (.tick 0) ∧
        ((s.moves force).machine.takeTurn 0).jobs.length = (s.moves force).machine.jobs.length ∧
        ((s.moves force).machine.world.cache? 0).map
          (fun c => (c.name, c.interval, c.holder)) = some ("p", 5, some 3) := by decide +kernel
  obtain ⟨t, built, facts⟩ := (Option.any_eq_true _ _).mp facts
  obtain ⟨seen, holds, now, interval, ticks, length, cache⟩ := of_decide_eq_true facts
  obtain ⟨c, cached, interval⟩ := Option.map_eq_some_iff.mp interval
  obtain ⟨c', cached', cache⟩ := Option.map_eq_some_iff.mp cache
  simp only [Prod.mk.injEq] at cache
  obtain ⟨name, long, holder⟩ := cache
  have patient := patient_ofTree built [] seen
  obtain ⟨soon, apart, -⟩ := within_half_interval built [] 0
  refine ⟨t, built, holds, ?_, ?_⟩
  · have begun : (ofTree (some t) []).Patient tick := (patient_append.mp patient).1
    obtain ⟨first, later, split, since, le⟩ := soon tick 2 c begun holds cached
    rw [now, interval] at le
    exact ⟨first, later, split, since, now, le⟩
  · obtain ⟨gone, begins | ⟨skips, id, own, purpose, phase, mem, other, has⟩⟩ :=
      apart force 0 c' patient ticks cached' (by omega)
    · obtain ⟨-, _, more⟩ := begins
      have more := more.length_eq
      simp only [List.length_cons, length] at more
      omega
    · rcases has with has | ⟨free, -⟩
      · cases holder.symm.trans has
        exact ⟨gone, name ▸ skips, own, purpose, phase, mem, other⟩
      · cases holder.symm.trans free

end Scenario.Session

end HealthTree
