import HealthTree.Proofs.HalfInterval
import HealthTree.Proofs.Requests

/-!
# A panic breaks nothing else

A group catches the panic of a child, so an inner check panics only if it is one probe, inside
debounced checks or not. A call of such a check shows nothing to any of these before it is over
(`Flight.step_lone`). So when it panics all that the refresh has done to the world is to count calls
of the probe, to derive one scope, and to have had the lock (`Job.step_traceless`): as everybody else
sees it the world is what it was (`World.apart`), and that after each step of the refresh.

With the panic the refresh is over, whoever it was made for, and the lock is free
(`panic_breaks_nothing`). No job has its number again, and no lock names it; so whoever waits for the
lock later, and whatever tick is skipped, waits or is skipped on account of another refresh.
-/

namespace HealthTree

/-! ## The call that panics -/

/-- The deed counts a call of a probe, and does nothing else. -/
def Deed.Counts : Deed → Prop
  | .startCall _ | .completeCall _ => True
  | .observe _ _ _ _ | .tell _ => False

/-- Deeds that count calls change nothing but the counts. -/
theorem World.performAll_counts {deeds : List Deed} (counts : ∀ d ∈ deeds, d.Counts) (w : World) :
    w.performAll deeds = { w with calls := (w.performAll deeds).calls } := by
  induction deeds generalizing w with
  | nil => rfl
  | cons d rest ih =>
    have first : w.perform d = { w with calls := (w.perform d).calls } := by
      cases d with
      | startCall | completeCall => rfl
      | observe | tell => exact (counts _ List.mem_cons_self).elim
    rw [World.performAll_cons, ih fun d mem => counts d (List.mem_cons_of_mem _ mem), first]

theorem World.pauseJournal_counts (w : World) (p : Probe) (scope : ScopeId) (pauses : List Pause) :
    ∀ d ∈ w.pauseJournal p scope pauses, d.Counts := by
  induction pauses with
  | nil =>
    intro d mem
    cases List.mem_singleton.mp mem
    trivial
  | cons pause rest ih =>
    simp only [pauseJournal]
    cases (if pause.heeds then w.cause? scope else none) with
    | some cause => exact List.forall_mem_nil _
    | none =>
      by_cases unwaited : pause.length = some 0
      · simpa only [if_pos unwaited] using ih
      · simp only [if_neg unwaited]
        exact List.forall_mem_nil _

/-- No group waits in the call: what is under way is one probe, inside debounced checks or not. -/
def Flight.lone : Flight → Bool
  | .fresh _ | .pausing _ _ _ _ => true
  | .gathering _ _ _ _ => false
  | .debouncing _ _ _ inner => inner.lone

/-- The call has panicked, or goes on as one of a lone probe. -/
def Turn.lone : Turn → Bool
  | .still flight => flight.lone
  | .done _ => false
  | .panicked => true

/-- A debounced check is shown nothing before the call of its inner check is over. -/
theorem World.debounced_lone {w : World} {slot : Nat} {budget : UInt32} {name : String} {t : Turn}
    (lone : (w.debounced slot budget name t).1.lone = true) :
    t.lone = true ∧ World.debounceJournal slot budget name t = [] := by
  cases t with
  | still flight => exact ⟨lone, rfl⟩
  | panicked => exact ⟨rfl, rfl⟩
  | done o => cases lone

theorem Check.begin_lone {c : Check} {scope : ScopeId} {w : World}
    (lone : (c.begin scope w).1.lone = true) : ∀ d ∈ c.journal scope w, d.Counts := by
  cases c with
  | fixed => exact List.forall_mem_nil _
  | probe p =>
    rw [Check.journal, List.forall_mem_cons]
    exact ⟨trivial, (w.startCall p.id).pauseJournal_counts p scope _⟩
  | group name children =>
    simp only [Check.begin, World.gather] at lone
    split at lone
    · cases lone
    · split at lone <;> cases lone
  | cached slot interval inner => exact List.forall_mem_nil _
  | debounced slot budget inner =>
    rw [Check.begin] at lone
    obtain ⟨lone, none⟩ := World.debounced_lone lone
    rw [Check.journal, none, List.append_nil]
    exact begin_lone lone

/-- **Until it is over the call of a lone probe does nothing but count.** If it has panicked, or is one
of a lone probe now, it was one before. -/
theorem Flight.step_lone {f : Flight} {scope : ScopeId} {w : World}
    (lone : (f.step scope w).1.lone = true) :
    f.lone = true ∧ ∀ d ∈ f.journal scope w, d.Counts := by
  cases f with
  | fresh check => exact ⟨rfl, Check.begin_lone lone⟩
  | pausing p wake heeds act =>
    refine ⟨rfl, ?_⟩
    simp only [journal]
    split
    · exact List.forall_mem_nil _
    · split
      · exact w.pauseJournal_counts p scope _
      · exact List.forall_mem_nil _
  | gathering name names g waiting =>
    -- a group catches what its children do, and goes on as a group
    simp only [step] at lone
    cases ended : w.cause? scope with
    | some cause =>
      rw [ended] at lone
      cases lone
    | none =>
      simp only [ended] at lone
      split at lone <;> cases lone
  | debouncing slot budget name inner =>
    rw [step] at lone
    obtain ⟨lone, none⟩ := World.debounced_lone lone
    rw [journal, none, List.append_nil]
    exact step_lone lone

/-! ## The world as everybody else sees it -/

/-- A cache without what this job has to do with its lock. -/
def Cache.apart (id : JobId) (c : Cache) : Cache :=
  { c with holder := c.holder.filter (· != id), waiting := c.waiting.filter (· != id) }

/-- **The world as everybody else sees it**: no lock names this job. -/
def World.apart (id : JobId) (w : World) : World :=
  { w with caches := w.caches.map (Cache.apart id) }

/-- **What a job does leaves no trace**: as everybody else sees it the world is what it was, but that
calls of probes were counted and scopes were derived. -/
structure World.Traceless (id : JobId) (w w' : World) : Prop where
  same : w'.apart id = { w.apart id with calls := w'.calls, scopes := w'.scopes }
  scopes : ∃ new, w'.scopes.nodes = w.scopes.nodes ++ new

namespace World

variable {w w' w'' : World} {id : JobId} {slot : Nat} {c : Cache} {scope limit : ScopeId}

theorem Traceless.refl (id : JobId) (w : World) : w.Traceless id w :=
  ⟨rfl, [], (List.append_nil _).symm⟩

theorem Traceless.trans (first : w.Traceless id w') (second : w'.Traceless id w'') :
    w.Traceless id w'' := by
  obtain ⟨same, new, nodes⟩ := first
  obtain ⟨same', new', nodes'⟩ := second
  refine ⟨?_, new ++ new', by rw [nodes', nodes, List.append_assoc]⟩
  rw [same', same]

/-- A change of one cache is not seen if it is one of the lock, and of this job's part in it. -/
theorem Traceless.modifyCache {f : Cache → Cache}
    (unseen : ∀ c, w.cache? slot = some c → (f c).apart id = c.apart id) :
    w.Traceless id (w.modifyCache slot f) := by
  have caches : (w.caches.modify slot f).map (Cache.apart id) = w.caches.map (Cache.apart id) := by
    apply List.ext_getElem?
    intro i
    rw [List.getElem?_map, List.getElem?_map, List.getElem?_modify]
    cases found : w.caches[i]? with
    | none => rfl
    | some c =>
      by_cases here : slot = i
      · subst here
        simp [unseen c found]
      · simp [here]
  refine ⟨?_, [], (List.append_nil _).symm⟩
  simp only [apart, World.modifyCache, caches]

/-- The loops of caches are what they were. -/
theorem Traceless.loops (traceless : w.Traceless id w') : w'.loops = w.loops := by
  have loops (w : World) : (w.apart id).loops = w.loops := List.map_map ..
  have same := congrArg World.loops traceless.same
  rw [loops] at same
  exact same.trans (loops w)

/-- Nor are new scopes, and counts of calls. -/
theorem Traceless.of_counts {scopes : Scopes} {calls : List (String × Calls)}
    (grows : ∃ new, scopes.nodes = w.scopes.nodes ++ new) :
    w.Traceless id { w with scopes := scopes, calls := calls } :=
  ⟨rfl, grows⟩

end World

/-! ## The steps of a refresh that panics -/

/-- The call has panicked. -/
def Turn.hasPanicked : Turn → Bool
  | .panicked => true
  | .still _ | .done _ => false

/-- **The inner check panics in this step** of a refresh. -/
def Job.panics (id : JobId) (w : World) : Job → Bool
  | refresh slot scope _ phase =>
    (w.cache? slot).any fun c =>
      match w.attempt id slot c scope phase with
      | .calls limit flight w => (w.callInner limit flight).1.hasPanicked
      | .refused _ _ | .waits _ => false
  | call _ _ _ | loop _ _ | work _ _ | watch _ _ | sleep _ => false

/-- The call of the inner check, if there is one, is one of a lone probe. -/
def Phase.lone : Phase → Bool
  | .calling _ flight => flight.lone
  | .arriving | .queued | .granted => true

/-- What the caller of a refresh is told that panics; nobody waits for that of a tick. -/
def Purpose.panicked (id : JobId) (now : Nat) : Purpose → List (JobId × Nat × Reply)
  | .tick => []
  | .start _ | .force => [(id, now, .refreshPanicked)]

namespace World

variable {w w₁ : World} {id : JobId} {slot : Nat} {c : Cache} {scope limit : ScopeId}
  {phase : Phase} {flight : Flight}

/-- **An attempt leaves no trace**: all it changes of a cache is this job's part in the lock. -/
theorem attempt_traceless (cached : w.cache? slot = some c)
    (agrees : w.Agrees id (phase.stake.at slot)) :
    w.Traceless id (w.attempt id slot c scope phase).world := by
  have unlocked (free : c.holder = none) : w.Traceless id (w.lock slot id) := by
    apply Traceless.modifyCache
    intro c' cached'
    cases cached.symm.trans cached'
    simp [Cache.apart, free, List.filter_filter]
  have limited (w : World) : w.Traceless id (w.limited c scope) := .of_counts ⟨_, rfl⟩
  have begun (free : c.holder = none) : w.Traceless id ((w.lock slot id).limited c scope) :=
    (unlocked free).trans (limited _)
  have cases := w.attempt_cases id slot c scope phase
  generalize w.attempt id slot c scope phase = a at cases ⊢
  cases cases with
  | walksIn live idle =>
    rw [Cache.isIdle, Bool.and_eq_true, Option.isNone_iff_eq_none] at idle
    exact begun idle.1
  | movesUp first =>
    rw [Bool.and_eq_true, Option.isNone_iff_eq_none] at first
    exact begun first.1
  | linesUp =>
    refine .modifyCache fun c _ => ?_
    simp [Cache.apart]
  | stepsOut =>
    refine .modifyCache fun c _ => ?_
    simp [Cache.apart, List.filter_filter]
  | granted => exact limited w
  | turnsBack | stays | calling => exact .refl id w

/-- Nor does the call of an inner check that panics, or may do so yet. -/
theorem callInner_traceless (lone : (w.callInner limit flight).1.lone = true) (id : JobId) :
    flight.lone = true ∧ w.Traceless id (w.callInner limit flight).2 := by
  have counted (lone : (flight.step limit w).1.lone = true) :
      flight.lone = true ∧ w.Traceless id (flight.step limit w).2 := by
    obtain ⟨before, counts⟩ := Flight.step_lone lone
    refine ⟨before, ?_⟩
    rw [Flight.step_world, performAll_counts counts]
    exact .of_counts ⟨[], (List.append_nil _).symm⟩
  have cases := w.callInner_cases limit flight
  generalize w.callInner limit flight = r at cases lone ⊢
  cases cases with
  | steps => exact counted lone
  | lastTurn =>
    -- what would go on is cut off, so the call has panicked
    refine counted ?_
    cases turn : (flight.step limit w).1 with
    | still | done => simp [turn, Turn.cutOff, Turn.lone] at lone
    | panicked => rfl
  | cut => cases lone

end World

/-- **What a step comes to in which the inner check panics**: it leaves no trace and sets nothing off,
the job is over, who waits for it is told, and the lock is free. -/
structure World.PanicStep (w : World) (id : JobId) (slot : Nat) (purpose : Purpose)
    (r : JobTurn × Spawned × World) : Prop where
  traceless : w.Traceless id r.2.2
  alone : r.2.1 = none
  gone : r.1.left id = []
  told : ∀ now, r.1.result id now = purpose.panicked id now
  free : ∀ c, r.2.2.cache? slot = some c → c.holder = none

namespace Job

variable {w : World} {id : JobId} {slot : Nat} {scope : ScopeId} {purpose : Purpose}
  {phase phase' : Phase}

/-- **A step leaves no trace that leaves a refresh unfinished**, if the call of its inner check is one
of a lone probe then; and so it was before. -/
theorem step_traceless (agrees : w.Agrees id (Job.refresh slot scope purpose phase).stake)
    (going : ((Job.refresh slot scope purpose phase).step id w).1 =
      .going (.refresh slot scope purpose phase'))
    (begun : phase' ≠ .arriving) (lone : phase'.lone = true) :
    phase.lone = true ∧
      w.Traceless id ((Job.refresh slot scope purpose phase).step id w).2.2 ∧
      ((Job.refresh slot scope purpose phase).step id w).2.1 = none := by
  simp only [Job.step] at going ⊢
  cases cached : w.cache? slot with
  | none => simp [cached] at going
  | some c =>
    have before : w.Traceless id (w.attempt id slot c scope phase).world :=
      World.attempt_traceless cached agrees
    simp only [cached, World.stepRefresh_eq] at going ⊢
    cases attempted : w.attempt id slot c scope phase with
    | refused cause w₁ =>
      simp only [attempted] at going
      obtain ⟨_, _, same⟩ := World.conclude_going _ _ _ _ _ _ going
      cases same
      exact absurd rfl begun
    | waits w₁ =>
      rw [attempted] at before
      refine ⟨?_, before, rfl⟩
      rcases World.attempt_waits attempted with ⟨rfl, -⟩ | ⟨rfl, -⟩ <;> rfl
    | calls limit flight w₁ =>
      rw [attempted] at before
      simp only [attempted, World.goOnRefresh_eq] at going ⊢
      rcases World.refreshTurn_going going with ⟨flight', still, same⟩ | ⟨_, _, same⟩
      · cases same
        have goesOn : (w₁.callInner limit flight).1.lone = true := still ▸ lone
        obtain ⟨first, traceless⟩ := World.callInner_traceless goesOn id
        simp only [still, World.refreshTurn]
        refine ⟨?_, before.trans traceless, trivial⟩
        cases phase with
        | calling =>
          cases attempted
          exact first
        | arriving | queued | granted => rfl
      · cases same
        exact absurd rfl begun

/-- **Nor does the step in which the inner check panics.** -/
theorem step_of_panics (agrees : w.Agrees id (Job.refresh slot scope purpose phase).stake)
    (panics : (Job.refresh slot scope purpose phase).panics id w = true) :
    phase.lone = true ∧
      w.PanicStep id slot purpose ((Job.refresh slot scope purpose phase).step id w) := by
  obtain ⟨c, cached, panics⟩ := (Option.any_eq_true _ _).mp panics
  have before : w.Traceless id (w.attempt id slot c scope phase).world :=
    World.attempt_traceless cached agrees
  have moves : w.Moves id ((w.attempt id slot c scope phase).stake.at slot)
      (w.attempt id slot c scope phase).world := World.attempt_moves cached agrees
  simp only [Job.step, cached, World.stepRefresh_eq]
  cases attempted : w.attempt id slot c scope phase with
  | refused | waits => simp [attempted] at panics
  | calls limit flight w₁ =>
    rw [attempted] at before moves
    replace moves : w₁.Agrees id (Stake.holds.at slot) := moves.own
    simp only [attempted] at panics
    simp only [World.goOnRefresh_eq]
    cases turn : (w₁.callInner limit flight).1 with
    | still | done => simp [turn, Turn.hasPanicked] at panics
    | panicked =>
      have lone : (w₁.callInner limit flight).1.lone = true := by rw [turn]; rfl
      obtain ⟨first, traceless⟩ := World.callInner_traceless lone id
      have released : (w₁.callInner limit flight).2.Traceless id
          ((w₁.callInner limit flight).2.unlock slot) := by
        apply World.Traceless.modifyCache
        intro c₁ cached₁
        -- the lock that is given back is that of the refresh
        have cached₁ : w₁.cache? slot = some c₁ := by
          rwa [World.cache?, World.callInner_caches] at cached₁
        have own := (moves slot _ (World.locks_at cached₁)).1.mpr (Stake.at_self slot .holds)
        have holder : c₁.holder = some id := own
        simp [Cache.apart, holder, Option.filter]
      constructor
      · cases phase with
        | calling =>
          cases attempted
          exact first
        | arriving | queued | granted => rfl
      · refine ⟨(before.trans traceless).trans released, rfl, ?_, ?_, ?_⟩
        · cases purpose <;> rfl
        · intro now
          cases purpose <;> rfl
        · intro c' cached'
          simp only [World.refreshTurn, World.cache?, World.unlock, World.modifyCache,
            List.getElem?_modify_eq] at cached'
          obtain ⟨_, -, rfl⟩ := Option.map_eq_some_iff.mp cached'
          rfl

end Job

/-! ## Afterwards -/

namespace Machine

variable {m : Machine} {slot : Nat} {id : JobId} {c : Cache}

/-- **A refresh of the cache comes first**: it has the lock, or nobody has and it is first in line. -/
def ComesFirst (m : Machine) (slot : Nat) (c : Cache) (id : JobId) : Prop :=
  (∃ scope purpose phase, (id, .refresh slot scope purpose phase) ∈ m.jobs) ∧
    (c.holder = some id ∨ c.holder = none ∧ c.waiting.head? = some id)

/-- **Nothing of a job is left**: it is not going on, and no lock names it. -/
structure RidOf (m : Machine) (id : JobId) : Prop where
  gone : ∀ job, (id, job) ∉ m.jobs
  unnamed : ∀ c ∈ m.world.caches, c.holder ≠ some id ∧ id ∉ c.waiting

theorem Locked.ridOf (locked : m.Locked) (gone : ∀ job, (id, job) ∉ m.jobs) : m.RidOf id := by
  refine ⟨gone, fun c mem => ?_⟩
  obtain ⟨slot, cached⟩ := List.getElem?_of_mem mem
  rcases locked.gives cached id with ⟨job, there, -⟩ | gives
  · exact absurd there (gone job)
  · constructor
    · intro holder
      cases gives.1.mp holder
    · intro waits
      cases gives.2.mp waits

/-- **Whoever waits for a lock after its step** waits for another to come first. -/
theorem Locked.first_of_waits (locked : m.Locked) {scope : ScopeId} {purpose : Purpose}
    {phase : Phase} {w₁ : World} (cached : m.world.cache? slot = some c)
    (mem : (id, .refresh slot scope purpose phase) ∈ m.jobs)
    (waits : m.world.attempt id slot c scope phase = .waits w₁) :
    ∃ first, first ≠ id ∧ m.ComesFirst slot c first := by
  have gives := locked.agrees _ mem slot _ (World.locks_at cached)
  rw [Job.stake, Stake.at_self] at gives
  obtain ⟨unheld, inLine⟩ : c.holder ≠ some id ∧ (phase = .queued → id ∈ c.waiting) := by
    constructor
    · intro holder
      have holds := gives.1.mp holder
      rcases World.attempt_waits waits with ⟨rfl, -⟩ | ⟨rfl, -⟩ <;> cases holds
    · rintro rfl
      exact gives.2.mpr rfl
  have busy : c.isIdle = false := by
    rcases World.attempt_waits waits with ⟨-, busy⟩ | ⟨queued, -⟩
    · exact busy
    · have some : c.waiting ≠ [] := List.ne_nil_of_mem (inLine queued)
      simp [Cache.isIdle, some]
  obtain ⟨first, own, why, how, there, ahead⟩ := locked.first_of_busy cached busy
  refine ⟨first, ?_, ⟨own, why, how, there⟩, ahead⟩
  rintro rfl
  rcases ahead with holder | ⟨free, head⟩
  · exact unheld holder
  · rcases World.attempt_waits waits with ⟨rfl, -⟩ | ⟨-, -, behind⟩
    · obtain ⟨rest, line⟩ := List.head?_eq_some_iff.mp head
      have stands : first ∈ c.waiting := line ▸ List.mem_cons_self
      cases gives.2.mp stands
    · simp [free, head] at behind

/-- **A job is in nobody's way** that has made a refresh of this cache: nothing of it is left. A tick of
the loop begins a refresh, or is skipped because another comes first. And a refresh calls its inner
check in its next step, unless its scope has ended or another comes first. -/
structure Unhindered (m : Machine) (id : JobId) (slot : Nat) : Prop where
  gone : m.RidOf id
  ticks : ∀ i c, m.loopEvent? i = some (.tick slot) → m.world.cache? slot = some c →
    m.Begins (m.takeTurn i) slot ∨
      m.Skips (m.takeTurn i) c.name ∧ ∃ first, first ≠ id ∧ m.ComesFirst slot c first
  refreshes : ∀ other scope purpose phase c, (other, .refresh slot scope purpose phase) ∈ m.jobs →
    m.world.cache? slot = some c →
    m.world.cause? scope ≠ none ∨
      (∃ first, first ≠ id ∧ first ≠ other ∧ m.ComesFirst slot c first) ∨
      ∃ limit flight w₁, m.world.attempt other slot c scope phase = .calls limit flight w₁

/-- **A job that is over is in nobody's way.** -/
theorem Locked.unhindered (locked : m.Locked) (gone : ∀ job, (id, job) ∉ m.jobs) (slot : Nat) :
    m.Unhindered id slot := by
  refine ⟨locked.ridOf gone, ?_, ?_⟩
  · intro i c tick cached
    rcases tick_cases tick cached with ⟨-, begins⟩ | ⟨busy, skips⟩
    · exact .inl begins
    · obtain ⟨first, own, why, how, there, ahead⟩ := locked.first_of_busy cached busy
      exact .inr ⟨skips, first, fun same => gone _ (same ▸ there), ⟨own, why, how, there⟩, ahead⟩
  · intro other' scope purpose phase c mem cached
    cases attempted : m.world.attempt other' slot c scope phase with
    | refused cause w₁ =>
      left
      rw [(World.attempt_refused attempted).2]
      exact Option.some_ne_none cause
    | waits w₁ =>
      obtain ⟨first, apart, comes⟩ := locked.first_of_waits cached mem attempted
      obtain ⟨_, _, _, there⟩ := comes.1
      exact .inr (.inl ⟨first, fun same => gone _ (same ▸ there), apart, comes⟩)
    | calls limit flight w₁ => exact .inr (.inr ⟨limit, flight, w₁, rfl⟩)

/-! ## The step in which the inner check panics -/

/-- What is left of a machine by the step. -/
theorem takeTurn_of_panics {i : Nat} {job : Job} {purpose : Purpose}
    (found : m.jobs[i]? = some (id, job))
    (panics : m.world.PanicStep id slot purpose (job.step id m.world)) :
    m.takeTurn i = {
      world := (job.step id m.world).2.2
      jobs := m.jobs.eraseIdx i
      finished := purpose.panicked id m.now ++ m.finished } := by
  simp only [takeTurn, found, panics.alone, panics.gone, panics.told, (job.step_later id m.world).now,
    Option.toList_none, List.append_nil, Machine.now]

/-- **A step that leaves loops as they are** stops none and lets none begin to run. -/
theorem takeTurn_runs {i : Nat} (knows : m.world.KnowsLoops)
    (loops : (m.takeTurn i).world.loops = m.world.loops) : (m.takeTurn i).runs slot = m.runs slot := by
  have live {l : Loop} (loop : m.world.loops[slot]? = some (some l)) :
      (m.takeTurn i).world.cause? l.scope = m.world.cause? l.scope :=
    (m.takeTurn_later i).cause? (knows slot l loop)
  rw [Bool.eq_iff_iff, runs_iff, runs_iff, loops]
  constructor
  · rintro ⟨l, loop, alive⟩
    exact ⟨l, loop, (live loop).symm.trans alive⟩
  · rintro ⟨l, loop, alive⟩
    exact ⟨l, loop, (live loop).trans alive⟩

end Machine

namespace Scenario.Session

variable {known : Check → Prop} {s : Session} {held : List ScopeId} {id : JobId} {slot : Nat}
  {scope : ScopeId} {purpose : Purpose} {phase : Phase}

open CheckTree (ofBlueprint?)

section

variable {b : Blueprint} {t : CheckTree} (built : ofBlueprint? b = some t) (before : List Event)
include built

/-- Locks and jobs agree wherever a run goes on to. -/
theorem locked_within (run later : List Move) :
    ∃ held, (((ofTree (some t) before).moves run).moves later).Within (fun _ => True) held ∧
      (((ofTree (some t) before).moves run).moves later).machine.Locked := by
  obtain ⟨held, within, -⟩ := looped_of_moves built before (run ++ later)
  have locked := locked_of_moves built before (run ++ later)
  rw [moves_append] at within locked
  exact ⟨held, within, locked⟩

/-- **A job that is over does not come back.** -/
theorem over_for_good {run : List Move}
    (old : id < ((ofTree (some t) before).moves run).machine.world.nextJob)
    (gone : ∀ job, (id, job) ∉ ((ofTree (some t) before).moves run).machine.jobs)
    (rest : List Move) (job : Job) :
    (id, job) ∉ (((ofTree (some t) before).moves run).moves rest).machine.jobs := by
  induction rest using List.reverseRecOn generalizing job with
  | nil => exact gone job
  | append_singleton rest next ih =>
    intro mem
    obtain ⟨_, within, -⟩ := looped_of_moves built before run
    obtain ⟨_, within', locked⟩ := locked_within built before run rest
    rw [moves_append] at mem
    have old' := Nat.lt_of_lt_of_le old (moves_nextJob within rest)
    rcases move_job within' locked old' mem with ⟨-, there⟩ | ⟨job', -, there, -⟩
    · exact ih job there
    · exact ih job' there

/-- A job that is to be set off with the next move has taken no step before. -/
theorem stepsOf_unborn {run later : List Move}
    (new : (((ofTree (some t) before).moves run).moves later).machine.world.nextJob ≤ id) :
    ((ofTree (some t) before).moves run).stepsOf id later = [] := by
  apply List.eq_nil_iff_forall_not_mem.mpr
  intro p listed
  obtain ⟨first, rest, rfl, same, there⟩ := mem_stepsOf listed
  obtain ⟨_, within, locked⟩ := locked_within built before run first
  have more := moves_nextJob within rest
  rw [moves_append ((ofTree (some t) before).moves run) first rest] at new
  rw [same] at there
  exact absurd (Nat.lt_of_lt_of_le (locked.numbered _ there) more) (Nat.not_lt.mpr new)

/-- **The steps of a refresh leave no trace** if the call of its inner check is one of a lone probe
after them. -/
theorem traceless_steps {run later : List Move}
    (pending : ∀ p ∈ ((ofTree (some t) before).moves run).stepsOf id later,
      (p.2.step id p.1.world).1.pending? = some (slot, scope, purpose))
    (mem : (id, .refresh slot scope purpose phase) ∈
      (((ofTree (some t) before).moves run).moves later).machine.jobs) (lone : phase.lone = true) :
    ∀ p ∈ ((ofTree (some t) before).moves run).stepsOf id later,
      p.1.world.Traceless id (p.2.step id p.1.world).2.2 ∧ (p.2.step id p.1.world).2.1 = none := by
  -- from the last step back: what is lone after a step was lone before it
  induction later using List.reverseRecOn generalizing phase with
  | nil => exact List.forall_mem_nil _
  | append_singleton later next ih =>
    rw [stepsOf_append] at pending ⊢
    rw [moves_append] at mem
    obtain ⟨_, within, locked⟩ := locked_within built before run later
    have earlier := fun p listed => pending p (List.mem_append_left _ listed)
    rcases Nat.lt_or_ge id (((ofTree (some t) before).moves run).moves later).machine.world.nextJob
      with old | new
    · rcases move_job within locked old mem with ⟨none, there⟩ | ⟨job, step, there, going, -⟩
      · simpa only [stepsOf, none, Option.toList_none, List.append_nil] using ih earlier there lone
      · simp only [stepsOf, step, Option.toList_some, List.append_nil] at pending ⊢
        have last := pending _ (List.mem_append_right _ (List.mem_singleton_self _))
        obtain ⟨phase₁, begun, same⟩ := JobTurn.pending?_eq_some last
        cases going.symm.trans same
        have refreshes : ∃ phase₀, job = .refresh slot scope purpose phase₀ := by
          cases Job.step_goesOn going with
          | next => exact absurd rfl begun
          | queued | calling => exact ⟨_, rfl⟩
        obtain ⟨phase₀, rfl⟩ := refreshes
        obtain ⟨lone₀, traceless, spawned⟩ :=
          Job.step_traceless (locked.agrees _ there) going begun lone
        intro p listed
        rcases List.mem_append.mp listed with first | last
        · exact ih earlier there lone₀ p first
        · cases List.mem_singleton.mp last
          exact ⟨traceless, spawned⟩
    · have none : (((ofTree (some t) before).moves run).moves later).stepOf? id next = none := by
        by_contra some
        obtain ⟨p, step⟩ := Option.ne_none_iff_exists'.mp some
        obtain ⟨-, there⟩ := stepOf?_eq_some step
        exact absurd (locked.numbered _ there) (Nat.not_lt.mpr new)
      rw [stepsOf_unborn built before new]
      simp [stepsOf, none]

/-- The next tick of a loop is a whole interval after some instant. -/
theorem interval_le_nextTick {run : List Move} {c : Cache} {l : Loop}
    (punctual : (ofTree (some t) before).Punctual run)
    (cached : ((ofTree (some t) before).moves run).machine.world.cache? slot = some c)
    (loop : c.loop = some l) : c.interval ≤ l.nextTick := by
  induction run using List.reverseRecOn generalizing c with
  | nil =>
    obtain ⟨plan, planned⟩ := CheckTree.planned_ofBlueprint built
    have none := planned.no_loops before slot l
    exact absurd ((World.loops_at cached).trans (congrArg some loop)) none
  | append_singleton run next ih =>
    obtain ⟨earlier, -⟩ := punctual_append.mp punctual
    obtain ⟨_, timely⟩ := timely_of_punctual built before earlier
    rw [moves_append] at cached
    obtain ⟨c₀, cached₀, make⟩ :=
      World.cache?_of_makes (moves_makes timely.within [next]).symm cached
    have interval : c₀.interval = c.interval := congrArg Prod.snd make
    rw [← interval]
    rcases timely.move_ahead cached₀ ((World.loops_at cached).trans (congrArg some loop)) with
      ⟨same, -⟩ | ahead
    · exact ih earlier cached₀ (Option.some.inj ((World.loops_at cached₀).symm.trans same))
    · exact Nat.le_trans (Nat.le_add_left ..) ahead

/-- **A loop ticks on schedule from any instant on**, and its next tick is the first. -/
theorem ticks_from_next {run rest : List Move} {c : Cache} {l : Loop}
    (punctual : (ofTree (some t) before).Punctual (run ++ rest))
    (cached : ((ofTree (some t) before).moves run).machine.world.cache? slot = some c)
    (loop : c.loop = some l)
    (unseen : ∀ now scope,
      (now, .seenTo slot scope) ∉ ((ofTree (some t) before).moves run).loopEvents slot rest) :
    ∃ start, l.nextTick = start + c.interval ∧
      ((ofTree (some t) before).moves run).TicksOnSchedule slot start c.interval rest := by
  obtain ⟨earlier, later⟩ := punctual_append.mp punctual
  obtain ⟨_, ⟨within, ⟨-, sheltered, looped, -, on⟩, -⟩⟩ := timely_of_punctual built before earlier
  obtain ⟨start, next⟩ := Nat.exists_eq_add_of_le' (interval_le_nextTick built before earlier cached loop)
  refine ⟨start, next, ?_⟩
  apply ticks_of_scheduled within sheltered looped on ?_ later unseen
  constructor
  · intro c' cached'
    cases cached.symm.trans cached'
    rfl
  · intro l' loop'
    cases loop'.symm.trans ((World.loops_at cached).trans (congrArg some loop))
    rw [Nat.zero_add, Nat.one_mul]
    exact next

end

/-- **A panicking inner check breaks nothing else.** A refresh is unfinished after each step of it so
far, and with its next step its inner check panics. None of its steps leaves a trace, this one
included: as everybody else sees the world, nothing changes but the counts of calls and the scopes that
there are; and none sets off a job. With the panic the refresh is over and the lock is free; who has
started or forced it is told, and the loop runs on if it ran. However the run goes on, the refresh is in
nobody's way; and the loop ticks when it would have, over a punctual run. -/
theorem panic_breaks_nothing {b : Blueprint} {t : CheckTree} (built : ofBlueprint? b = some t)
    (before : List Event) (run later : List Move) {id : JobId} {i slot : Nat} {scope : ScopeId}
    {purpose : Purpose} {phase : Phase} :
    let s := (ofTree (some t) before).moves run
    let m := (s.moves later).machine
    let s' := (s.moves later).move (.turn i)
    (∀ p ∈ s.stepsOf id later,
      (p.2.step id p.1.world).1.pending? = some (slot, scope, purpose)) →
    m.jobs[i]? = some (id, .refresh slot scope purpose phase) →
    (Job.refresh slot scope purpose phase).panics id m.world = true →
      (∀ p ∈ s.stepsOf id (later ++ [.turn i]),
        p.1.world.Traceless id (p.2.step id p.1.world).2.2 ∧ (p.2.step id p.1.world).2.1 = none) ∧
      s'.machine.jobs = m.jobs.eraseIdx i ∧
      s'.machine.finished = purpose.panicked id m.now ++ m.finished ∧
      (∀ c, s'.machine.world.cache? slot = some c → c.holder = none) ∧
      s'.machine.world.loops = m.world.loops ∧ s'.machine.runs slot = m.runs slot ∧
      (∀ rest : List Move, (s'.moves rest).machine.Unhindered id slot) ∧
      ∀ (rest : List Move) (c : Cache) (l : Loop),
        (ofTree (some t) before).Punctual (run ++ later ++ .turn i :: rest) →
        m.world.cache? slot = some c → c.loop = some l →
        (∀ now own, (now, .seenTo slot own) ∉ s'.loopEvents slot rest) →
          ∃ start, l.nextTick = start + c.interval ∧
            s'.TicksOnSchedule slot start c.interval rest := by
  intro s m s' pending found panics
  have mem := List.mem_of_getElem? found
  obtain ⟨_, -, -, looped⟩ := looped_of_moves built before (run ++ later)
  obtain ⟨held, within, locked⟩ : ∃ held, (s.moves later).Within (fun _ => True) held ∧ m.Locked :=
    locked_within built before run later
  rw [moves_append] at looped
  obtain ⟨lone, step⟩ := Job.step_of_panics (locked.agrees _ mem) panics
  have after : s'.machine = _ := Machine.takeTurn_of_panics found step
  have loops : s'.machine.world.loops = m.world.loops := by
    rw [after]
    exact step.traceless.loops
  have ends : s' = (ofTree (some t) before).moves (run ++ (later ++ [.turn i])) := by
    rw [moves_append, moves_append]
    rfl
  refine ⟨?_, by rw [after], by rw [after], ?_, loops, ?_, ?_, ?_⟩
  · intro p listed
    rw [stepsOf_append] at listed
    rcases List.mem_append.mp listed with earlier | last
    · exact traceless_steps built before pending mem lone p earlier
    · have last' : p = (m, .refresh slot scope purpose phase) := by
        simpa [stepsOf, stepOf?, m, found, Option.filter] using last
      rw [last']
      exact ⟨step.traceless, step.alone⟩
  · rw [after]
    exact step.free
  · exact Machine.takeTurn_runs looped.knows loops
  · intro rest
    obtain ⟨_, -, locked'⟩ := locked_within built before (run ++ (later ++ [.turn i])) rest
    rw [← ends] at locked'
    apply locked'.unhindered
    have gone (job : Job) : (id, job) ∉ s'.machine.jobs := by
      rw [after]
      intro there
      have listed : id ∈ (m.jobs.eraseIdx i).map Prod.fst := List.mem_map_of_mem there
      exact locked.beside found listed
    have old : id < s'.machine.world.nextJob :=
      Nat.lt_of_lt_of_le (locked.numbered _ mem) (m.takeTurn_nextJob i)
    rw [ends] at old gone ⊢
    exact over_for_good built before old gone rest
  · intro rest c l punctual cached loop unseen
    have whole : run ++ later ++ .turn i :: rest = (run ++ (later ++ [.turn i])) ++ rest := by simp
    rw [whole] at punctual
    rw [ends] at unseen ⊢
    have makes : s'.machine.world.makes = m.world.makes := (m.takeTurn_later i).makes
    obtain ⟨c', cached', make⟩ := World.cache?_of_makes makes cached
    have own : c'.loop = some l := by
      have same := World.loops_at cached'
      rw [loops, World.loops_at cached, loop] at same
      exact (Option.some.inj same).symm
    have interval : c'.interval = c.interval := congrArg Prod.snd make
    rw [ends] at cached'
    rw [← interval]
    exact ticks_from_next built before punctual cached' own unseen

/-- A loop is started at 0, with 10 milliseconds between ticks. A refresh is forced at 5, and the inner
check panics at 6: the caller is told, and the loop ticks at 10. -/
theorem panics_at_6_and_ticks_at_10 :
    let panicking : Probe := ⟨"p", "p", ⟨[], .outcome (.ok .healthy)⟩, [⟨[⟨some 1, true⟩], .panic⟩]⟩
    let b : Blueprint := .cached 10 (.debounced 1 (.probe panicking))
    let run : List Move := [.begin (.start 0 {}), .turn 0, .pass 5, .begin (.force 0 {})]
    let later : List Move := [.turn 1, .pass 1]
    let rest : List Move := [.pass 4, .turn 0]
    ∃ t, ofBlueprint? b = some t ∧
      let s' := (((ofTree (some t) []).moves run).moves later).move (.turn 1)
      s'.machine.result? 2 = some (6, .refreshPanicked) ∧
      (∀ c, s'.machine.world.cache? 0 = some c → c.holder = none) ∧
      s'.machine.runs 0 = true ∧ (s'.moves rest).machine.Unhindered 2 0 ∧
      s'.loopEvents 0 rest = [(10, .tick 0)] ∧ s'.TicksOnSchedule 0 0 10 rest := by
  intro panicking b run later rest
  have facts : (ofBlueprint? b).any fun t =>
      let s := (ofTree (some t) []).moves run
      let m := (s.moves later).machine
      decide <| (∀ p ∈ s.stepsOf 2 later,
          (p.2.step 2 p.1.world).1.pending? = some (0, 4, .force)) ∧
        (m.jobs[1]?).map (fun p => (p.1, (JobTurn.going p.2).pending?, p.2.panics 2 m.world)) =
          some (2, some (0, 4, .force), true) ∧
        m.now = 6 ∧ m.runs 0 = true ∧
        (m.world.cache? 0).map (fun c => (c.interval, c.loop)) = some (10, some ⟨3, 10⟩) ∧
        (ofTree (some t) []).Punctual (run ++ later ++ .turn 1 :: rest) ∧
        ((s.moves later).move (.turn 1)).loopEvents 0 rest = [(10, .tick 0)] := by decide +kernel
  -- from here on the runs count for these facts only
  clear_value run later rest
  obtain ⟨t, built, facts⟩ := (Option.any_eq_true _ _).mp facts
  obtain ⟨pending, job, now, runs, cache, punctual, events⟩ := of_decide_eq_true facts
  obtain ⟨⟨id, job⟩, found, job⟩ := Option.map_eq_some_iff.mp job
  simp only [Prod.mk.injEq] at job
  obtain ⟨rfl, asked, panics⟩ := job
  obtain ⟨phase, -, same⟩ := JobTurn.pending?_eq_some asked
  cases same
  obtain ⟨c, cached, cache⟩ := Option.map_eq_some_iff.mp cache
  simp only [Prod.mk.injEq] at cache
  obtain ⟨interval, loop⟩ := cache
  obtain ⟨-, -, finished, free, -, same, after, ticks⟩ :=
    panic_breaks_nothing built [] run later pending found panics
  obtain ⟨start, next, schedule⟩ := ticks rest c ⟨3, 10⟩ punctual cached loop (by simp [events])
  refine ⟨t, built, ?_, free, same.trans runs, after rest, events, ?_⟩
  · rw [Machine.result?, finished, now]
    rfl
  · rw [interval] at next schedule
    have zero : start = 0 := by
      simp only at next
      omega
    exact zero ▸ schedule

end Scenario.Session

end HealthTree
