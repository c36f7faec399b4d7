import HealthTree.Proofs.Marks

/-!
# What is told and what is counted

Three kinds of events go with a counter: a refresh that commits a failure, a tick that is skipped,
and a failure that is hidden (`Event.series?`). Wherever such an event is told the counter is
bumped, once, and nowhere else (`World.Accounts`). This is a law of each step of a job
(`Job.step_accounts`), whatever the job is doing, because of the calls below it only what debounced
checks tell has a counter (`Flight.journal_quiet`).

`Session.told` lists what a run tells. Commands tell nothing; reading the events out empties the
record of them, and what was told before is on the list all the same (`move_accounts`). So over
every run the counters grow with what is told (`moves_told`).
-/

namespace HealthTree

/-- The counter that an event goes with. -/
def Event.series? : Event → Option Series
  | .refreshFailed check _ => some (.refreshed check false)
  | .tickSkipped check => some (.skipped check)
  | .faultSuppressed check _ _ _ => some (.suppressed check)
  | _ => none

/-- The series is a counter that events go with. -/
def Series.isTold : Series → Bool
  | refreshed _ ok => !ok
  | skipped _ | suppressed _ => true
  | status _ => false

/-- How many events among these go with a counter. -/
def Series.tally (series : Series) (es : List Event) : Nat :=
  es.countP fun e => e.series? == some series

theorem Series.tally_append (series : Series) (es more : List Event) :
    series.tally (es ++ more) = series.tally es + series.tally more :=
  List.countP_append

theorem Series.tally_reverse (series : Series) (es : List Event) :
    series.tally es.reverse = series.tally es :=
  List.countP_reverse

/-- None of these events goes with a counter. -/
def Quiet (es : List Event) : Prop :=
  ∀ e ∈ es, e.series? = none

theorem Quiet.cons {e : Event} {es : List Event} (first : e.series? = none) (rest : Quiet es) :
    Quiet (e :: es) :=
  List.forall_mem_cons.mpr ⟨first, rest⟩

theorem Quiet.one {e : Event} (uncounted : e.series? = none) : Quiet [e] :=
  .cons uncounted (List.forall_mem_nil _)

theorem Quiet.tally {es : List Event} (quiet : Quiet es) (series : Series) :
    series.tally es = 0 := by
  refine List.countP_eq_zero.mpr ?_
  intro e mem
  simp [quiet e mem]

/-- **Events are told, the newest first, and counters grow with them.** -/
structure World.Accounts (w : World) (es : List Event) (w' : World) : Prop where
  told : w'.events = es ++ w.events
  counted : ∀ series : Series, series.isTold = true →
    w'.metrics.count series = w.metrics.count series + series.tally es

namespace World.Accounts

variable {w w' w'' : World} {es es' : List Event}

/-- What has no counter may be told. -/
theorem of_quiet (events : w'.events = es ++ w.events) (metrics : w'.metrics = w.metrics)
    (quiet : Quiet es) : w.Accounts es w' := by
  refine ⟨events, ?_⟩
  intro series _
  rw [metrics, quiet.tally, Nat.add_zero]

/-- Nothing is told and nothing counted. -/
theorem of_same (events : w'.events = w.events) (metrics : w'.metrics = w.metrics) :
    w.Accounts [] w' :=
  of_quiet events metrics (List.forall_mem_nil _)

theorem refl (w : World) : w.Accounts [] w :=
  of_same rfl rfl

theorem trans (first : w.Accounts es w') (second : w'.Accounts es' w'') :
    w.Accounts (es' ++ es) w'' := by
  refine ⟨by rw [second.told, first.told, List.append_assoc], ?_⟩
  intro series told
  rw [second.counted series told, first.counted series told, Series.tally_append]
  omega

theorem tell (w : World) {es : List Event} (quiet : Quiet es) :
    w.Accounts es.reverse (w.tell es) :=
  of_quiet rfl rfl fun e mem => quiet e (List.mem_reverse.mp mem)

end World.Accounts

/-! ## Calls -/

theorem Gathered.eventsOf_quiet (name : String) (o : Outcome) : Quiet (eventsOf name o) := by
  unfold eventsOf
  split
  · exact List.forall_mem_nil _
  · exact .one rfl

theorem Gathered.missingEvents_quiet (cause : Fault) (g : Gathered) (names : List String) :
    Quiet (g.missingEvents cause names) := by
  induction names generalizing g with
  | nil => exact List.forall_mem_nil _
  | cons name rest ih =>
    intro e mem
    rcases List.mem_append.mp mem with here | later
    · split at here
      · cases here
      · exact eventsOf_quiet name _ e here
    · exact ih _ e later

/-- What the deed tells has no counter. -/
def Deed.Quiet : Deed → Prop
  | .tell es => HealthTree.Quiet es
  | .startCall _ | .completeCall _ | .observe _ _ _ _ => True

namespace World

theorem pauseJournal_quiet (w : World) (p : Probe) (scope : ScopeId) (pauses : List Pause) :
    ∀ d ∈ w.pauseJournal p scope pauses, d.Quiet := by
  induction pauses with
  | nil => simp [pauseJournal, Deed.Quiet]
  | cons pause rest ih =>
    simp only [pauseJournal]
    split
    · exact List.forall_mem_nil _
    · split
      · exact ih
      · exact List.forall_mem_nil _

theorem interruptJournal_quiet (name : String) (names : List String) (g : Gathered)
    (cause : Fault) : ∀ d ∈ interruptJournal name names g cause, d.Quiet := by
  intro d mem
  rw [List.mem_singleton.mp mem]
  exact .cons rfl (g.missingEvents_quiet cause names)

theorem gatherJournal_quiet (name : String) (t : Turn) : ∀ d ∈ gatherJournal name t, d.Quiet := by
  cases t with
  | still => exact List.forall_mem_nil _
  | done o =>
    intro d mem
    rw [List.mem_singleton.mp mem]
    exact Gathered.eventsOf_quiet name o
  | panicked =>
    intro d mem
    rw [List.mem_singleton.mp mem]
    exact .cons rfl (Gathered.eventsOf_quiet name _)

theorem debounceJournal_quiet (slot : Nat) (budget : UInt32) (name : String) (t : Turn) :
    ∀ d ∈ debounceJournal slot budget name t, d.Quiet := by
  cases t with
  | done o => simp [debounceJournal, Deed.Quiet]
  | still | panicked => exact List.forall_mem_nil _

end World

theorem Check.journal_quiet (scope : ScopeId) (c : Check) (w : World) :
    ∀ d ∈ c.journal scope w, d.Quiet := by
  cases c with
  | fixed | cached => exact List.forall_mem_nil _
  | probe p =>
    intro d mem
    rcases List.mem_cons.mp mem with rfl | later
    · trivial
    · exact World.pauseJournal_quiet _ p scope _ d later
  | group name children =>
    simp only [Check.journal]
    split
    · exact List.forall_mem_nil _
    · split
      · exact World.interruptJournal_quiet name _ {} _
      · exact List.forall_mem_nil _
  | debounced slot budget inner =>
    intro d mem
    rcases List.mem_append.mp mem with inside | outside
    · exact inner.journal_quiet scope w d inside
    · exact World.debounceJournal_quiet slot budget inner.name _ d outside

namespace Flight

mutual
/-- **What the groups of a call tell has no counter.** -/
theorem journal_quiet (scope : ScopeId) (f : Flight) (w : World) :
    ∀ d ∈ f.journal scope w, d.Quiet := by
  cases f with
  | fresh check => exact check.journal_quiet scope w
  | pausing p wake heeds act =>
    simp only [journal]
    split
    · exact List.forall_mem_nil _
    · split
      · exact w.pauseJournal_quiet p scope act.pauses
      · exact List.forall_mem_nil _
  | gathering name names g waiting =>
    simp only [journal]
    split
    · exact World.interruptJournal_quiet name names g _
    · exact journalAll_quiet scope waiting w
  | debouncing slot budget name inner =>
    intro d mem
    rcases List.mem_append.mp mem with inside | outside
    · exact journal_quiet scope inner w d inside
    · exact World.debounceJournal_quiet slot budget name _ d outside
/-- The same for the children a group waits for. -/
theorem journalAll_quiet (scope : ScopeId) (waiting : List (String × Flight)) (w : World) :
    ∀ d ∈ journalAll scope waiting w, d.Quiet := by
  cases waiting with
  | nil => exact List.forall_mem_nil _
  | cons child rest =>
    obtain ⟨name, flight⟩ := child
    intro d mem
    simp only [journalAll, List.mem_append] at mem
    rcases mem with (own | gathered) | others
    · exact journal_quiet scope flight w d own
    · exact World.gatherJournal_quiet name _ d gathered
    · exact journalAll_quiet scope rest _ d others
end

end Flight

namespace World

/-- **A failure that is hidden is told and counted**, and nothing else that a debounced check
sees. -/
theorem observe_accounts (w : World) (slot : Nat) (name : String) (budget : UInt32) (o : Outcome) :
    ∃ es, w.Accounts es (w.observe slot name budget o).2 := by
  cases o with
  | ok h => exact ⟨[], .of_same rfl rfl⟩
  | error f =>
    by_cases hides : (w.debounce slot budget).hides budget
    · refine ⟨_, by simp only [observe, World.tell, Debounce.events, if_pos hides]; rfl, ?_⟩
      intro series _
      simp only [observe, World.tell, Debounce.record, Debounce.events, if_pos hides,
        Metrics.count_bump]
      by_cases same : series = .suppressed name
      · simp [same, Series.tally, Event.series?]
      · simp [same, Ne.symm same, Series.tally, Event.series?]
    · refine ⟨_, by simp only [observe, World.tell, Debounce.events, if_neg hides]; rfl, ?_⟩
      intro series _
      simp [observe, World.tell, Debounce.record, Debounce.events, hides, Series.tally,
        Event.series?]

theorem performAll_accounts (w : World) {deeds : List Deed} (quiet : ∀ d ∈ deeds, d.Quiet) :
    ∃ es, w.Accounts es (w.performAll deeds) := by
  have one (w : World) {d : Deed} (quiet : d.Quiet) : ∃ es, w.Accounts es (w.perform d) := by
    cases d with
    | startCall | completeCall => exact ⟨[], .of_same rfl rfl⟩
    | observe slot budget name o => exact w.observe_accounts slot name budget o
    | tell es => exact ⟨_, .tell w quiet⟩
  induction deeds generalizing w with
  | nil => exact ⟨[], .refl w⟩
  | cons d rest ih =>
    obtain ⟨first, later⟩ := List.forall_mem_cons.mp quiet
    obtain ⟨es, here⟩ := one w first
    obtain ⟨es', there⟩ := ih (w.perform d) later
    exact ⟨es' ++ es, here.trans there⟩

end World

theorem Flight.step_accounts (scope : ScopeId) (f : Flight) (w : World) :
    ∃ es, w.Accounts es (f.step scope w).2 := by
  rw [Flight.step_world]
  exact w.performAll_accounts (f.journal_quiet scope w)

/-! ## Refreshes and loops -/

namespace World

variable {w : World} {slot : Nat} {c : Cache} {scope limit : ScopeId} {purpose : Purpose}

theorem attempt_accounts (w : World) (id : JobId) (slot : Nat) (c : Cache) (scope : ScopeId)
    (phase : Phase) : w.Accounts [] (w.attempt id slot c scope phase).world := by
  have cases := w.attempt_cases id slot c scope phase
  generalize w.attempt id slot c scope phase = a at cases ⊢
  cases cases <;> exact .of_same rfl rfl

theorem callInner_accounts (w : World) (limit : ScopeId) (flight : Flight) :
    ∃ es, w.Accounts es (w.callInner limit flight).2 := by
  rw [callInner_world]
  split
  · exact flight.step_accounts limit w
  · exact ⟨[], .refl w⟩

theorem ensureLoop_accounts (w : World) (slot : Nat) (c : Cache) (scope : ScopeId) :
    ∃ es, w.Accounts es (w.ensureLoop slot c scope).2 := by
  unfold ensureLoop
  split
  · exact ⟨[.timerReset c.name], .of_quiet rfl rfl (.one rfl)⟩
  · exact ⟨[.loopStarted c.name c.interval], .of_quiet rfl rfl (.one rfl)⟩

theorem conclude_accounts (w : World) (slot : Nat) (c : Cache) (scope : ScopeId)
    (fault : Option Fault) (purpose : Purpose) :
    ∃ es, w.Accounts es (w.conclude slot c scope fault purpose).2.2 := by
  cases purpose with
  | force | tick => exact ⟨[], .refl w⟩
  | start rest =>
    have quiet : Quiet (fault.toList.map (.firstRefreshFailed c.name)) := by
      intro e mem
      obtain ⟨f, _, rfl⟩ := List.mem_map.mp mem
      rfl
    obtain ⟨es, loops⟩ := (w.tell (fault.toList.map (.firstRefreshFailed c.name))).ensureLoop_accounts
      slot c scope
    exact ⟨_, (World.Accounts.tell w quiet).trans loops⟩

/-- **A failure that is committed is told and counted.** -/
theorem commit_accounts (w : World) (slot : Nat) (c : Cache) (o : Outcome) :
    ∃ es, w.Accounts es (w.commit slot c o) := by
  refine ⟨_, rfl, ?_⟩
  intro series told
  have apart : series ≠ .status c.name := by
    rintro rfl
    cases told
  have kept : (w.commit slot c o).metrics.count series =
      (w.metrics.bump (.refreshed c.name (Snapshot.ofOutcome o).isOk)).count series := by
    simp only [commit, World.tell, modifyCache, Metrics.count_set, if_neg apart]
  rw [kept, Metrics.count_bump]
  cases o with
  | ok h =>
    have other : series ≠ .refreshed c.name true := by
      rintro rfl
      cases told
    simp [Snapshot.ofOutcome, Snapshot.isOk, other, Series.tally]
  | error f =>
    by_cases same : series = .refreshed c.name false
    · simp [Snapshot.ofOutcome, Snapshot.isOk, same, Series.tally, Event.series?]
    · simp [Snapshot.ofOutcome, Snapshot.isOk, same, Ne.symm same, Series.tally, Event.series?]

theorem finishRefresh_accounts (w : World) (slot : Nat) (c : Cache) (scope : ScopeId)
    (purpose : Purpose) (o : Outcome) :
    ∃ es, w.Accounts es (w.finishRefresh slot c scope purpose o).2.2 := by
  have unlocked (w : World) : w.Accounts [] (w.unlock slot) := .of_same rfl rfl
  unfold finishRefresh
  split
  · next cause _ =>
    have quiet : Quiet [.refreshInterrupted c.name cause] := .one rfl
    obtain ⟨es, after⟩ := ((w.tell [.refreshInterrupted c.name cause]).unlock slot).conclude_accounts
      slot c scope (some cause) purpose
    exact ⟨_, ((World.Accounts.tell w quiet).trans (unlocked _)).trans after⟩
  · obtain ⟨es, committed⟩ := w.commit_accounts slot c o
    obtain ⟨es', after⟩ := ((w.commit slot c o).unlock slot).conclude_accounts slot c scope o.fault?
      purpose
    exact ⟨_, (committed.trans (unlocked _)).trans after⟩

theorem refreshTurn_accounts (w : World) (slot : Nat) (c : Cache) (scope limit : ScopeId)
    (purpose : Purpose) (t : Turn) :
    ∃ es, w.Accounts es (w.refreshTurn slot c scope purpose limit t).2.2 := by
  cases t with
  | still flight => exact ⟨[], .refl w⟩
  | done o => exact w.finishRefresh_accounts slot c scope purpose o
  | panicked => exact ⟨[], .of_same rfl rfl⟩

theorem skipped_accounts (w : World) (c : Cache) :
    w.Accounts [.tickSkipped c.name] (w.skipped c) := by
  refine ⟨rfl, ?_⟩
  intro series _
  simp only [skipped, World.tell, Metrics.count_bump]
  by_cases same : series = .skipped c.name
  · simp [same, Series.tally, Event.series?]
  · simp [same, Ne.symm same, Series.tally, Event.series?]

/-- **A tick that is skipped is told and counted.** -/
theorem stepLoop_accounts (w : World) (slot : Nat) (c : Cache) (scope : ScopeId) :
    ∃ es, w.Accounts es (w.stepLoop slot c scope).2.2 := by
  have ticked : w.Accounts [] (w.ticked slot) := .of_same rfl rfl
  have granted (w : World) : w.Accounts [] (w.granted slot) := .of_same rfl rfl
  have stopped (w : World) (cause : Fault) :
      w.Accounts [.loopStopped c.name cause] (w.tell [.loopStopped c.name cause]) :=
    .tell w (.one rfl)
  have cases := w.stepLoop_cases slot c scope
  generalize w.stepLoop slot c scope = r at cases ⊢
  cases cases with
  | stops cause => exact ⟨_, stopped w cause⟩
  | rests => exact ⟨[], .refl w⟩
  | ticks => exact ⟨_, ticked.trans (granted _)⟩
  | skips => exact ⟨_, ticked.trans (skipped_accounts _ c)⟩
  | ticksLast cause => exact ⟨_, (granted w).trans (stopped _ cause)⟩
  | skipsLast cause => exact ⟨_, (skipped_accounts w c).trans (stopped _ cause)⟩

end World

/-- **With each step of a job the counters grow with what is told.** -/
theorem Job.step_accounts (id : JobId) (w : World) (job : Job) :
    ∃ es, w.Accounts es (job.step id w).2.2 := by
  cases job with
  | call name scope flight => exact flight.step_accounts scope w
  | refresh slot scope purpose phase =>
    simp only [Job.step]
    cases w.cache? slot with
    | none => exact ⟨[], .refl w⟩
    | some c =>
      have before := w.attempt_accounts id slot c scope phase
      simp only [World.stepRefresh_eq]
      cases attempted : w.attempt id slot c scope phase with
      | refused cause w₁ =>
        rw [attempted] at before
        obtain ⟨es, after⟩ := w₁.conclude_accounts slot c scope (some cause) purpose
        exact ⟨_, before.trans after⟩
      | waits w₁ =>
        rw [attempted] at before
        exact ⟨_, before⟩
      | calls limit flight w₁ =>
        rw [attempted] at before
        simp only [World.goOnRefresh_eq]
        obtain ⟨es, called⟩ := w₁.callInner_accounts limit flight
        obtain ⟨es', after⟩ := (w₁.callInner limit flight).2.refreshTurn_accounts slot c scope limit
          purpose (w₁.callInner limit flight).1
        exact ⟨_, (before.trans called).trans after⟩
  | loop slot scope =>
    simp only [Job.step]
    cases w.cache? slot with
    | none => exact ⟨[], .refl w⟩
    | some c => exact w.stepLoop_accounts slot c scope
  | work | watch | sleep => exact ⟨[], .refl w⟩

/-! ## Runs -/

namespace World

variable {w w' : World}

/-- The events that the record of them has grown by, the oldest first. -/
def toldSince (w w' : World) : List Event :=
  (w'.events.take (w'.events.length - w.events.length)).reverse

theorem Accounts.toldSince {es : List Event} (accounts : w.Accounts es w') :
    w.toldSince w' = es.reverse := by
  rw [World.toldSince, accounts.told, List.length_append, Nat.add_sub_cancel, List.take_left' rfl]

theorem toldSince_of_empty (empty : w'.events = []) : w.toldSince w' = [] := by
  rw [toldSince, empty, List.take_nil, List.reverse_nil]

end World

namespace Machine

/-- A command tells nothing; it may read the events out. -/
theorem Touch.events {known : Check → Prop} {p p' : Machine × List ScopeId}
    (touch : Touch known p p') :
    p'.1.world.events = p.1.world.events ∨ p'.1.world.events = [] := by
  cases touch with
  | stop m held slot =>
    unfold Machine.stop
    split <;> exact .inl rfl
  | abort m held id =>
    unfold Machine.abort
    split
    · next job _ =>
      refine .inl ?_
      cases job with
      | refresh slot scope purpose phase => cases phase <;> rfl
      | _ => rfl
    · exact .inl rfl
  | forget => exact .inr rfl
  | background | derive | cancel | submit => exact .inl rfl

theorem Touches.events {known : Check → Prop} {p p' : Machine × List ScopeId}
    (touches : Touches known p p') :
    p'.1.world.events = p.1.world.events ∨ p'.1.world.events = [] := by
  refine touches.keep (I := fun q => q.1.world.events = p.1.world.events ∨ q.1.world.events = [])
    (fun touch kept => ?_) (.inl rfl)
  rcases touch.events with same | empty
  · rw [same]
    exact kept
  · exact .inr empty

end Machine

namespace Scenario.Session

/-- What a move tells, in its order. -/
def tells (s : Session) (next : Move) : List Event :=
  s.machine.world.toldSince (s.move next).machine.world

/-- **What a run tells**, in its order. -/
def told : Session → List Move → List Event
  | _, [] => []
  | s, next :: rest => s.tells next ++ told (s.move next) rest

variable {known : Check → Prop} {s : Session} {held : List ScopeId}

/-- A move tells what it counts, or it tells nothing and empties the record. -/
theorem move_accounts (within : s.Within known held) (next : Move) :
    (∃ es, s.machine.world.Accounts es (s.move next).machine.world) ∨
      (s.move next).machine.world.events = [] ∧
        (s.move next).machine.world.metrics = s.machine.world.metrics := by
  have touches {s' : Session} (touched : ∃ held', s.Touched known held s' held') :
      (∃ es, s.machine.world.Accounts es s'.machine.world) ∨
        s'.machine.world.events = [] ∧ s'.machine.world.metrics = s.machine.world.metrics := by
    obtain ⟨held', touched⟩ := touched
    have kept := Machine.Touches.kept touched.touches
    rcases Machine.Touches.events touched.touches with same | empty
    · exact .inl ⟨[], .of_same same kept.metrics⟩
    · exact .inr ⟨empty, kept.metrics⟩
  cases next with
  | begin c => exact touches (begin_touches within c)
  | aside name c => exact touches (setAside_touches within name c)
  | pass | grace => exact .inl ⟨[], .of_same rfl rfl⟩
  | turn i =>
    simp only [move, Machine.takeTurn]
    cases s.machine.jobs[i]? with
    | none => exact .inl ⟨[], .refl _⟩
    | some p => exact .inl (p.2.step_accounts p.1 s.machine.world)

theorem move_told (within : s.Within known held) (next : Move) {series : Series}
    (counter : series.isTold = true) :
    (s.move next).machine.world.metrics.count series =
      s.machine.world.metrics.count series + series.tally (s.tells next) := by
  rcases move_accounts within next with ⟨es, accounts⟩ | ⟨empty, metrics⟩
  · rw [tells, accounts.toldSince, Series.tally_reverse]
    exact accounts.counted series counter
  · rw [tells, World.toldSince_of_empty empty, metrics]
    rfl

/-- **Over every run the counters grow with what is told.** -/
theorem moves_told (within : s.Within known held) (run : List Move) {series : Series}
    (counter : series.isTold = true) :
    (s.moves run).machine.world.metrics.count series =
      s.machine.world.metrics.count series + series.tally (s.told run) := by
  induction run generalizing s held with
  | nil => rfl
  | cons next rest ih =>
    obtain ⟨held', within'⟩ := move_within within next
    have later := ih within'
    rw [move_told within next counter] at later
    rw [told, Series.tally_append, ← Nat.add_assoc]
    exact later

end Scenario.Session

end HealthTree
