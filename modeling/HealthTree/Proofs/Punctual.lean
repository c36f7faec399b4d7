import HealthTree.Proofs.LoopJobs
import HealthTree.Proofs.Settling
import HealthTree.Proofs.Ticks

/-!
# Patient runs are punctual

A run is *patient* (`Session.Patient`) if time passes in it only when no job has anything to do, and
never past an instant at which one wakes. Scenarios are such runs (`playAll_patient`).

No loop is late in a patient run: a loop that is live has its job (`Session.Crewed`), the job wakes at
the next tick, and a job whose tick is due is not still. Nor is a lock being handed on, for the first
in its line would go on (`Machine.Still.handedOn`). So patient runs are punctual (`Timely.punctual`),
and what is said of punctual runs is true of them: one loop at most, which ticks on schedule, and each
tick begins a refresh or is skipped (`one_loop_on_schedule`).
-/

namespace HealthTree

/-! ## Steps of a machine where no loop is late -/

namespace World

variable {w w' : World} {slot : Nat} {scope : ScopeId}

/-- Where no loop is late none is behind. -/
theorem OnTime.prompt (on : w.OnTime) (slot : Nat) (scope : ScopeId) : w.Prompt slot scope := by
  rintro live l loop rfl
  exact on.not_late loop live

/-- **Where no loop is late no step of a job makes a tick due.** -/
theorem LoopChange.due {e : Option LoopEvent} {spawned : Spawned}
    (change : w.LoopChange e spawned w') (spaced : w.Spaced) (on : w.OnTime) (now : w'.now = w.now)
    (due : w'.Due slot scope) : w.Due slot scope := by
  obtain ⟨l', loop, rfl, passed⟩ := due
  rw [now] at passed
  have written {other : Nat} {c : Cache} {new : Loop} (cached : w.cache? other = some c)
      (loops : w'.loops = w.loops.set other (some new)) (ahead : w.now + c.interval ≤ new.nextTick) :
      w.Due slot l'.scope := by
    rcases loop_of_set loops loop with ⟨-, rfl⟩ | ⟨-, old⟩
    · have positive := spaced.interval c cached
      omega
    · exact ⟨l', old, rfl, passed⟩
  cases change with
  | unseen _ loops => exact ⟨l', loops ▸ loop, rfl, passed⟩
  | ticked cached own live _ _ loops =>
    have here := (loops_at cached).trans (congrArg some own)
    exact written cached loops (Nat.add_le_add_right (on.not_late here live) _)
  | reset cached _ _ loops | setOff _ _ cached _ _ loops =>
    exact written cached loops (Nat.le_refl _)

end World

namespace Machine

/-- **A machine that keeps time**: none of its loops is late, and it is fit to go on so. -/
structure Paced (m : Machine) (held : List ScopeId) : Prop where
  locked : m.Locked
  sheltered : m.Sheltered held
  looped : m.Looped held
  spaced : m.world.Spaced
  onTime : m.world.OnTime

variable {m : Machine} {held : List ScopeId}

theorem Paced.takeTurn (paced : m.Paced held) (i : Nat) : (m.takeTurn i).Paced held := by
  have later := m.takeTurn_later i
  obtain ⟨spawned, -, change⟩ := takeTurn_change paced.looped.knows i
  exact ⟨paced.locked.takeTurn i, paced.sheltered.takeTurn i,
    paced.looped.takeTurn paced.sheltered i, paced.spaced.of_makes later.makes,
    paced.onTime.change paced.looped.knows later change⟩

/-- **Machines that keep time settle**, where what has ended is cut off at once. -/
theorem paced_settles : Settles fun m => m.Paced held ∧ m.world.grace = false where
  turn m i := fun ⟨paced, strict⟩ => ⟨paced.takeTurn i, (m.takeTurn_later i).grace.trans strict⟩
  lighter m := fun ⟨paced, strict⟩ p _ => by
    refine p.2.step_lighter p.1 paced.spaced strict ?_
    cases p.2 with
    | loop slot scope => exact paced.onTime.prompt slot scope
    | call | refresh | work | watch | sleep => trivial
  due m := fun ⟨paced, _⟩ p _ slot scope due =>
    (p.2.step_loopChange paced.looped.knows).due paced.spaced paced.onTime
      (p.2.step_later p.1 m.world).now due

/-- **Where no step changes anything no lock is being handed on.** -/
theorem Still.handedOn (still : m.Still) (locked : m.Locked) : m.world.HandedOn := by
  intro c mem holder
  obtain ⟨slot, cached⟩ := List.getElem?_of_mem mem
  by_contra line
  obtain ⟨id, rest, first⟩ := List.exists_cons_of_ne_nil line
  have inLine : id ∈ c.waiting := first ▸ List.mem_cons_self
  -- the first in line would be given the lock
  rcases locked.gives cached id with ⟨job, there, gives⟩ | gives
  · have waits := gives.2.mp inLine
    have going : (job.step id m.world).1 = .going job := congrArg Prod.fst (still _ there)
    rcases Job.waits_of_going going waits cached with ⟨free, -⟩ | ⟨-, behind⟩
    · cases waits.symm.trans free
    · simp [holder, first] at behind
  · cases gives.2.mp inLine

/-- Where no step changes anything no live loop has a tick that is due. -/
theorem Still.ahead (still : m.Still) {id : JobId} {slot : Nat} {l : Loop}
    (job : (id, .loop slot l.scope) ∈ m.jobs) (loop : m.world.loops[slot]? = some (some l))
    (live : m.world.cause? l.scope = none) : m.now < l.nextTick := by
  by_contra due
  obtain ⟨c, cached, own⟩ := World.loops_eq_some.mp loop
  have same : m.world.stepLoop slot c l.scope = (.going (.loop slot l.scope), none, m.world) := by
    have same := still _ job
    simp only [Job.step, cached] at same
    exact same
  have passed : (c.loop.any fun l' => l'.scope == l.scope && l'.nextTick ≤ m.world.now) = true := by
    simpa [own, Machine.now] using Nat.le_of_not_lt due
  have cases := m.world.stepLoop_cases slot c l.scope
  generalize m.world.stepLoop slot c l.scope = r at cases same
  cases cases with
  | stops cause ended | ticksLast cause ended | skipsLast cause ended =>
    cases live.symm.trans ended
  | rests _ early => exact early passed
  | ticks => cases same
  | skips =>
    have events : .tickSkipped c.name :: m.world.events = m.world.events :=
      congrArg (·.2.2.events) same
    exact List.cons_ne_self _ _ events

end Machine

/-! ## A scenario is a patient run -/

namespace Scenario.Session

/-- **A move is patient** unless time passes in it while a job has something to do, or past an instant
at which one wakes. -/
def PatientMove (s : Session) : Move → Prop
  | .pass ms => s.machine.Still ∧ ∀ p ∈ s.machine.jobs, ∀ wake ∈ p.2.wakes s.machine.world,
      s.machine.now < wake → s.machine.now + ms ≤ wake
  | .begin _ | .aside _ _ | .turn _ | .grace _ => True

/-- **Every move of a run is patient.** -/
def Patient : Session → List Move → Prop
  | _, [] => True
  | s, next :: rest => s.PatientMove next ∧ Patient (s.move next) rest

theorem patient_append {s : Session} {run later : List Move} :
    s.Patient (run ++ later) ↔ s.Patient run ∧ (s.moves run).Patient later := by
  induction run generalizing s with
  | nil => exact (iff_of_eq (true_and _)).symm
  | cons next rest ih =>
    rw [List.cons_append, Patient, Patient, ih, and_assoc]
    rfl

variable {known : Check → Prop} {s s' : Session} {held held' : List ScopeId}

/-- **A session that keeps time.** -/
structure Timely (known : Check → Prop) (s : Session) (held : List ScopeId) : Prop where
  within : s.Within known held
  paced : s.machine.Paced held
  crewed : s.Crewed

/-- **A punctual move keeps a session in time.** -/
theorem Timely.move (timely : s.Timely known held) {next : Move} (punctual : s.PunctualMove next) :
    ∃ held', (s.move next).Timely known held' := by
  obtain ⟨within, ⟨locked, sheltered, looped, spaced, onTime⟩, crewed⟩ := timely
  obtain ⟨held', within', locked', sheltered', looped', spaced'⟩ := move_keep
    (I := fun p => p.1.Locked ∧ p.1.Sheltered p.2 ∧ p.1.Looped p.2 ∧ p.1.world.Spaced)
    (fun touch ⟨locked, sheltered, looped, spaced⟩ => ⟨locked.touch touch, sheltered.touch touch,
      looped.touch touch, spaced.of_makes touch.kept.makes⟩)
    (fun m _ i ⟨locked, sheltered, looped, spaced⟩ => ⟨locked.takeTurn i, sheltered.takeTurn i,
      looped.takeTurn sheltered i, spaced.of_makes (m.takeTurn_later i).makes⟩)
    (fun _ _ _ _ ⟨locked, sheltered, looped, spaced⟩ => ⟨locked.of_world rfl rfl,
      ⟨sheltered.opened, sheltered.scopes, sheltered.limits⟩,
      ⟨looped.tied, looped.hidden, looped.apart⟩, spaced⟩)
    within ⟨locked, sheltered, looped, spaced⟩ next
  exact ⟨held', within', ⟨locked', sheltered', looped', spaced',
    move_onTime within looped onTime punctual⟩, move_crewed crewed within locked looped next⟩

/-- So does a punctual run. -/
theorem Timely.moves (timely : s.Timely known held) {run : List Move} (punctual : s.Punctual run) :
    ∃ held', (s.moves run).Timely known held' := by
  induction run generalizing s held with
  | nil => exact ⟨held, timely⟩
  | cons next rest ih =>
    obtain ⟨held', timely'⟩ := timely.move punctual.1
    exact ih timely' punctual.2

/-- **When nothing is left to do, to let time pass is punctual** up to the next instant at which a job
wakes. -/
theorem Timely.pass_punctual (timely : s.Timely known held) (still : s.machine.Still) {ms : Nat}
    (early : ∀ p ∈ s.machine.jobs, ∀ wake ∈ p.2.wakes s.machine.world, s.machine.now < wake →
      s.machine.now + ms ≤ wake) : s.PunctualMove (.pass ms) := by
  refine ⟨still.handedOn timely.paced.locked, World.onTime_iff.mpr fun slot l loop live => ?_⟩
  have loop : s.machine.world.loops[slot]? = some (some l) := loop
  have live : s.machine.world.scopes.cause? l.nextTick l.scope = none := live
  have le := World.onTime_iff.mp timely.paced.onTime slot l loop live
  have alive : s.machine.world.cause? l.scope = none := by
    by_contra ended
    exact Scopes.ended_later le ended live
  obtain ⟨id, mem⟩ := timely.crewed.manned slot l loop alive
  -- the job of the loop wakes at its next tick
  obtain ⟨c, cached, own⟩ := World.loops_eq_some.mp loop
  exact early _ mem l.nextTick (by simp [Job.wakes, cached, own]) (still.ahead mem loop alive)

/-- **A patient move is punctual.** -/
theorem Timely.move_punctual (timely : s.Timely known held) {next : Move}
    (patient : s.PatientMove next) : s.PunctualMove next := by
  cases next with
  | begin | aside | turn | grace => trivial
  | pass ms => exact timely.pass_punctual patient.1 patient.2

/-- **A patient run is punctual**, and keeps a session in time. -/
theorem Timely.punctual (timely : s.Timely known held) {run : List Move} (patient : s.Patient run) :
    s.Punctual run := by
  induction run generalizing s held with
  | nil => trivial
  | cons next rest ih =>
    have punctual := timely.move_punctual patient.1
    obtain ⟨held', timely'⟩ := timely.move punctual
    exact ⟨punctual, ih timely' patient.2⟩

/-- A move is seen to be patient: if time passes in it no turn is left to what has ended, a round
leaves no less to do, and no job wakes before the time is over. -/
def patientMove? (s : Session) : Move → Bool
  | .pass ms => !s.machine.world.grace && !decide (s.machine.round.weight < s.machine.weight) &&
      s.machine.jobs.all fun p => (p.2.wakes s.machine.world).all fun wake =>
        decide (s.machine.now < wake → s.machine.now + ms ≤ wake)
  | .begin _ | .aside _ _ | .turn _ | .grace _ => true

/-- Every move of a run is seen to be patient. -/
def patient? : Session → List Move → Bool
  | _, [] => true
  | s, next :: rest => s.patientMove? next && patient? (s.move next) rest

/-- **What is seen to be patient is.** -/
theorem Timely.patientMove (timely : s.Timely known held) {next : Move}
    (seen : s.patientMove? next = true) : s.PatientMove next := by
  cases next with
  | begin | aside | turn | grace => trivial
  | pass ms =>
    simp only [patientMove?, Bool.and_eq_true, Bool.not_eq_true', decide_eq_false_iff_not,
      List.all_eq_true, decide_eq_true_eq] at seen
    obtain ⟨⟨strict, heavier⟩, early⟩ := seen
    exact ⟨(Machine.paced_settles.still_of_round ⟨timely.paced, strict⟩ heavier).1, early⟩

theorem Timely.patient (timely : s.Timely known held) {run : List Move}
    (seen : s.patient? run = true) : s.Patient run := by
  induction run generalizing s held with
  | nil => trivial
  | cons next rest ih =>
    obtain ⟨first, rest⟩ := Bool.and_eq_true_iff.mp seen
    have patient := timely.patientMove first
    obtain ⟨held', timely'⟩ := timely.move (timely.move_punctual patient)
    exact ⟨patient, ih timely' rest⟩

/-- One session comes from another by a patient run. -/
def LeadsPatiently (s s' : Session) : Prop :=
  ∃ run, s' = s.moves run ∧ s.Patient run

/-- One session comes from another by a punctual run. -/
def LeadsPunctually (s s' : Session) : Prop :=
  ∃ run, s' = s.moves run ∧ s.Punctual run

theorem LeadsPatiently.trans {s'' : Session} (first : s.LeadsPatiently s')
    (second : s'.LeadsPatiently s'') : s.LeadsPatiently s'' := by
  obtain ⟨run, rfl, patient⟩ := first
  obtain ⟨run', rfl, patient'⟩ := second
  exact ⟨run ++ run', (s.moves_append run run').symm, patient_append.mpr ⟨patient, patient'⟩⟩

/-- One session comes from another by a patient run in which no command begins. -/
def LeadsAlone (s s' : Session) : Prop :=
  ∃ run, s' = s.moves run ∧ s.Patient run ∧ ∀ next ∈ run, next.Alone

theorem LeadsAlone.trans {s'' : Session} (first : s.LeadsAlone s') (second : s'.LeadsAlone s'') :
    s.LeadsAlone s'' := by
  obtain ⟨run, rfl, patient, alone⟩ := first
  obtain ⟨run', rfl, patient', alone'⟩ := second
  refine ⟨run ++ run', (s.moves_append run run').symm, patient_append.mpr ⟨patient, patient'⟩, ?_⟩
  intro next mem
  exact (List.mem_append.mp mem).elim (alone next) (alone' next)

theorem LeadsAlone.patiently (leads : s.LeadsAlone s') : s.LeadsPatiently s' := by
  obtain ⟨run, same, patient, -⟩ := leads
  exact ⟨run, same, patient⟩

theorem leadsAlone_move {next : Move} (patient : s.PatientMove next) (alone : next.Alone) :
    s.LeadsAlone (s.move next) :=
  ⟨[next], rfl, ⟨patient, trivial⟩, by simpa using alone⟩

/-- Steps of jobs are patient. -/
theorem turns_alone (s : Session) (turns : List Nat) :
    s.LeadsAlone { s with machine := s.machine.takeTurns turns } := by
  induction turns generalizing s with
  | nil => exact ⟨[], rfl, trivial, nofun⟩
  | cons i rest ih =>
    have first : s.LeadsAlone (s.move (.turn i)) := leadsAlone_move trivial trivial
    exact first.trans (ih (s.move (.turn i)))

theorem turns_patiently (s : Session) (turns : List Nat) :
    s.LeadsPatiently { s with machine := s.machine.takeTurns turns } :=
  (s.turns_alone turns).patiently

/-- **A session that keeps time and has nothing left to do**, where what has ended is cut off at
once. -/
def Rested (s : Session) : Prop :=
  (∃ held, s.Timely (fun _ => True) held) ∧ s.machine.Still ∧ s.machine.world.grace = false

/-- **What is due is run to its end.** -/
theorem Timely.settled_alone (timely : s.Timely (fun _ => True) held)
    (strict : s.machine.world.grace = false) : s.LeadsAlone s.settled ∧ s.settled.Rested := by
  obtain ⟨turns, taken⟩ := s.machine.settle_turns
  have leads : s.LeadsAlone s.settled := by
    unfold Session.settled
    rw [taken]
    exact s.turns_alone turns
  refine ⟨leads, ?_, Machine.paced_settles.settle_still ⟨timely.paced, strict⟩,
    s.machine.settle_later.grace.trans strict⟩
  obtain ⟨run, same, patient⟩ := leads.patiently
  rw [same]
  exact timely.moves (timely.punctual patient)

theorem Timely.settled (timely : s.Timely (fun _ => True) held)
    (strict : s.machine.world.grace = false) : s.LeadsPatiently s.settled ∧ s.settled.Rested :=
  (timely.settled_alone strict).imp_left LeadsAlone.patiently

/-- **A session comes to rest**, and no command is needed for it. -/
theorem Timely.comes_to_rest (timely : s.Timely (fun _ => True) held) :
    ∃ s', s.LeadsAlone s' ∧ s'.Rested := by
  have strict : s.LeadsAlone (s.move (.grace false)) := leadsAlone_move trivial trivial
  have patient : s.PatientMove (.grace false) := trivial
  obtain ⟨_, timely'⟩ := timely.move (timely.move_punctual patient)
  obtain ⟨settles, rested⟩ := timely'.settled_alone rfl
  exact ⟨_, strict.trans settles, rested⟩

/-- **To let time pass until a job is over is patient**, or up to some instant. -/
theorem Rested.await (rested : s.Rested) (id : JobId) (limit : Nat) :
    s.LeadsAlone { s with machine := s.machine.await id limit } ∧
      Rested { s with machine := s.machine.await id limit } := by
  refine Machine.await_keep (I := fun m =>
    s.LeadsAlone { s with machine := m } ∧ Rested { s with machine := m })
    (fun m ahead ⟨led, ⟨_, timely⟩, still, strict⟩ => ?_) ⟨⟨[], rfl, trivial, nofun⟩, rested⟩
  obtain ⟨ms, -, jumped, early⟩ := Machine.jump_passes ahead
  have passed : LeadsAlone { s with machine := m }
      (Session.move { s with machine := m } (.pass ms)) := leadsAlone_move ⟨still, early⟩ trivial
  obtain ⟨_, timely'⟩ := timely.move (timely.pass_punctual still early)
  rw [jumped]
  exact (timely'.settled_alone strict).imp_left fun settled => (led.trans passed).trans settled

theorem Rested.finish (rested : s.Rested) (id : JobId) :
    s.LeadsPatiently (s.finish id).2 ∧ (s.finish id).2.Rested :=
  (rested.await id s.machine.horizon).imp_left LeadsAlone.patiently

/-- **A command that is played is a patient run**, and leaves nothing to do. -/
theorem Rested.play (rested : s.Rested) (c : Command) :
    s.LeadsPatiently (s.play c).2 ∧ (s.play c).2.Rested := by
  obtain ⟨⟨held, timely⟩, -, strict⟩ := id rested
  have after (next : Move) (patient : s.PatientMove next)
      (touched : ∃ held', s.Touched (fun _ => True) held (s.move next) held') :
      s.LeadsPatiently (s.move next).settled ∧ (s.move next).settled.Rested := by
    obtain ⟨_, touched⟩ := touched
    have strict' := (Machine.Touches.kept touched.touches).grace.trans strict
    have first : s.LeadsPatiently (s.move next) := ⟨[next], rfl, patient, trivial⟩
    obtain ⟨held', timely'⟩ := timely.move (timely.move_punctual patient)
    exact (timely'.settled strict').imp_left first.trans
  refine play_keep (I := fun s' => s.LeadsPatiently s' ∧ s'.Rested) ⟨⟨[], rfl, trivial⟩, rested⟩
    (fun c => after (.begin c) trivial (begin_touches timely.within c))
    (fun name c => after (.aside name c) trivial (setAside_touches timely.within name c))
    ?_ c
  rintro s' id ⟨led, rested'⟩
  exact (rested'.finish id).imp_left led.trans

open CheckTree (ofBlueprint?)

/-- A session is rested when it begins. -/
theorem rested_ofTree {b : Blueprint} {t : CheckTree} (built : ofBlueprint? b = some t)
    (before : List Event) : (ofTree (some t) before).Rested := by
  obtain ⟨held, within, sheltered, looped⟩ := looped_of_moves built before []
  obtain ⟨plan, planned⟩ := CheckTree.planned_ofBlueprint built
  refine ⟨⟨held, within, ⟨planned.locked before, sheltered, looped, ?_, planned.onTime before⟩,
    ⟨fun slot l loop => absurd loop (planned.no_loops before slot l), nofun⟩⟩, nofun, rfl⟩
  intro make mem
  obtain ⟨c, there, rfl⟩ := List.mem_map.mp mem
  exact planned.assembled.positive c there

/-- **A session keeps time** over every punctual run, and so over every patient one. -/
theorem timely_of_punctual {b : Blueprint} {t : CheckTree} (built : ofBlueprint? b = some t)
    (before : List Event) {run : List Move} (punctual : (ofTree (some t) before).Punctual run) :
    ∃ held, ((ofTree (some t) before).moves run).Timely (fun _ => True) held := by
  obtain ⟨⟨_, timely⟩, -⟩ := rested_ofTree built before
  exact timely.moves punctual

theorem timely_of_patient {b : Blueprint} {t : CheckTree} (built : ofBlueprint? b = some t)
    (before : List Event) {run : List Move} (patient : (ofTree (some t) before).Patient run) :
    ∃ held, ((ofTree (some t) before).moves run).Timely (fun _ => True) held := by
  obtain ⟨⟨_, timely⟩, -⟩ := rested_ofTree built before
  exact timely_of_punctual built before (timely.punctual patient)

/-- From the beginning of a session a run that is seen to be patient is. -/
theorem patient_ofTree {b : Blueprint} {t : CheckTree} (built : ofBlueprint? b = some t)
    (before : List Event) {run : List Move} (seen : (ofTree (some t) before).patient? run = true) :
    (ofTree (some t) before).Patient run := by
  obtain ⟨⟨_, timely⟩, -⟩ := rested_ofTree built before
  exact timely.patient seen

/-- **Every scenario is a patient run.** -/
theorem playAll_patient {b : Blueprint} {t : CheckTree} (built : ofBlueprint? b = some t)
    (before : List Event) (cs : List Command) :
    (ofTree (some t) before).LeadsPatiently (playAll cs (ofTree (some t) before)).2 := by
  have begins := rested_ofTree built before
  refine (playAll_keep (I := fun s' => (ofTree (some t) before).LeadsPatiently s' ∧ s'.Rested)
    ?_ cs ⟨⟨[], rfl, trivial⟩, begins⟩).1
  rintro s' c ⟨led, rested⟩
  exact (rested.play c).imp_left led.trans

/-- **Every scenario is a punctual run.** -/
theorem playAll_punctual {b : Blueprint} {t : CheckTree} (built : ofBlueprint? b = some t)
    (before : List Event) (cs : List Command) :
    (ofTree (some t) before).LeadsPunctually (playAll cs (ofTree (some t) before)).2 := by
  obtain ⟨run, same, patient⟩ := playAll_patient built before cs
  obtain ⟨⟨_, timely⟩, -⟩ := rested_ofTree built before
  exact ⟨run, same, timely.punctual patient⟩

/-! ## One loop, on schedule -/

/-- **One loop, and an exact schedule.** In every state of every run, of the loops that the run has
set off for a cache one is live exactly if the loop is running, and none is else. Over a punctual run
a loop that a start has set off or reset ticks one interval later, two intervals later and so on,
until it is seen to again or its scope ends; and each tick either begins a refresh, where none is
under way, or is skipped. Scenarios are such runs. -/
theorem one_loop_on_schedule {b : Blueprint} {t : CheckTree} (built : ofBlueprint? b = some t)
    (before : List Event) (slot : Nat) :
    let s := ofTree (some t) before
    (∀ run : List Move,
      (s.loopsSetOff slot run).countP
          (fun own => ((s.moves run).machine.world.cause? own).isNone) =
        ((s.moves run).machine.runs slot).toNat) ∧
    (∀ (run later : List Move) (i : Nat) (scope : ScopeId) (c : Cache),
      let s' := (s.moves run).move (.turn i)
      s.Punctual (run ++ .turn i :: later) →
      (s.moves run).loopEvent? (.turn i) = some (.seenTo slot scope) →
      (s.moves run).machine.world.cache? slot = some c →
      (∀ now scope, (now, .seenTo slot scope) ∉ s'.loopEvents slot later) →
        s'.TicksOnSchedule slot (s.moves run).machine.now c.interval later) ∧
    (∀ (run : List Move) (i : Nat) (c : Cache),
      let m := (s.moves run).machine
      s.Punctual run →
      (s.moves run).loopEvent? (.turn i) = some (.tick slot) →
      m.world.cache? slot = some c →
        m.refreshing slot = false ∧ m.Begins (m.takeTurn i) slot ∨
          s.RefreshedThen slot run ∧ m.Skips (m.takeTurn i) c.name) ∧
    ∀ cs : List Command, s.LeadsPunctually (playAll cs s).2 :=
  ⟨fun run => loops_at_most_one built before run slot,
    fun run _ _ _ _ => ticks_on_schedule built before run,
    fun run _ _ => tick_begins_or_skips built before run,
    fun cs => playAll_punctual built before cs⟩

/-- A loop that is set off at 20 ticks at 120 and at 220. The first tick comes while a refresh is
under way that was forced at 110, and is skipped. -/
theorem ticks_at_120_and_220 :
    let b : Blueprint := .cached 100 (.probe ⟨"p", "p", ⟨[⟨some 20, true⟩], .tally⟩, []⟩)
    let start : List Move := [.begin (.start 0 {}), .turn 0, .pass 20]
    let first : List Move := [.pass 90, .begin (.force 0 {}), .turn 1, .pass 10]
    let later : List Move := first ++ [.turn 0, .pass 10, .turn 0, .pass 90, .turn 0, .pass 50]
    ∃ t, ofBlueprint? b = some t ∧
      let s := ofTree (some t) []
      let s' := (s.moves start).move (.turn 0)
      let m := (s.moves (start ++ .turn 0 :: first)).machine
      s'.loopEvents 0 later = [(120, .tick 0), (220, .tick 0)] ∧
        s'.TicksOnSchedule 0 20 100 later ∧
        m.refreshing 0 = true ∧ m.Skips (m.takeTurn 0) "p" := by
  intro b start first later
  have facts : (ofBlueprint? b).any fun t =>
      let s := ofTree (some t) []
      let s' := (s.moves start).move (.turn 0)
      let s'' := s.moves (start ++ .turn 0 :: first)
      decide <| s.Punctual (start ++ .turn 0 :: later) ∧
        (s.moves start).loopEvent? (.turn 0) = some (.seenTo 0 1) ∧
        (s.moves start).machine.now = 20 ∧
        ((s.moves start).machine.world.cache? 0).map (·.interval) = some 100 ∧
        s'.loopEvents 0 later = [(120, .tick 0), (220, .tick 0)] ∧
        s''.loopEvent? (.turn 0) = some (.tick 0) ∧
        (s''.machine.world.cache? 0).map (·.name) = some "p" ∧
        s''.machine.refreshing 0 = true := by decide +kernel
  obtain ⟨t, built, facts⟩ := (Option.any_eq_true _ _).mp facts
  obtain ⟨punctual, seen, now, interval, events, tick, name, refreshing⟩ := of_decide_eq_true facts
  obtain ⟨c, cached, interval⟩ := Option.map_eq_some_iff.mp interval
  obtain ⟨c', cached', name⟩ := Option.map_eq_some_iff.mp name
  obtain ⟨-, schedule, ticks, -⟩ := one_loop_on_schedule built [] 0
  refine ⟨t, built, events, ?_, refreshing, ?_⟩
  · have onSchedule := schedule start later 0 1 c punctual seen cached (by simp [events])
    rwa [now, interval] at onSchedule
  · have whole : (ofTree (some t) []).Punctual ((start ++ .turn 0 :: first) ++ later.drop 4) :=
      punctual
    have before := (punctual_append.mp whole).1
    rcases ticks _ 0 c' before tick cached' with ⟨none, -⟩ | ⟨-, skips⟩
    · cases none.symm.trans refreshing
    · exact name ▸ skips

end Scenario.Session

end HealthTree
