import HealthTree.Scenario
import HealthTree.Proofs.Turns
import Mathlib.Logic.Relation

/-!
# Sessions with their jobs in any order

A scenario lets its jobs take their steps in rounds and lets time pass when nothing is left to do.
Neither is promised by the programs that use these checks. So what is said of every run is said of
sessions that are *moved* freely: at any time a command begins, one of the jobs takes a step, or
time passes, in whatever order (`Session.move`, `Session.moves`). Nor is it promised which is seen
first when a scope ends and what goes on under it is ready as well, so a run may settle that anew
before each step (`Move.grace`). A scenario is one such run (`playAll_leads`).

All that a command does to the machine before its job takes the first step is made of a few changes
(`Touch`): scopes are handed out, derived and cancelled, a job is set off or dropped, a loop is
stopped, the events are read. `begin_touches` says so; what these changes and the steps of the jobs
keep is therefore kept by every run.
-/

namespace HealthTree

/-- The job after a step, unless it is over. -/
def JobTurn.left (id : JobId) : JobTurn → List (JobId × Job)
  | .going job => [(id, job)]
  | .finished _ | .gone => []

/-- What a job came to in a step at this instant, if it came to anything. -/
def JobTurn.result (id : JobId) (now : Nat) : JobTurn → List (JobId × Nat × Reply)
  | .finished r => [(id, now, r)]
  | .going _ | .gone => []

namespace Machine

/-- **The job at this place takes a step**, and goes on behind all others. -/
def takeTurn (m : Machine) (i : Nat) : Machine :=
  match m.jobs[i]? with
  | none => m
  | some (id, job) =>
    let (turn, spawned, w) := job.step id m.world
    { world := w
      jobs := m.jobs.eraseIdx i ++ (turn.left id ++ spawned.toList)
      finished := turn.result id w.now ++ m.finished }

theorem takeTurn_later (m : Machine) (i : Nat) : m.world.Later (m.takeTurn i).world := by
  unfold takeTurn
  cases m.jobs[i]? with
  | none => exact (World.Aside.refl m.world).toLater
  | some p => exact p.2.step_later p.1 m.world

/-- **A job that is there after a step** stood beside the one that took it, is what the step has left
of that, or was set off by it. -/
theorem mem_takeTurn {m : Machine} {i : Nat} {p : JobId × Job} (mem : p ∈ (m.takeTurn i).jobs) :
    p ∈ m.jobs.eraseIdx i ∨ ∃ q, m.jobs[i]? = some q ∧
      (p.1 = q.1 ∧ (q.2.step q.1 m.world).1 = .going p.2 ∨
        (q.2.step q.1 m.world).2.1 = some p) := by
  unfold takeTurn at mem
  cases found : m.jobs[i]? with
  | none =>
    rw [found] at mem
    rw [List.eraseIdx_of_length_le (List.getElem?_eq_none_iff.mp found)]
    exact .inl mem
  | some q =>
    simp only [found] at mem
    rcases List.mem_append.mp mem with beside | new
    · exact .inl beside
    refine .inr ⟨q, rfl, ?_⟩
    rcases List.mem_append.mp new with left | spawned
    · cases turn : (q.2.step q.1 m.world).1 with
      | going next =>
        rw [turn] at left
        cases List.mem_singleton.mp left
        exact .inl ⟨rfl, rfl⟩
      | finished | gone =>
        rw [turn] at left
        cases left
    · exact .inr (Option.mem_toList.mp spawned)

/-- Time passes. -/
def pass (m : Machine) (ms : Nat) : Machine :=
  { m with world := { m.world with now := m.now + ms } }

/-- What goes on under a scope that has ended gets one more turn from now on, or none. -/
def withGrace (m : Machine) (given : Bool) : Machine :=
  { m with world := { m.world with grace := given } }

/-- Steps of the jobs at these places, one after the other. -/
def takeTurns (m : Machine) (turns : List Nat) : Machine :=
  turns.foldl takeTurn m

theorem stepJobs_turns (jobs : List (JobId × Job)) (m : Machine) :
    stepJobs jobs m =
      takeTurns { m with jobs := jobs ++ m.jobs } (List.replicate jobs.length 0) := by
  induction jobs generalizing m with
  | nil => rfl
  | cons first rest ih =>
    obtain ⟨id, job⟩ := first
    rcases taken : job.step id m.world with ⟨turn, spawned, w⟩
    simp only [stepJobs, taken, List.length_cons, List.replicate_succ, takeTurns, List.foldl_cons,
      takeTurn, List.cons_append, List.getElem?_cons_zero, List.eraseIdx_zero, List.tail_cons]
    cases turn <;> simp [ih, takeTurns, JobTurn.left, JobTurn.result]

/-- A round is a step of each job. -/
theorem round_turns (m : Machine) : m.round = m.takeTurns (List.replicate m.jobs.length 0) := by
  rw [round, stepJobs_turns]
  simp

theorem settle_turns (m : Machine) : ∃ turns, m.settle = m.takeTurns turns := by
  induction m using settle.induct with
  | case1 m m' lighter ih =>
    obtain ⟨turns, taken⟩ := ih
    refine ⟨List.replicate m.jobs.length 0 ++ turns, ?_⟩
    rw [settle, if_pos lighter, taken]
    simp only [m', round_turns, takeTurns, List.foldl_append]
  | case2 m m' heavier =>
    refine ⟨List.replicate m.jobs.length 0, ?_⟩
    rw [settle, if_neg heavier, round_turns]

/-- What settles goes on at the same instant. -/
theorem settle_later (m : Machine) : m.world.Later m.settle.world := by
  obtain ⟨turns, taken⟩ := m.settle_turns
  rw [taken]
  clear taken
  induction turns generalizing m with
  | nil => exact (World.Aside.refl m.world).toLater
  | cons i rest ih => exact (m.takeTurn_later i).trans (ih (m.takeTurn i))

/-- **A jump lets time pass**, not past any instant at which a job wakes, and lets the jobs go on. -/
theorem jump_passes {m : Machine} {target : Nat} (ahead : m.now < target) :
    ∃ ms, 0 < ms ∧ m.jump target = (m.pass ms).settle ∧
      ∀ p ∈ m.jobs, ∀ wake ∈ p.2.wakes m.world, m.now < wake → m.now + ms ≤ wake := by
  have listed {p : JobId × Job} (mem : p ∈ m.jobs) {wake : Nat} (wakes : wake ∈ p.2.wakes m.world)
      (later : m.now < wake) :
      wake ∈ (m.jobs.flatMap fun j => j.2.wakes m.world).filter (m.now < ·) :=
    List.mem_filter.mpr ⟨List.mem_flatMap.mpr ⟨p, mem, wakes⟩, decide_eq_true later⟩
  simp only [jump]
  cases woken : m.nextWake with
  | none =>
    refine ⟨target - m.now, Nat.sub_pos_of_lt ahead, ?_, fun p mem wake wakes later => ?_⟩
    · rw [pass, Nat.add_sub_cancel' (Nat.le_of_lt ahead)]
    · have none := listed mem wakes later
      rw [List.min?_eq_none_iff.mp woken] at none
      cases none
  | some t =>
    obtain ⟨its, first⟩ := List.min?_eq_some_iff.mp woken
    have after : m.now < t := by simpa using (List.mem_filter.mp its).2
    have time : m.now + (min t target - m.now) = min t target := Nat.add_sub_cancel' (by omega)
    refine ⟨min t target - m.now, by omega, by rw [pass, time], fun p mem wake wakes later => ?_⟩
    rw [time]
    exact Nat.le_trans (Nat.min_le_left ..) (first wake (listed mem wakes later))

/-- **What a jump keeps, the wait for a job keeps.** -/
theorem await_keep {I : Machine → Prop} {id : JobId} {limit : Nat}
    (jump : ∀ m : Machine, m.now < limit → I m → I (m.jump limit)) {m : Machine} (kept : I m) :
    I (m.await id limit) := by
  induction m using await.induct id limit with
  | case1 m ahead m' moved ih =>
    rw [await, if_pos ahead]
    simp only [m', if_pos moved]
    exact ih (jump m ahead.1 kept)
  | case2 m ahead m' unmoved =>
    rw [await, if_pos ahead]
    simp only [m', if_neg unmoved]
    exact jump m ahead.1 kept
  | case3 m ended =>
    rw [await, if_neg ended]
    exact kept

end Machine

namespace Scenario

/-- What can happen next to a session. -/
inductive Move where
  /-- A command begins. -/
  | begin (c : Command)
  /-- A command begins and is set aside under a name. -/
  | aside (name : String) (c : Command)
  /-- The job at this place takes a step. -/
  | turn (i : Nat)
  /-- So many milliseconds pass. -/
  | pass (ms : Nat)
  /-- From now on what goes on under a scope that has ended gets one more turn, or none. -/
  | grace (given : Bool)

/-- No command begins with a move. -/
def Move.Alone : Move → Prop
  | .begin _ | .aside _ _ => False
  | .turn _ | .pass _ | .grace _ => True

namespace Session

/-- A command begins; if it is a job, its first step is still to come. -/
def begin (s : Session) (c : Command) : Session :=
  match s.job? c with
  | some (job, s) => { s with machine := (s.machine.submit job).2 }
  | none => (s.instant c).2

/-- **One move of a session.** -/
def move (s : Session) : Move → Session
  | .begin c => s.begin c
  | .aside name c => (s.setAside name c).2
  | .turn i => { s with machine := s.machine.takeTurn i }
  | .pass ms => { s with machine := s.machine.pass ms }
  | .grace given => { s with machine := s.machine.withGrace given }

/-- **A run**: moves one after the other. -/
def moves (s : Session) (run : List Move) : Session :=
  run.foldl move s

theorem moves_append (s : Session) (run later : List Move) :
    s.moves (run ++ later) = (s.moves run).moves later :=
  List.foldl_append

/-- One session comes from another by moves. -/
def Leads (s s' : Session) : Prop :=
  ∃ run, s' = s.moves run

theorem Leads.trans {s s' s'' : Session} (first : s.Leads s') (second : s'.Leads s'') :
    s.Leads s'' := by
  obtain ⟨run, rfl⟩ := first
  obtain ⟨run', rfl⟩ := second
  exact ⟨run ++ run', (s.moves_append run run').symm⟩

/-! ## Scopes of commands -/

/-- To look up a scope changes the scopes at most. -/
theorem scopeNamed_withScopes {s s' : Session} {name : Option String} {scope : ScopeId}
    (found : s.scopeNamed? name = some (scope, s')) : ∃ scopes, s' = s.withScopes scopes := by
  unfold scopeNamed? at found
  cases name with
  | none =>
    cases found
    exact ⟨_, rfl⟩
  | some name =>
    simp only at found
    split at found
    · cases found
      exact ⟨s.machine.world.scopes, rfl⟩
    · split at found
      · cases found
        exact ⟨_, rfl⟩
      · cases found

theorem scope_withScopes {s s' : Session} {under : Under} {scope : ScopeId}
    (found : s.scope? under = some (scope, s')) :
    ∃ scopes, s' = s.withScopes scopes := by
  obtain ⟨⟨parent, s₁⟩, named, found⟩ := Option.bind_eq_some_iff.mp found
  obtain ⟨scopes, rfl⟩ := scopeNamed_withScopes named
  simp only at found
  split at found
  · cases found
    exact ⟨scopes, rfl⟩
  · cases found
    exact ⟨_, rfl⟩

/-- A command that is a job changes the scopes at most, before it is set off. -/
theorem job_withScopes {s s' : Session} {c : Command} {job : Job}
    (is : s.job? c = some (job, s')) : ∃ scopes, s' = s.withScopes scopes := by
  -- every command that is a job takes a scope first, and is its job then
  have under {under : Under} {body : ScopeId × Session → Option (Job × Session)}
      (last : ∀ p, body p = some (job, s') → s' = p.2)
      (is : (s.scope? under).bind body = some (job, s')) : ∃ scopes, s' = s.withScopes scopes := by
    obtain ⟨p, found, is⟩ := Option.bind_eq_some_iff.mp is
    obtain ⟨scopes, same⟩ := scope_withScopes found
    exact ⟨scopes, (last p is).trans same⟩
  cases c with
  | check target u =>
    obtain ⟨check, -, is⟩ := Option.bind_eq_some_iff.mp is
    refine under ?_ is
    rintro p ⟨⟩
    rfl
  | start | force | watch | work =>
    refine under ?_ is
    rintro p ⟨⟩
    rfl
  | startAll u =>
    refine under ?_ is
    intro p is
    simp only at is
    split at is <;> cases is
    rfl
  | advance ms =>
    cases is
    exact ⟨s.machine.world.scopes, rfl⟩
  | _ => cases is

/-! ## A scenario is a run -/

/-- What machines come to by steps of their jobs and the passing of time. -/
inductive Runs (m : Machine) : Machine → Prop
  | refl : Runs m m
  | turn {m' : Machine} (runs : Runs m m') (i : Nat) : Runs m (m'.takeTurn i)
  | pass {m' : Machine} (runs : Runs m m') (ms : Nat) : Runs m (m'.pass ms)

theorem Runs.takeTurns {m m' : Machine} (runs : Runs m m') (turns : List Nat) :
    Runs m (m'.takeTurns turns) := by
  induction turns generalizing m' with
  | nil => exact runs
  | cons i rest ih => exact ih (runs.turn i)

theorem Runs.settle {m m' : Machine} (runs : Runs m m') : Runs m m'.settle := by
  obtain ⟨turns, taken⟩ := m'.settle_turns
  exact taken ▸ runs.takeTurns turns

theorem Runs.leads {m : Machine} (s : Session) (runs : Runs s.machine m) :
    s.Leads { s with machine := m } := by
  induction runs with
  | refl => exact ⟨[], rfl⟩
  | turn _ i ih => exact ih.trans ⟨[.turn i], rfl⟩
  | pass _ ms ih => exact ih.trans ⟨[.pass ms], rfl⟩

theorem await_runs (id : JobId) (limit : Nat) (m : Machine) : Runs m (m.await id limit) := by
  refine Machine.await_keep (I := Runs m) (fun m' ahead runs => ?_) .refl
  obtain ⟨ms, -, jumped, -⟩ := Machine.jump_passes ahead
  exact jumped ▸ (runs.pass ms).settle

theorem settled_leads (s : Session) : s.Leads s.settled :=
  Runs.refl.settle.leads s

theorem finish_leads (s : Session) (id : JobId) : s.Leads (s.finish id).2 :=
  (await_runs id _ _).leads s

/-- A command that is a job is set off. -/
theorem begin_job {s s' : Session} {c : Command} {job : Job} (is : s.job? c = some (job, s')) :
    s.begin c = { s' with machine := (s'.machine.submit job).2 } := by
  unfold begin
  rw [is]

/-- What is due then is run to its end, and time passes until the job is over. -/
theorem play_job {s s' : Session} {c : Command} {job : Job} (is : s.job? c = some (job, s')) :
    (s.play c).2 = ((s.begin c).settled.finish (s'.machine.submit job).1).2 := by
  rw [begin_job is]
  cases c with
  | spawn | join => cases is
  | _ =>
    unfold play
    simp only [is]
    split <;> rename_i came <;> exact (congrArg Prod.snd came).symm

/-- **What a command that is played comes to**: it begins or is set aside, what is due is run to its
end, and time may pass until a job is over. -/
theorem play_keep {I : Session → Prop} {s : Session} (kept : I s)
    (begun : ∀ c, I (s.begin c).settled) (aside : ∀ name c, I (s.setAside name c).2.settled)
    (finish : ∀ (s : Session) id, I s → I (s.finish id).2) (c : Command) : I (s.play c).2 := by
  cases is : s.job? c with
  | some p =>
    rw [play_job is]
    exact finish _ _ (begun c)
  | none =>
    have begun := begun c
    unfold begin at begun
    simp only [is] at begun
    cases c with
    | spawn name c => exact aside name c
    | join name =>
      simp only [play, rejoin]
      cases s.asides.lookup name with
      | none => exact kept
      | some aside =>
        cases aside with
        | answered time answer => exact kept
        | job id =>
          have finished := finish s id kept
          simp only
          split <;> rename_i came <;> rw [came] at finished <;> exact finished
    | _ =>
      unfold play
      simp only [is]
      exact begun

/-- What every command keeps that is played, a scenario keeps. -/
theorem playAll_keep {I : Session → Prop} (play : ∀ s c, I s → I (s.play c).2) (cs : List Command)
    {s : Session} (kept : I s) : I (playAll cs s).2 := by
  induction cs generalizing s with
  | nil => exact kept
  | cons c rest ih => exact ih (play s c kept)

/-- **A command that is played is a run.** -/
theorem play_leads (s : Session) (c : Command) : s.Leads (s.play c).2 :=
  play_keep ⟨[], rfl⟩ (fun c => Leads.trans ⟨[.begin c], rfl⟩ (settled_leads _))
    (fun name c => Leads.trans ⟨[.aside name c], rfl⟩ (settled_leads _))
    (fun s' id led => led.trans (finish_leads s' id)) c

/-- **Every scenario is a run.** -/
theorem playAll_leads (cs : List Command) (s : Session) : s.Leads (playAll cs s).2 :=
  playAll_keep (fun s' c led => led.trans (play_leads s' c)) cs ⟨[], rfl⟩

end Session

end Scenario

/-! ## What a command does before its job begins -/

/-- A job as a command sets it off: nothing of it has begun, it runs under a scope that was handed
out, and a check that it calls is `known`. -/
inductive Job.Asked (known : Check → Prop) (held : List ScopeId) : Job → Prop
  | call {check : Check} {scope : ScopeId} (handed : scope ∈ held) (is : known check) :
      Asked known held (.call check.name scope (.fresh check))
  | start {slot : Nat} {scope : ScopeId} {rest : List Nat} (handed : scope ∈ held) :
      Asked known held (.refresh slot scope (.start rest) .arriving)
  | force {slot : Nat} {scope : ScopeId} (handed : scope ∈ held) :
      Asked known held (.refresh slot scope .force .arriving)
  | work {scope : ScopeId} {wake : Nat} (handed : scope ∈ held) :
      Asked known held (.work scope wake)
  | watch {scope : ScopeId} {wake : Nat} (handed : scope ∈ held) :
      Asked known held (.watch scope wake)
  | sleep {wake : Nat} : Asked known held (.sleep wake)

namespace Machine

/-- The machine with its forest of scopes replaced. -/
def withScopes (m : Machine) (scopes : Scopes) : Machine :=
  { m with world := { m.world with scopes := scopes } }

/-- **One change that a command makes** to a machine of which these scopes were handed out. -/
inductive Touch (known : Check → Prop) :
    Machine × List ScopeId → Machine × List ScopeId → Prop
  | background (m : Machine) (held : List ScopeId) :
      Touch known (m, held)
        (m.withScopes m.world.scopes.background.2, m.world.scopes.next :: held)
  | derive (m : Machine) {held : List ScopeId} {parent : ScopeId} (deadline : Option Nat)
      (handed : parent ∈ held) :
      Touch known (m, held)
        (m.withScopes (m.world.scopes.derive parent deadline).2, m.world.scopes.next :: held)
  | cancel (m : Machine) {held : List ScopeId} {scope : ScopeId} (handed : scope ∈ held) :
      Touch known (m, held) (m.cancel scope, held)
  | stop (m : Machine) (held : List ScopeId) (slot : Nat) :
      Touch known (m, held) (m.stop slot, held)
  | submit (m : Machine) {held : List ScopeId} {job : Job} (asked : job.Asked known held) :
      Touch known (m, held) ((m.submit job).2, held)
  | abort (m : Machine) (held : List ScopeId) (id : JobId) :
      Touch known (m, held) (m.abort id, held)
  | forget (m : Machine) (held : List ScopeId) :
      Touch known (m, held) ({ m with world := { m.world with events := [] } }, held)

/-- Changes that commands make, one after the other. -/
abbrev Touches (known : Check → Prop) :=
  Relation.ReflTransGen (Touch known)

/-- What every one of these changes keeps, all of them keep. -/
theorem Touches.keep {known : Check → Prop} {I : Machine × List ScopeId → Prop}
    (touch : ∀ {p p'}, Touch known p p' → I p → I p') {p p' : Machine × List ScopeId}
    (touches : Touches known p p') (kept : I p) : I p' := by
  induction touches with
  | refl => exact kept
  | tail _ last ih => exact touch last ih

/-- What a command does not change: the time, how often probes were called, what caches are made of
and what they keep, what debounced checks keep and have hidden, and the turns that are left. -/
structure Kept (m m' : Machine) : Prop where
  now : m'.world.now = m.world.now
  calls : m'.world.calls = m.world.calls
  makes : m'.world.makes = m.world.makes
  states : m'.world.states = m.world.states
  debounces : m'.world.debounces = m.world.debounces
  metrics : m'.world.metrics = m.world.metrics
  grace : m'.world.grace = m.world.grace

theorem Kept.refl (m : Machine) : m.Kept m :=
  ⟨rfl, rfl, rfl, rfl, rfl, rfl, rfl⟩

theorem Kept.trans {m m' m'' : Machine} (first : m.Kept m') (second : m'.Kept m'') : m.Kept m'' :=
  ⟨second.now.trans first.now, second.calls.trans first.calls, second.makes.trans first.makes,
    second.states.trans first.states, second.debounces.trans first.debounces,
    second.metrics.trans first.metrics, second.grace.trans first.grace⟩

theorem stop_kept (m : Machine) (slot : Nat) : m.Kept (m.stop slot) := by
  unfold stop
  split
  · exact ⟨rfl, rfl, World.makes_modifyCache _ slot fun _ => rfl,
      World.states_modifyCache_same _ slot fun _ => rfl, rfl, rfl, rfl⟩
  · exact .refl m

theorem abort_kept (m : Machine) (id : JobId) : m.Kept (m.abort id) := by
  unfold abort
  cases m.jobs.lookup id with
  | none => exact .refl m
  | some job =>
    cases job with
    | refresh slot scope purpose phase =>
      cases phase with
      | arriving => exact ⟨rfl, rfl, rfl, rfl, rfl, rfl, rfl⟩
      | queued | granted | calling =>
        exact ⟨rfl, rfl, World.makes_modifyCache _ slot fun _ => rfl,
          World.states_modifyCache_same _ slot fun _ => rfl, rfl, rfl, rfl⟩
    | _ => exact ⟨rfl, rfl, rfl, rfl, rfl, rfl, rfl⟩

theorem Touch.kept {known : Check → Prop} {p p' : Machine × List ScopeId}
    (touch : Touch known p p') : p.1.Kept p'.1 := by
  cases touch with
  | stop m held slot => exact m.stop_kept slot
  | abort m held id => exact m.abort_kept id
  | _ => exact ⟨rfl, rfl, rfl, rfl, rfl, rfl, rfl⟩

theorem Touches.kept {known : Check → Prop} {p p' : Machine × List ScopeId}
    (touches : Touches known p p') : p.1.Kept p'.1 :=
  touches.keep (I := fun q => p.1.Kept q.1) (fun touch kept => kept.trans touch.kept) (.refl p.1)

end Machine

namespace Scenario

namespace Session

open Machine (Touch Touches)

variable {known : Check → Prop}

/-- What a session knows by name: its scopes were handed out, and its checks are `known`. -/
structure Within (known : Check → Prop) (s : Session) (held : List ScopeId) : Prop where
  shutdown : s.shutdown ∈ held
  scopes : ∀ name id, s.scopes.lookup name = some id → id ∈ held
  root : ∀ c, s.root = some c → known c
  labels : ∀ label c, s.labels.lookup label = some c → known c
  caches : ∀ slot make, s.machine.world.makes[slot]? = some make →
    known (.cached slot make.2 make.1)

/-- A session comes to another by changes that commands make. -/
structure Touched (known : Check → Prop) (s : Session) (held : List ScopeId) (s' : Session)
    (held' : List ScopeId) : Prop where
  touches : Touches known (s.machine, held) (s'.machine, held')
  root : s'.root = s.root
  within : s'.Within known held'

theorem Within.machine {s : Session} {held held' : List ScopeId} (within : s.Within known held)
    {m : Machine} (makes : m.world.makes = s.machine.world.makes) (more : held ⊆ held') :
    ({ s with machine := m } : Session).Within known held' where
  shutdown := more within.shutdown
  scopes name id found := more (within.scopes name id found)
  root := within.root
  labels := within.labels
  caches slot make found := within.caches slot make (makes ▸ found)

/-- A change of the machine alone. -/
theorem Within.touch {s : Session} {held held' : List ScopeId} (within : s.Within known held)
    {m : Machine} (touch : Touch known (s.machine, held) (m, held')) (more : held ⊆ held') :
    s.Touched known held { s with machine := m } held' :=
  ⟨.single touch, rfl, within.machine touch.kept.makes more⟩

theorem Touched.trans {s s' s'' : Session} {held held' held'' : List ScopeId}
    (first : s.Touched known held s' held') (second : s'.Touched known held' s'' held'') :
    s.Touched known held s'' held'' :=
  ⟨first.touches.trans second.touches, second.root.trans first.root, second.within⟩

theorem scopeNamed_touches {s s' : Session} {held : List ScopeId} (within : s.Within known held)
    {name : Option String} {id : ScopeId} (found : s.scopeNamed? name = some (id, s')) :
    ∃ held', s.Touched known held s' held' ∧ id ∈ held' := by
  unfold scopeNamed? at found
  cases name with
  | none =>
    cases found
    exact ⟨_, within.touch (.background _ held) (List.subset_cons_self ..), List.mem_cons_self⟩
  | some name =>
    simp only at found
    cases looked : s.scopes.lookup name with
    | some id' =>
      simp only [looked] at found
      cases found
      exact ⟨held, ⟨.refl, rfl, within⟩, within.scopes name _ looked⟩
    | none =>
      simp only [looked] at found
      split at found
      · cases found
        exact ⟨_, within.touch (.derive _ none within.shutdown) (List.subset_cons_self ..),
          List.mem_cons_self⟩
      · cases found

theorem scope_touches {s s' : Session} {held : List ScopeId} (within : s.Within known held)
    {under : Under} {id : ScopeId} (found : s.scope? under = some (id, s')) :
    ∃ held', s.Touched known held s' held' ∧ id ∈ held' := by
  unfold scope? at found
  cases named : s.scopeNamed? under.name with
  | none => simp [named] at found
  | some p =>
    obtain ⟨parent, s₁⟩ := p
    obtain ⟨held₁, touched, handed⟩ := scopeNamed_touches within named
    simp only [named, Option.bind_eq_bind, Option.bind_some] at found
    cases timed : under.timeout with
    | none =>
      simp only [timed] at found
      cases found
      exact ⟨held₁, touched, handed⟩
    | some ms =>
      simp only [timed] at found
      cases found
      refine ⟨_, touched.trans (touched.within.touch ?_ (List.subset_cons_self ..)),
        List.mem_cons_self⟩
      exact .derive _ (some (s₁.machine.now + ms)) handed

theorem target_known {s : Session} {held : List ScopeId} (within : s.Within known held)
    {target : Target} {check : Check} (found : s.target? target = some check) : known check := by
  cases target with
  | root => exact within.root check found
  | label label => exact within.labels label check found
  | cache slot =>
    obtain ⟨c, cached, rfl⟩ := Option.map_eq_some_iff.mp found
    exact within.caches slot c.make (by simp [World.makes, World.cache?] at cached ⊢; simp [cached])

/-- The job that a command is runs under a scope that was handed out, and nothing of it has
begun. -/
theorem job_touches {s s' : Session} {held : List ScopeId} (within : s.Within known held)
    {c : Command} {job : Job} (is : s.job? c = some (job, s')) :
    ∃ held', s.Touched known held s' held' ∧ job.Asked known held' := by
  -- every command that is a job takes a scope first, and is its job then
  have under {under : Under} {body : ScopeId × Session → Option (Job × Session)}
      (asked : ∀ id s₁ held', s₁.Within known held' → id ∈ held' → body (id, s₁) = some (job, s') →
        s' = s₁ ∧ job.Asked known held')
      (is : (s.scope? under).bind body = some (job, s')) :
      ∃ held', s.Touched known held s' held' ∧ job.Asked known held' := by
    obtain ⟨⟨id, s₁⟩, found, is⟩ := Option.bind_eq_some_iff.mp is
    obtain ⟨held', touched, handed⟩ := scope_touches within found
    obtain ⟨rfl, asked⟩ := asked id s₁ held' touched.within handed is
    exact ⟨held', touched, asked⟩
  cases c with
  | check target u =>
    obtain ⟨check, target, is⟩ := Option.bind_eq_some_iff.mp is
    refine under ?_ is
    intro id s₁ held' _ handed is
    cases is
    exact ⟨rfl, .call handed (target_known within target)⟩
  | start slot u =>
    refine under ?_ is
    intro id s₁ held' _ handed is
    cases is
    exact ⟨rfl, .start handed⟩
  | force slot u =>
    refine under ?_ is
    intro id s₁ held' _ handed is
    cases is
    exact ⟨rfl, .force handed⟩
  | startAll u =>
    refine under ?_ is
    intro id s₁ held' _ handed is
    simp only at is
    split at is
    · cases is
    · cases is
      exact ⟨rfl, .start handed⟩
  | watch u limit =>
    refine under ?_ is
    intro id s₁ held' _ handed is
    cases is
    exact ⟨rfl, .watch handed⟩
  | work u length =>
    refine under ?_ is
    intro id s₁ held' _ handed is
    cases is
    exact ⟨rfl, .work handed⟩
  | advance ms =>
    cases is
    exact ⟨held, ⟨.refl, rfl, within⟩, .sleep⟩
  | _ => cases is

theorem stops_touches (m : Machine) (held : List ScopeId) (slots : List Nat) :
    Touches known (m, held) (slots.foldl Machine.stop m, held) := by
  induction slots generalizing m with
  | nil => exact .refl
  | cons slot rest ih => exact (Relation.ReflTransGen.single (.stop m held slot)).trans (ih _)

/-- A command that is no job makes changes of the same few kinds. -/
theorem instant_touches {s : Session} {held : List ScopeId} (within : s.Within known held)
    (c : Command) : ∃ held', s.Touched known held (s.instant c).2 held' := by
  have same : ∃ held', s.Touched known held s held' := ⟨held, .refl, rfl, within⟩
  cases c with
  | stop slot => exact ⟨held, within.touch (.stop _ held slot) (List.Subset.refl _)⟩
  | stopAll =>
    have touches : Touches known (s.machine, held) _ :=
      stops_touches s.machine held (List.range s.machine.world.caches.length)
    exact ⟨held, touches, rfl,
      within.machine (Machine.Touches.kept touches).makes (List.Subset.refl _)⟩
  | state slot =>
    simp only [instant]
    split <;> exact same
  | derive name source timeout =>
    simp only [instant]
    cases found : s.scopeNamed? source with
    | none => exact same
    | some p =>
      obtain ⟨parent, s₁⟩ := p
      obtain ⟨held₁, touched, handed⟩ := scopeNamed_touches within found
      -- with or without a timeout a scope is derived, and goes by the name from now on
      have named (deadline : Option Nat) :
          ∃ held', s.Touched known held { s₁.withScopes
            (s₁.machine.world.scopes.derive parent deadline).2 with
            scopes := (name, (s₁.machine.world.scopes.derive parent deadline).1) :: s₁.scopes }
            held' := by
        obtain ⟨touches, root, within'⟩ := touched.trans
          (touched.within.touch (.derive _ deadline handed) (List.subset_cons_self ..))
        refine ⟨_, touches, root, { within' with scopes := ?_ }⟩
        intro other id looked
        rw [List.lookup_cons] at looked
        split at looked
        · cases looked
          exact List.mem_cons_self
        · exact within'.scopes other id looked
      cases timeout with
      | none => exact named none
      | some ms => exact named (some (s₁.machine.now + ms))
  | scopeState u =>
    simp only [instant]
    cases found : s.scope? u with
    | none => exact same
    | some p =>
      obtain ⟨held₁, touched, -⟩ := scope_touches within found
      exact ⟨held₁, touched⟩
  | cancel u =>
    simp only [instant]
    cases found : s.scope? u with
    | none => exact same
    | some p =>
      obtain ⟨held₁, touched, handed⟩ := scope_touches within found
      exact ⟨held₁, touched.trans (touched.within.touch (.cancel _ handed) (List.Subset.refl _))⟩
  | trigger =>
    exact ⟨held, within.touch (.cancel _ within.shutdown) (List.Subset.refl _)⟩
  | events => exact ⟨held, within.touch (.forget _ held) (List.Subset.refl _)⟩
  | abort name =>
    simp only [instant]
    split
    · exact ⟨held, within.touch (.abort _ held _) (List.Subset.refl _)⟩
    · exact same
    · exact same
  | _ => exact same

/-- **All that a command does before its job begins** are changes of a few kinds. -/
theorem begin_touches {s : Session} {held : List ScopeId} (within : s.Within known held)
    (c : Command) : ∃ held', s.Touched known held (s.begin c) held' := by
  unfold begin
  cases is : s.job? c with
  | none => exact instant_touches within c
  | some p =>
    obtain ⟨held', touched, asked⟩ := job_touches within is
    exact ⟨held', touched.trans (touched.within.touch (.submit _ asked) (List.Subset.refl _))⟩

/-- A command that is set aside does the same. -/
theorem setAside_touches {s : Session} {held : List ScopeId} (within : s.Within known held)
    (name : String) (c : Command) : ∃ held', s.Touched known held (s.setAside name c).2 held' := by
  unfold setAside
  cases is : s.job? c with
  | none =>
    obtain ⟨held', touches, root, within'⟩ := instant_touches within c
    exact ⟨held', touches, root, { within' with }⟩
  | some p =>
    obtain ⟨held', touched, asked⟩ := job_touches within is
    obtain ⟨touches, root, within'⟩ :=
      touched.trans (touched.within.touch (.submit _ asked) (List.Subset.refl _))
    exact ⟨held', touches, root, { within' with }⟩

/-- What changes of commands, steps of jobs and the passing of time keep, whether a turn is left
then or not, a move keeps. -/
theorem move_keep {I : Machine × List ScopeId → Prop}
    (touch : ∀ {p p'}, Touch known p p' → I p → I p')
    (turn : ∀ m held i, I (m, held) → I (m.takeTurn i, held))
    (rest : ∀ m held ms given, I (m, held) → I ((m.pass ms).withGrace given, held))
    {s : Session} {held : List ScopeId} (within : s.Within known held) (kept : I (s.machine, held))
    (next : Move) :
    ∃ held', (s.move next).Within known held' ∧ I ((s.move next).machine, held') := by
  have touches {s' : Session} (touched : ∃ held', s.Touched known held s' held') :
      ∃ held', s'.Within known held' ∧ I (s'.machine, held') := by
    obtain ⟨held', touches, -, within'⟩ := touched
    exact ⟨held', within', Touches.keep touch touches kept⟩
  cases next with
  | begin c => exact touches (begin_touches within c)
  | aside name c => exact touches (setAside_touches within name c)
  | turn i =>
    exact ⟨held, within.machine (s.machine.takeTurn_later i).makes (List.Subset.refl _),
      turn _ held i kept⟩
  | pass ms =>
    exact ⟨held, within.machine rfl (List.Subset.refl _),
      rest _ held ms s.machine.world.grace kept⟩
  | grace given =>
    exact ⟨held, within.machine rfl (List.Subset.refl _), rest _ held 0 given kept⟩

/-- What a session knows by name stays known. -/
theorem move_within {s : Session} {held : List ScopeId} (within : s.Within known held)
    (next : Move) : ∃ held', (s.move next).Within known held' := by
  obtain ⟨held', within', -⟩ := move_keep (I := fun _ => True) (fun _ _ => trivial)
    (fun _ _ _ _ => trivial) (fun _ _ _ _ _ => trivial) within trivial next
  exact ⟨held', within'⟩

/-- **What changes of commands, steps of jobs and the passing of time keep**, whether a turn is left
then or not, **a run keeps.** -/
theorem moves_keep {I : Machine × List ScopeId → Prop}
    (touch : ∀ {p p'}, Touch known p p' → I p → I p')
    (turn : ∀ m held i, I (m, held) → I (m.takeTurn i, held))
    (rest : ∀ m held ms given, I (m, held) → I ((m.pass ms).withGrace given, held))
    {s : Session} {held : List ScopeId} (within : s.Within known held) (kept : I (s.machine, held))
    (run : List Move) :
    ∃ held', (s.moves run).Within known held' ∧ I ((s.moves run).machine, held') := by
  induction run generalizing s held with
  | nil => exact ⟨held, within, kept⟩
  | cons next later ih =>
    obtain ⟨held', within', kept'⟩ := move_keep touch turn rest within kept next
    exact ih within' kept'

/-- **Caches go on to be made of what they were made of**, in every run. -/
theorem moves_makes {s : Session} {held : List ScopeId} (within : s.Within known held)
    (run : List Move) : (s.moves run).machine.world.makes = s.machine.world.makes := by
  obtain ⟨_, -, same⟩ := moves_keep (I := fun p => p.1.world.makes = s.machine.world.makes)
    (fun touch same => touch.kept.makes.trans same)
    (fun m _ i same => (m.takeTurn_later i).makes.trans same) (fun _ _ _ _ same => same) within rfl
    run
  exact same

end Session

end Scenario

end HealthTree
