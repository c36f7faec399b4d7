import HealthTree.Proofs.Lifetimes
import HealthTree.Proofs.LoopJobs

/-!
# The steps of one job

A job has one number for as long as it goes on, and no other job is ever given that number. So what
a run does with it is a list of steps, each with the machine that it is taken in
(`Session.stepsOf`). Between two of them the job is what the first has left (`move_job`): neither a
command nor the step of another job changes it.
-/

namespace HealthTree

namespace Machine

/-- **What commands do to jobs**: some are dropped and others set off, under numbers that are new. -/
structure Leaves (m m' : Machine) : Prop where
  next : m.world.nextJob ≤ m'.world.nextJob
  old : ∀ p ∈ m'.jobs, p.1 < m.world.nextJob → p ∈ m.jobs

variable {m m' m'' : Machine}

theorem Leaves.trans (first : m.Leaves m') (second : m'.Leaves m'') : m.Leaves m'' := by
  refine ⟨Nat.le_trans first.next second.next, ?_⟩
  intro p mem old
  apply first.old p _ old
  exact second.old p mem (Nat.lt_of_lt_of_le old first.next)

theorem Touch.leaves {known : Check → Prop} {p p' : Machine × List ScopeId}
    (touch : Touch known p p') : p.1.Leaves p'.1 := by
  cases touch with
  | @submit m held job asked =>
    refine ⟨Nat.le_succ _, ?_⟩
    intro q mem old
    rcases List.mem_append.mp mem with there | new
    · exact there
    · cases List.mem_singleton.mp new
      exact absurd old (Nat.lt_irrefl _)
  | stop m held slot =>
    obtain ⟨jobs, next⟩ := m.stop_jobs slot
    exact ⟨Nat.le_of_eq next.symm, fun q mem _ => jobs ▸ mem⟩
  | abort m held id =>
    obtain ⟨fewer, next, -⟩ := m.abort_jobs id
    exact ⟨Nat.le_of_eq next.symm, fun q mem _ => fewer mem⟩
  | background | derive | cancel | forget => exact ⟨Nat.le_refl _, fun _ mem _ => mem⟩

theorem Touches.leaves {known : Check → Prop} {p p' : Machine × List ScopeId}
    (touches : Touches known p p') : p.1.Leaves p'.1 :=
  touches.keep (I := fun q => p.1.Leaves q.1) (fun touch leaves => leaves.trans touch.leaves)
    ⟨Nat.le_refl _, fun _ mem _ => mem⟩

end Machine

namespace Scenario.Session

/-- The step that a move is of the job of this number: the machine it is taken in, and the job. -/
def stepOf? (id : JobId) (s : Session) : Move → Option (Machine × Job)
  | .turn i => ((s.machine.jobs[i]?).filter (·.1 == id)).map fun p => (s.machine, p.2)
  | .begin _ | .aside _ _ | .pass _ | .grace _ => none

/-- **The steps that a run takes of the job of this number**, in their order. -/
def stepsOf (id : JobId) : Session → List Move → List (Machine × Job)
  | _, [] => []
  | s, next :: rest => (s.stepOf? id next).toList ++ stepsOf id (s.move next) rest

variable {known : Check → Prop} {s : Session} {held : List ScopeId} {id : JobId}

theorem stepsOf_append (s : Session) (id : JobId) (run later : List Move) :
    s.stepsOf id (run ++ later) = s.stepsOf id run ++ (s.moves run).stepsOf id later := by
  induction run generalizing s with
  | nil => rfl
  | cons next rest ih =>
    simp only [List.cons_append, stepsOf, ih, List.append_assoc]
    rfl

/-- A step is taken by the job of the number, in the machine as it is then. -/
theorem stepOf?_eq_some {next : Move} {p : Machine × Job} (step : s.stepOf? id next = some p) :
    p.1 = s.machine ∧ (id, p.2) ∈ s.machine.jobs := by
  cases next with
  | begin | aside | pass | grace => cases step
  | turn i =>
    obtain ⟨q, its, rfl⟩ := Option.map_eq_some_iff.mp step
    obtain ⟨found, same⟩ := Option.filter_eq_some_iff.mp its
    cases beq_iff_eq.mp same
    exact ⟨rfl, List.mem_of_getElem? found⟩

/-- **Each step of a job is taken at some point of the run**, in the machine as it is there. -/
theorem mem_stepsOf {p : Machine × Job} {run : List Move} (mem : p ∈ s.stepsOf id run) :
    ∃ first rest, run = first ++ rest ∧ p.1 = (s.moves first).machine ∧ (id, p.2) ∈ p.1.jobs := by
  induction run generalizing s with
  | nil => cases mem
  | cons next rest ih =>
    rcases List.mem_append.mp mem with here | later
    · obtain ⟨same, there⟩ := stepOf?_eq_some (Option.mem_toList.mp here)
      exact ⟨[], next :: rest, rfl, same, same ▸ there⟩
    · obtain ⟨first, rest', split, same, there⟩ := ih later
      exact ⟨next :: first, rest', by rw [split]; rfl, same, there⟩

/-- **What a job is after a move**: what it was before, or if the move is a step of it, what the step
has left. -/
theorem move_job (within : s.Within known held) (locked : s.machine.Locked) {next : Move} {job : Job}
    (old : id < s.machine.world.nextJob) (mem : (id, job) ∈ (s.move next).machine.jobs) :
    s.stepOf? id next = none ∧ (id, job) ∈ s.machine.jobs ∨
      ∃ job', s.stepOf? id next = some (s.machine, job') ∧ (id, job') ∈ s.machine.jobs ∧
        (job'.step id s.machine.world).1 = .going job ∧
        (s.move next).machine.world = (job'.step id s.machine.world).2.2 := by
  have touches {s' : Session} (touched : ∃ held', s.Touched known held s' held')
      (mem : (id, job) ∈ s'.machine.jobs) : (id, job) ∈ s.machine.jobs := by
    obtain ⟨held', touched⟩ := touched
    exact (Machine.Touches.leaves touched.touches).old _ mem old
  cases next with
  | begin c => exact .inl ⟨rfl, touches (begin_touches within c) mem⟩
  | aside name c => exact .inl ⟨rfl, touches (setAside_touches within name c) mem⟩
  | pass | grace => exact .inl ⟨rfl, mem⟩
  | turn i =>
    rcases Machine.mem_takeTurn mem with beside | ⟨q, found, ⟨rfl, going⟩ | spawned⟩
    · refine .inl ⟨?_, List.mem_of_mem_eraseIdx beside⟩
      simp only [stepOf?]
      cases found : s.machine.jobs[i]? with
      | none => rfl
      | some q =>
        -- no other job has the number of the one that takes the step
        have apart : ¬ q.1 = id := by
          intro same
          apply locked.beside found
          rw [same]
          exact List.mem_map_of_mem beside
        simp [Option.filter, apart]
    · refine .inr ⟨q.2, ?_, List.mem_of_getElem? found, going, ?_⟩
      · simp only [stepOf?, found, Option.filter_some, beq_self_eq_true, if_true, Option.map_some]
      · simp only [move, Machine.takeTurn, found]
    · have numbers := Job.step_numbered q.1 s.machine.world q.2
      unfold Numbered at numbers
      rw [spawned] at numbers
      have new : id = s.machine.world.nextJob := numbers.1
      exact absurd old (Nat.not_lt.mpr (Nat.le_of_eq new.symm))

/-- Numbers of jobs are used up in their order, in every run. -/
theorem moves_nextJob (within : s.Within known held) (run : List Move) :
    s.machine.world.nextJob ≤ (s.moves run).machine.world.nextJob := by
  obtain ⟨_, -, more⟩ := moves_keep
    (I := fun p => s.machine.world.nextJob ≤ p.1.world.nextJob)
    (fun touch more => Nat.le_trans more touch.leaves.next)
    (fun m _ i more => Nat.le_trans more (m.takeTurn_nextJob i)) (fun _ _ _ _ more => more) within
    (Nat.le_refl _) run
  exact more

end Scenario.Session

end HealthTree
