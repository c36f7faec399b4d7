import HealthTree.Proofs.Crossings
import HealthTree.Proofs.Debouncing
import HealthTree.Proofs.LoopJobs
import HealthTree.Proofs.Parts
import Mathlib.Data.List.Flatten

/-!
# What jobs have under way

The pieces that a call has still before it belong to the job that makes the call, from the step in
which it opens them (`Job.opens`) to the one in which it finishes them. Here they are counted over a
whole run: its steps are listed with the jobs that take them (`Session.steps`), and for any of the
jobs what they have finished and what they have under way is no more than what they had under way
before and what they have opened since (`moves_parts`). So a piece is finished by the job that has
opened it, and one that no job has under way is never finished.

The count of the calls that probes have completed is the count of the pieces that were finished
(`moves_completed`).
-/

namespace HealthTree

/-! ## Steps of jobs -/

namespace Flight

/-- The pieces of a call that has begun. -/
def underway : Flight → List Part
  | fresh _ => []
  | flight => flight.left

theorem underway_of_begun (f : Flight) (begun : f.begun = true) : f.underway = f.left := by
  cases f with
  | fresh => cases begun
  | pausing | gathering | debouncing => rfl

/-- The pieces that the next step of a call opens: all of them, if it is the first. -/
def opens : Flight → List Part
  | fresh check => check.parts
  | pausing _ _ _ _ | gathering _ _ _ _ | debouncing _ _ _ _ => []

theorem count_left (f : Flight) (x : Part) :
    f.left.count x = f.underway.count x + f.opens.count x := by
  cases f with
  | fresh => exact (Nat.zero_add _).symm
  | pausing | gathering | debouncing => rfl

end Flight

namespace Job

/-- **The pieces that a job has under way.** -/
def underway (job : Job) : List Part :=
  (job.flight?.map Flight.underway).getD []

/-- **The pieces that a step of a job opens.** -/
def opens (id : JobId) (w : World) (job : Job) : List Part :=
  match job.inside id w with
  | some (_, flight, _) => flight.opens
  | none => []

theorem underway_eq {job : Job} {flight : Flight} (flies : job.flight? = some flight) :
    job.underway = flight.underway := by
  rw [underway, flies]
  rfl

theorem underway_none {job : Job} (grounded : job.flight? = none) : job.underway = [] := by
  rw [underway, grounded]
  rfl

end Job

/-- What a job has under way after a step. -/
def JobTurn.underway : JobTurn → List Part
  | .going job => job.underway
  | .finished _ | .gone => []

namespace Job

variable {id : JobId} {w : World} {job : Job}

/-- A step that goes on with no call leaves none. -/
theorem underway_of_idle (idle : job.inside id w = none) : (job.step id w).1.underway = [] := by
  cases turn : (job.step id w).1 with
  | finished | gone => rfl
  | going next =>
    cases flies : next.flight? with
    | none => exact underway_none flies
    | some flight' =>
      obtain ⟨_, _, _, inside, -⟩ := step_flight turn flies
      cases idle.symm.trans inside

/-- What a step leaves under way is what is left of the call that it goes on with. -/
theorem underway_le_left {scope : ScopeId} {flight : Flight} {w₁ : World}
    (inside : job.inside id w = some (scope, flight, w₁)) (x : Part) :
    (job.step id w).1.underway.count x ≤ (flight.step scope w₁).1.left.count x := by
  cases turn : (job.step id w).1 with
  | finished | gone => exact Nat.zero_le _
  | going next =>
    cases flies : next.flight? with
    | none =>
      have none := underway_none flies
      simp [JobTurn.underway, none]
    | some flight' =>
      obtain ⟨_, _, _, inside', still⟩ := step_flight turn flies
      cases inside.symm.trans inside'
      have split := flight'.count_left x
      simp only [JobTurn.underway, underway_eq flies, still, Turn.left]
      omega

/-- The call that a step goes on with is under way, or opened. -/
theorem left_le_underway {scope : ScopeId} {flight : Flight} {w₁ : World}
    (inside : job.inside id w = some (scope, flight, w₁)) (x : Part) :
    flight.left.count x ≤ job.underway.count x + (job.opens id w).count x := by
  have split := flight.count_left x
  simp only [opens, inside]
  rcases inside_call inside with flies | ⟨_, _, -, rfl⟩
  · rw [underway_eq flies]
    exact Nat.le_of_eq split
  · exact Nat.le_add_left _ _

/-- **What a step of a job finishes and what it leaves under way**, the job had under way before or
opens with it. -/
theorem step_parts (id : JobId) (w : World) (job : Job) (x : Part) :
    (finishedBy (job.deeds id w)).count x + (job.step id w).1.underway.count x ≤
      job.underway.count x + (job.opens id w).count x := by
  cases inside : job.inside id w with
  | none =>
    rw [underway_of_idle inside, deeds, inside]
    exact Nat.zero_le _
  | some p =>
    obtain ⟨scope, flight, w₁⟩ := p
    have before := left_le_underway inside x
    have after := underway_le_left inside x
    have call := flight.step_parts scope w₁ x
    simp only [deeds, inside] at before ⊢
    omega

/-- A job that a step sets off has nothing under way. -/
theorem underway_of_spawned {p : JobId × Job} (spawned : (job.step id w).2.1 = some p) :
    p.2.underway = [] := by
  obtain ⟨new, next⟩ := p
  rcases step_spawned spawned with ⟨_, _, rfl, -⟩ | ⟨_, _, -, rfl⟩ <;> rfl

end Job

/-- What those of these jobs have under way that are asked for. -/
def underwayOf (who : JobId → Bool) (jobs : List (JobId × Job)) : List Part :=
  (jobs.filter fun p => who p.1).flatMap fun p => p.2.underway

section

variable {who : JobId → Bool} {jobs more : List (JobId × Job)}

theorem underwayOf_append :
    underwayOf who (jobs ++ more) = underwayOf who jobs ++ underwayOf who more := by
  rw [underwayOf, List.filter_append, List.flatMap_append]
  rfl

theorem underwayOf_singleton (p : JobId × Job) :
    underwayOf who [p] = if who p.1 then p.2.underway else [] := by
  by_cases asked : who p.1 <;> simp [underwayOf, asked]

theorem mem_underwayOf {x : Part} :
    x ∈ underwayOf who jobs ↔ ∃ p, (p ∈ jobs ∧ who p.1) ∧ x ∈ p.2.underway := by
  simp only [underwayOf, List.mem_flatMap, List.mem_filter]

theorem underwayOf_eq_nil :
    underwayOf who jobs = [] ↔ ∀ p ∈ jobs, who p.1 → p.2.underway = [] := by
  simp only [underwayOf, List.flatMap_eq_nil_iff, List.mem_filter, and_imp]

theorem count_underwayOf_le {x : Part} {p : JobId × Job} (mem : p ∈ jobs) (asked : who p.1) :
    p.2.underway.count x ≤ (underwayOf who jobs).count x := by
  refine List.Sublist.count_le x ?_
  exact List.sublist_flatten_of_mem (List.mem_map_of_mem (List.mem_filter.mpr ⟨mem, asked⟩))

end

namespace Machine

variable {m : Machine} {i : Nat} {id : JobId} {job : Job}

/-- **A step of a job**: what these jobs finish with it and have under way after it. -/
theorem takeTurn_parts (found : m.jobs[i]? = some (id, job)) (who : JobId → Bool) (x : Part) :
    (if who id then (finishedBy (job.deeds id m.world)).count x else 0) +
        (underwayOf who (m.takeTurn i).jobs).count x ≤
      (underwayOf who m.jobs).count x +
        if who id then (job.opens id m.world).count x else 0 := by
  have step := job.step_parts id m.world x
  have beside : (underwayOf who m.jobs).count x =
      (if who id then job.underway.count x else 0) +
        (underwayOf who (m.jobs.eraseIdx i)).count x := by
    have perm := ((beside_perm found).filter fun p => who p.1).flatMap_right fun p => p.2.underway
    rw [underwayOf, ← perm.count_eq, ← underwayOf, ← List.singleton_append, underwayOf_append,
      underwayOf_singleton, List.count_append]
    split <;> rfl
  have spawned : underwayOf who (job.step id m.world).2.1.toList = [] :=
    underwayOf_eq_nil.mpr fun p mem _ => Job.underway_of_spawned (Option.mem_toList.mp mem)
  have left : (underwayOf who ((job.step id m.world).1.left id)).count x =
      if who id then (job.step id m.world).1.underway.count x else 0 := by
    cases (job.step id m.world).1 with
    | going next =>
      rw [JobTurn.left, underwayOf_singleton]
      split <;> rfl
    | finished | gone => split <;> rfl
  simp only [takeTurn, found, underwayOf_append, List.count_append, left, spawned, beside,
    List.count_nil]
  split <;> omega

/-- A command sets off jobs that have nothing under way. -/
theorem Touch.parts {known : Check → Prop} {p p' : Machine × List ScopeId}
    (touch : Touch known p p') (who : JobId → Bool) (x : Part) :
    (underwayOf who p'.1.jobs).count x ≤ (underwayOf who p.1.jobs).count x := by
  cases touch with
  | stop m held slot => exact Nat.le_of_eq (by rw [(m.stop_jobs slot).1])
  | abort m held id =>
    unfold Machine.abort
    split
    · exact ((List.filter_sublist.filter _).flatMap _).count_le x
    · exact Nat.le_refl _
  | @submit m held job asked =>
    have none : job.underway = [] := by cases asked <;> rfl
    simp only [Machine.submit, underwayOf_append, underwayOf_singleton, none, ite_self,
      List.append_nil]
    exact Nat.le_refl _
  | background | derive | cancel | forget => exact Nat.le_refl _

theorem Touches.parts {known : Check → Prop} {p p' : Machine × List ScopeId}
    (touches : Touches known p p') (who : JobId → Bool) (x : Part) :
    (underwayOf who p'.1.jobs).count x ≤ (underwayOf who p.1.jobs).count x :=
  touches.keep (I := fun q => (underwayOf who q.1.jobs).count x ≤ (underwayOf who p.1.jobs).count x)
    (fun touch le => Nat.le_trans (touch.parts who x) le) (Nat.le_refl _)

end Machine

/-! ## Steps of a run -/

/-- A step: the job that takes it, and the world it is taken in. -/
structure JobStep where
  id : JobId
  job : Job
  world : World

namespace JobStep

/-- The pieces that a step finishes. -/
def finished (st : JobStep) : List Part :=
  finishedBy (st.job.deeds st.id st.world)

/-- The pieces that a step opens. -/
def opened (st : JobStep) : List Part :=
  st.job.opens st.id st.world

/-- What debounced checks see in a step. -/
def observations (st : JobStep) : List Observation :=
  st.job.observations st.id st.world

end JobStep

namespace Scenario.Session

/-- The step that a move is. -/
def step? (s : Session) : Move → Option JobStep
  | .turn i => (s.machine.jobs[i]?).map fun p => ⟨p.1, p.2, s.machine.world⟩
  | .begin _ | .aside _ _ | .pass _ | .grace _ => none

/-- **The steps of a run**, in their order. -/
def steps : Session → List Move → List JobStep
  | _, [] => []
  | s, next :: rest => (s.step? next).toList ++ steps (s.move next) rest

/-- The steps of a run that these jobs take. -/
def stepsBy (who : JobId → Bool) (s : Session) (run : List Move) : List JobStep :=
  (s.steps run).filter (who ·.id)

theorem steps_append (s : Session) (run later : List Move) :
    s.steps (run ++ later) = s.steps run ++ (s.moves run).steps later := by
  induction run generalizing s with
  | nil => rfl
  | cons next rest ih =>
    simp only [List.cons_append, steps, ih, List.append_assoc]
    rfl

/-- What is observed in a run is observed in its steps. -/
theorem observations_eq (s : Session) (run : List Move) :
    s.observations run = (s.steps run).flatMap JobStep.observations := by
  have here (s : Session) (next : Move) :
      s.observed next = (s.step? next).toList.flatMap JobStep.observations := by
    cases next with
    | begin | aside | pass | grace => rfl
    | turn i =>
      simp only [observed, step?]
      cases s.machine.jobs[i]? with
      | none => rfl
      | some p => exact (List.append_nil _).symm
  induction run generalizing s with
  | nil => rfl
  | cons next rest ih =>
    rw [observations, steps, List.flatMap_append, ih, here]

variable {known : Check → Prop} {s : Session} {held : List ScopeId}

theorem move_parts (within : s.Within known held) (next : Move) (who : JobId → Bool) (x : Part) :
    (((s.step? next).toList.filter (who ·.id)).flatMap JobStep.finished).count x +
        (underwayOf who (s.move next).machine.jobs).count x ≤
      (underwayOf who s.machine.jobs).count x +
        (((s.step? next).toList.filter (who ·.id)).flatMap JobStep.opened).count x := by
  have touches {s' : Session} (touched : ∃ held', s.Touched known held s' held') :
      0 + (underwayOf who s'.machine.jobs).count x ≤
        (underwayOf who s.machine.jobs).count x + 0 := by
    obtain ⟨held', touched⟩ := touched
    rw [Nat.zero_add]
    exact Machine.Touches.parts touched.touches who x
  cases next with
  | begin c => exact touches (begin_touches within c)
  | aside name c => exact touches (setAside_touches within name c)
  | pass | grace => exact Nat.le_of_eq (Nat.zero_add _)
  | turn i =>
    simp only [step?, move]
    cases found : s.machine.jobs[i]? with
    | none =>
      simp only [Machine.takeTurn, found]
      exact Nat.le_of_eq (Nat.zero_add _)
    | some p =>
      have parts := Machine.takeTurn_parts found who x
      by_cases asked : who p.1
      · simpa [asked, JobStep.finished, JobStep.opened] using parts
      · simpa [asked] using parts

/-- **What these jobs finish in a run and have under way after it**, they had under way before it or
have opened in it. -/
theorem moves_parts (within : s.Within known held) (run : List Move) (who : JobId → Bool)
    (x : Part) :
    ((s.stepsBy who run).flatMap JobStep.finished).count x +
        (underwayOf who (s.moves run).machine.jobs).count x ≤
      (underwayOf who s.machine.jobs).count x +
        ((s.stepsBy who run).flatMap JobStep.opened).count x := by
  induction run generalizing s held with
  | nil => exact Nat.le_of_eq (Nat.zero_add _)
  | cons next rest ih =>
    obtain ⟨held', within'⟩ := move_within within next
    have here := move_parts within next who x
    have later := ih within'
    simp only [stepsBy, steps, List.filter_append, List.flatMap_append, List.count_append]
      at later ⊢
    simp only [moves, List.foldl_cons] at later ⊢
    omega

end Scenario.Session

/-! ## Calls that are counted -/

/-- The probes whose calls come to their end are the pieces of this kind that are finished. -/
theorem count_crossings_finish (deeds : List Deed) (id : String) :
    (crossings .finish deeds).count id = (finishedBy deeds).count (.probe id) := by
  induction deeds with
  | nil => rfl
  | cons d rest ih =>
    rw [← List.singleton_append, crossings_append, finishedBy_append, List.count_append,
      List.count_append, ih]
    congr 1
    cases d with
    | observe | tell | startCall => rfl
    | completeCall there =>
      by_cases same : there = id <;>
        simp [crossings, finishedBy, Deed.crosses?, Deed.finishes?, same]

theorem Job.step_completed (id : JobId) (w : World) (job : Job) (p : String) :
    ((job.step id w).2.2.callsOf p).completed =
      (w.callsOf p).completed + (finishedBy (job.deeds id w)).count (.probe p) := by
  rw [← count_crossings_finish]
  exact job.step_crossings .finish id w p

namespace Scenario.Session

variable {known : Check → Prop} {s : Session} {held : List ScopeId}

/-- **Calls are counted as complete as pieces are finished.** -/
theorem moves_completed (within : s.Within known held) (run : List Move) (p : String) :
    ((s.moves run).machine.world.callsOf p).completed =
      (s.machine.world.callsOf p).completed +
        ((s.steps run).flatMap JobStep.finished).count (.probe p) := by
  have touches {s s' : Session} {held : List ScopeId}
      (touched : ∃ held', s.Touched known held s' held') :
      s'.machine.world.callsOf p = s.machine.world.callsOf p := by
    obtain ⟨held', touched⟩ := touched
    rw [World.callsOf, (Machine.Touches.kept touched.touches).calls]
    rfl
  have here {s : Session} {held : List ScopeId} (within : s.Within known held) (next : Move) :
      ((s.move next).machine.world.callsOf p).completed = (s.machine.world.callsOf p).completed +
        ((s.step? next).toList.flatMap JobStep.finished).count (.probe p) := by
    cases next with
    | begin c => exact congrArg Calls.completed (touches (begin_touches within c))
    | aside name c => exact congrArg Calls.completed (touches (setAside_touches within name c))
    | pass | grace => rfl
    | turn i =>
      simp only [step?, move, Machine.takeTurn]
      cases s.machine.jobs[i]? with
      | none => rfl
      | some q => simpa [JobStep.finished] using q.2.step_completed q.1 s.machine.world p
  induction run generalizing s held with
  | nil => rfl
  | cons next rest ih =>
    obtain ⟨held', within'⟩ := move_within within next
    have later := ih within'
    rw [here within next] at later
    simp only [steps, List.flatMap_append, List.count_append]
    simp only [moves, List.foldl_cons] at later ⊢
    omega

end Scenario.Session

end HealthTree
