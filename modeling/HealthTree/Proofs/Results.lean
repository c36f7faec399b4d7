import HealthTree.Proofs.Steps

/-!
# What jobs come to

What a job comes to is entered under its number: with the last of its steps, or as aborted when it is
dropped. Numbers are not given twice, so nothing is entered for a job that is going on
(`Machine.Booked`), and what was entered stands (`Machine.Books.result`). A move leaves a job as it
is, takes a step of it or drops it, and if it is over then, what it has come to is entered at that
instant (`Session.move_fate`).
-/

namespace HealthTree

namespace Machine

/-- **Nothing is entered for a job that is going on**, or that is still to be set off. -/
def Booked (m : Machine) : Prop :=
  ∀ q ∈ m.finished, q.1 < m.world.nextJob ∧ q.1 ∉ m.jobs.map Prod.fst

/-- **A change of a machine enters what jobs have come to**: those that are over by it, and no
other. -/
structure Books (m m' : Machine) : Prop where
  next : m.world.nextJob ≤ m'.world.nextJob
  old : ∀ id ∈ m'.jobs.map Prod.fst, id < m.world.nextJob → id ∈ m.jobs.map Prod.fst
  entered : ∃ new, m'.finished = new ++ m.finished ∧
    ∀ q ∈ new, q.1 ∈ m.jobs.map Prod.fst ∧ q.1 ∉ m'.jobs.map Prod.fst

/-- What a change of a machine makes of a job that is going on and is not dropped. -/
inductive Fate (m m' : Machine) (id : JobId) (job : Job) : Prop
  /-- It is left as it is. -/
  | left (mem : (id, job) ∈ m'.jobs)
  /-- It takes a step and goes on. -/
  | goesOn {next : Job} (now : m'.now = m.now) (step : (job.step id m.world).1 = .going next)
      (mem : (id, next) ∈ m'.jobs)
  /-- It takes its last step. -/
  | ends {r : Reply} (now : m'.now = m.now) (step : (job.step id m.world).1 = .finished r)
      (entered : m'.result? id = some (m.now, r))
  /-- It takes its last step, and nobody waits for it. -/
  | leaves (step : (job.step id m.world).1 = .gone)

variable {m m' : Machine} {id : JobId} {job : Job} {r : Nat × Reply}

theorem mem_of_result (entered : m.result? id = some r) : (id, r) ∈ m.finished := by
  obtain ⟨before, after, split, -⟩ := List.lookup_eq_some_iff.mp entered
  rw [split]
  exact List.mem_append_right _ List.mem_cons_self

/-- A job that is going on has come to nothing yet. -/
theorem Booked.unfinished (booked : m.Booked) (mem : (id, job) ∈ m.jobs) : m.result? id = none := by
  cases entered : m.result? id with
  | none => rfl
  | some r => exact absurd (List.mem_map_of_mem mem) (booked _ (mem_of_result entered)).2

/-- **What was entered stands.** -/
theorem Books.result (books : m.Books m') (booked : m.Booked) (entered : m.result? id = some r) :
    m'.result? id = some r := by
  obtain ⟨new, same, gone⟩ := books.entered
  have other : new.lookup id = none := by
    rw [List.lookup_eq_none_iff]
    intro q mem
    rw [bne_iff_ne]
    rintro rfl
    exact (booked _ (mem_of_result entered)).2 (gone q mem).1
  unfold result? at entered ⊢
  rw [same, List.lookup_append, other, entered]
  rfl

theorem Booked.books (booked : m.Booked) (locked : m.Locked) (books : m.Books m') : m'.Booked := by
  obtain ⟨new, same, gone⟩ := books.entered
  intro q mem
  rw [same] at mem
  rcases List.mem_append.mp mem with entered | before
  · obtain ⟨going, away⟩ := gone q entered
    obtain ⟨p, there, number⟩ := List.mem_map.mp going
    exact ⟨Nat.lt_of_lt_of_le (number ▸ locked.numbered p there) books.next, away⟩
  · obtain ⟨used, away⟩ := booked q before
    refine ⟨Nat.lt_of_lt_of_le used books.next, ?_⟩
    intro again
    exact away (books.old _ again used)

/-! ## Steps of jobs -/

theorem takeTurn_books (locked : m.Locked) (i : Nat) : m.Books (m.takeTurn i) := by
  have next := m.takeTurn_nextJob i
  unfold takeTurn at next ⊢
  cases found : m.jobs[i]? with
  | none => exact ⟨Nat.le_refl _, fun _ mem _ => mem, [], rfl, nofun⟩
  | some p =>
    obtain ⟨number, its⟩ := p
    have mem := List.mem_of_getElem? found
    have numbers := its.step_numbered number m.world
    simp only [found] at next
    rcases stepped : its.step number m.world with ⟨turn, spawned, w⟩
    simp only [stepped] at next numbers ⊢
    have beside : number ∉ (m.jobs.eraseIdx i).map Prod.fst := locked.beside found
    refine ⟨next, ?_, turn.result number w.now, rfl, ?_⟩
    · intro id there old
      rw [List.map_append, List.map_append, List.mem_append, List.mem_append] at there
      rcases there with other | own | new
      · exact ((List.eraseIdx_sublist ..).map Prod.fst).subset other
      · cases turn with
        | going next =>
          have same : id = number := List.mem_singleton.mp own
          rw [same]
          exact List.mem_map_of_mem mem
        | finished | gone => cases own
      · exact absurd new (numbers.apart old).1
    · intro q entered
      cases turn with
      | going | gone => cases entered
      | finished r =>
        cases List.mem_singleton.mp entered
        refine ⟨List.mem_map_of_mem mem, ?_⟩
        rw [JobTurn.left, List.nil_append, List.map_append, List.mem_append, not_or]
        exact ⟨beside, (numbers.apart (locked.numbered _ mem)).1⟩

/-- A step of a job leaves every other as it is. -/
theorem takeTurn_fate (mem : (id, job) ∈ m.jobs) (i : Nat) : m.Fate (m.takeTurn i) id job := by
  have now := (m.takeTurn_later i).now
  cases found : m.jobs[i]? with
  | none =>
    apply Fate.left
    unfold takeTurn
    rw [found]
    exact mem
  | some p =>
    obtain ⟨number, its⟩ := p
    rcases List.mem_cons.mp ((beside_perm found).mem_iff.mpr mem) with own | other
    · cases own
      cases turn : (job.step id m.world).1 with
      | going next =>
        apply Fate.goesOn now turn
        unfold takeTurn
        simp only [found, turn]
        exact List.mem_append_right _ List.mem_cons_self
      | finished r =>
        apply Fate.ends now turn
        have entered : (m.takeTurn i).finished =
            (id, (job.step id m.world).2.2.now, r) :: m.finished := by
          unfold takeTurn
          simp only [found, turn]
          rfl
        rw [result?, entered, List.lookup_cons_self, (job.step_later id m.world).now]
        rfl
      | gone => exact .leaves turn
    · apply Fate.left
      unfold takeTurn
      rw [found]
      exact List.mem_append_left _ other

/-! ## Commands -/

/-- The list of results is left alone. -/
theorem Leaves.books (leaves : m.Leaves m') (same : m'.finished = m.finished) : m.Books m' := by
  refine ⟨leaves.next, ?_, [], same, nofun⟩
  intro id mem old
  obtain ⟨p, there, rfl⟩ := List.mem_map.mp mem
  exact List.mem_map_of_mem (leaves.old p there old)

theorem stop_books (m : Machine) (slot : Nat) : m.Books (m.stop slot) := by
  obtain ⟨jobs, next⟩ := m.stop_jobs slot
  have same : (m.stop slot).finished = m.finished := by
    unfold stop
    split <;> rfl
  exact Leaves.books ⟨Nat.le_of_eq next.symm, fun _ mem _ => jobs ▸ mem⟩ same

/-- The job that is dropped is entered. -/
theorem abort_books (m : Machine) (number : JobId) : m.Books (m.abort number) := by
  unfold abort
  cases found : m.jobs.lookup number with
  | none => exact ⟨Nat.le_refl _, fun _ mem _ => mem, [], rfl, nofun⟩
  | some its =>
    obtain ⟨before, after, split, -⟩ := List.lookup_eq_some_iff.mp found
    have there : (number, its) ∈ m.jobs := by simp [split]
    refine ⟨Nat.le_of_eq (Job.drop_nextJob ..).symm, ?_, [(number, m.now, .aborted)], rfl, ?_⟩
    · intro id mem _
      exact ((List.filter_sublist (l := m.jobs)).map Prod.fst).subset mem
    · intro q entered
      cases List.mem_singleton.mp entered
      exact ⟨List.mem_map_of_mem there, by simp⟩

theorem Touch.books {known : Check → Prop} {p p' : Machine × List ScopeId}
    (touch : Touch known p p') : p.1.Books p'.1 := by
  have leaves := touch.leaves
  cases touch with
  | background | derive | cancel | submit | forget => exact leaves.books rfl
  | stop m held slot => exact m.stop_books slot
  | abort m held number => exact m.abort_books number

theorem abort_spares (number : JobId) (mem : (id, job) ∈ m.jobs) :
    (id, job) ∈ (m.abort number).jobs ∨ (m.abort number).result? id = some (m.now, .aborted) := by
  unfold abort
  cases found : m.jobs.lookup number with
  | none => exact .inl mem
  | some its =>
    by_cases same : id = number
    · subst same
      exact .inr List.lookup_cons_self
    · exact .inl (List.mem_filter.mpr ⟨mem, bne_iff_ne.mpr same⟩)

/-- A command leaves a job as it is, or drops it. -/
theorem Touch.spared {known : Check → Prop} {p p' : Machine × List ScopeId}
    (touch : Touch known p p') (mem : (id, job) ∈ p.1.jobs) :
    (id, job) ∈ p'.1.jobs ∨ p'.1.result? id = some (p.1.now, .aborted) := by
  cases touch with
  | background | derive | cancel | forget => exact .inl mem
  | submit => exact .inl (List.mem_append_left _ mem)
  | stop m held slot => exact .inl ((m.stop_jobs slot).1 ▸ mem)
  | abort m held number => exact abort_spares number mem

end Machine

namespace Scenario.Session

open Machine (Touch)

variable {known : Check → Prop} {s s' : Session} {held held' : List ScopeId} {id : JobId} {job : Job}

/-- **What is kept where results are only entered, a run keeps**, and all the time nothing is entered
for a job that is going on. -/
theorem moves_book {I : Machine → Prop}
    (keep : ∀ {m m' : Machine}, m.Booked → m.Books m' → I m → I m')
    (within : s.Within known held) (locked : s.machine.Locked) (booked : s.machine.Booked)
    (kept : I s.machine) (run : List Move) :
    (s.moves run).machine.Booked ∧ I (s.moves run).machine := by
  obtain ⟨_, -, -, booked', kept'⟩ := moves_keep
    (I := fun p => p.1.Locked ∧ p.1.Booked ∧ I p.1)
    (fun touch ⟨locked, booked, kept⟩ => ⟨locked.touch touch, booked.books locked touch.books,
      keep booked touch.books kept⟩)
    (fun _ _ i ⟨locked, booked, kept⟩ =>
      have books := Machine.takeTurn_books locked i
      ⟨locked.takeTurn i, booked.books locked books, keep booked books kept⟩)
    (fun m _ ms given ⟨locked, booked, kept⟩ =>
      have books : m.Books ((m.pass ms).withGrace given) :=
        ⟨Nat.le_refl _, fun _ mem _ => mem, [], rfl, nofun⟩
      ⟨locked.of_world rfl rfl, booked.books locked books, keep booked books kept⟩)
    within ⟨locked, booked, kept⟩ run
  exact ⟨booked', kept'⟩

/-- In every run nothing is entered for a job that is going on. -/
theorem moves_booked (within : s.Within known held) (locked : s.machine.Locked)
    (booked : s.machine.Booked) (run : List Move) : (s.moves run).machine.Booked :=
  (moves_book (I := fun _ => True) (fun _ _ _ => trivial) within locked booked trivial run).1

/-- **What was entered stands**, in every run. -/
theorem moves_result (within : s.Within known held) (locked : s.machine.Locked)
    (booked : s.machine.Booked) {r : Nat × Reply} (entered : s.machine.result? id = some r)
    (run : List Move) : (s.moves run).machine.result? id = some r :=
  (moves_book (I := fun m => m.result? id = some r)
    (fun booked books entered => books.result booked entered) within locked booked entered run).2

/-- Commands leave a job as it is, or drop it. -/
theorem Touched.spared (touched : s.Touched known held s' held') (locked : s.machine.Locked)
    (booked : s.machine.Booked) (mem : (id, job) ∈ s.machine.jobs) :
    (id, job) ∈ s'.machine.jobs ∨ s'.machine.result? id = some (s.machine.now, .aborted) := by
  have kept := touched.touches.keep
    (I := fun p => p.1.Locked ∧ p.1.Booked ∧ p.1.now = s.machine.now ∧
      ((id, job) ∈ p.1.jobs ∨ p.1.result? id = some (s.machine.now, .aborted)))
    (fun touch ⟨locked, booked, now, spared⟩ => by
      refine ⟨locked.touch touch, booked.books locked touch.books, touch.kept.now.trans now, ?_⟩
      rcases spared with there | entered
      · exact now ▸ touch.spared there
      · exact .inr (touch.books.result booked entered))
    ⟨locked, booked, rfl, .inl mem⟩
  exact kept.2.2.2

/-- **What a move makes of a job**: only with a command it may be dropped. -/
theorem move_fate (within : s.Within known held) (locked : s.machine.Locked)
    (booked : s.machine.Booked) (mem : (id, job) ∈ s.machine.jobs) (next : Move) :
    s.machine.Fate (s.move next).machine id job ∨
      ¬ next.Alone ∧ (s.move next).machine.result? id = some (s.machine.now, .aborted) := by
  have command {s' : Session} (touched : ∃ held', s.Touched known held s' held') :
      s.machine.Fate s'.machine id job ∨ s'.machine.result? id = some (s.machine.now, .aborted) := by
    obtain ⟨_, touched⟩ := touched
    exact (touched.spared locked booked mem).imp_left .left
  cases next with
  | begin c => exact (command (begin_touches within c)).imp_right fun dropped => ⟨not_false, dropped⟩
  | aside name c =>
    exact (command (setAside_touches within name c)).imp_right fun dropped => ⟨not_false, dropped⟩
  | turn i => exact .inl (Machine.takeTurn_fate mem i)
  | pass | grace => exact .inl (.left mem)

end Scenario.Session

end HealthTree
