import HealthTree.Proofs.Locks
import HealthTree.Proofs.Schedule

/-!
# Loops and their jobs

A cache keeps its loop in two places: the entry that says when it ticks next, and the job that takes
the ticks. The two stay together while the loop is live (`Machine.Manned`). A step keeps the job of a
live loop, and gives one to a loop that it sets off. A command drops no job but one that was set
aside, and no loop ever is (`Session.Crewed`, `Session.move_crewed`).
-/

namespace HealthTree

/-- A loop goes on while its scope is live. -/
theorem Job.step_loop_going (id : JobId) {w : World} {slot : Nat} {own : ScopeId} {c : Cache}
    (cached : w.cache? slot = some c) (live : w.cause? own = none) :
    ((Job.loop slot own).step id w).1 = .going (.loop slot own) := by
  simp only [Job.step, cached]
  have cases := w.stepLoop_cases slot c own
  generalize w.stepLoop slot c own = r at cases
  cases cases with
  | stops cause ended | ticksLast cause ended | skipsLast cause ended =>
    cases live.symm.trans ended
  | rests | ticks | skips => rfl

namespace Machine

section

variable {m : Machine} {slot : Nat} {own : ScopeId} {id : JobId}

/-- Every loop that is live has its job. -/
def Manned (m : Machine) : Prop :=
  ∀ (slot : Nat) (l : Loop), m.world.loops[slot]? = some (some l) → m.world.cause? l.scope = none →
    ∃ id, (id, .loop slot l.scope) ∈ m.jobs

/-- A step of any job leaves the jobs of live loops. -/
theorem loop_after_turn {c : Cache} (mem : (id, .loop slot own) ∈ m.jobs)
    (cached : m.world.cache? slot = some c) (live : m.world.cause? own = none) (i : Nat) :
    (id, .loop slot own) ∈ (m.takeTurn i).jobs := by
  unfold takeTurn
  cases found : m.jobs[i]? with
  | none => exact mem
  | some p =>
    rcases List.mem_cons.mp ((beside_perm found).mem_iff.mpr mem) with rfl | beside
    · have going := Job.step_loop_going id cached live
      refine List.mem_append_right _ (List.mem_append_left _ ?_)
      rw [going]
      exact List.mem_singleton_self _
    · exact List.mem_append_left _ beside

/-- A loop that a step sets off has a job. -/
theorem loop_of_setOff {i : Nat} (setOff : m.loopSetOff? i = some (slot, own)) :
    ∃ id, (id, .loop slot own) ∈ (m.takeTurn i).jobs := by
  obtain ⟨p, found, setOff⟩ := Option.bind_eq_some_iff.mp setOff
  unfold takeTurn
  simp only [found]
  cases spawned : (p.2.step p.1 m.world).2.1 with
  | none =>
    rw [spawned] at setOff
    cases setOff
  | some new =>
    obtain ⟨id, job⟩ := new
    rw [spawned] at setOff
    cases job with
    | loop =>
      cases setOff
      exact ⟨id, by simp⟩
    | _ => cases setOff

/-- The job of a loop was there before a step, or has a new number. -/
theorem loop_before_turn {i : Nat} (mem : (id, .loop slot own) ∈ (m.takeTurn i).jobs) :
    (id, .loop slot own) ∈ m.jobs ∨ id = m.world.nextJob := by
  rcases mem_takeTurn mem with beside | ⟨q, found, ⟨rfl, going⟩ | spawned⟩
  · exact .inl (List.mem_of_mem_eraseIdx beside)
  · obtain ⟨id, job⟩ := q
    cases Job.step_goesOn going
    exact .inl (List.mem_of_getElem? found)
  · have numbers := Job.step_numbered q.1 m.world q.2
    unfold Numbered at numbers
    rw [spawned] at numbers
    exact .inr numbers.1

/-- Numbers of jobs are used up in their order. -/
theorem takeTurn_nextJob (m : Machine) (i : Nat) :
    m.world.nextJob ≤ (m.takeTurn i).world.nextJob := by
  unfold takeTurn
  cases m.jobs[i]? with
  | none => exact Nat.le_refl _
  | some p =>
    have numbers := Job.step_numbered p.1 m.world p.2
    unfold Numbered at numbers
    split at numbers
    · exact Nat.le_of_eq numbers.symm
    · exact numbers.2 ▸ Nat.le_succ _

/-- **A step of a job leaves every live loop its job.** -/
theorem Manned.takeTurn (manned : m.Manned) (knows : m.world.KnowsLoops) (i : Nat) :
    (m.takeTurn i).Manned := by
  intro slot l' loop live
  obtain ⟨spawned, setOff, change⟩ := takeTurn_change knows i
  rcases change.loop_before loop with ⟨l, old, same⟩ | new
  · rw [← same] at live ⊢
    have alive := ((m.takeTurn_later i).cause? (knows slot l old)).symm.trans live
    obtain ⟨id, mem⟩ := manned slot l old alive
    obtain ⟨c, cached, -⟩ := World.loops_eq_some.mp old
    exact ⟨id, loop_after_turn mem cached alive i⟩
  · exact loop_of_setOff (setOff ▸ new)

end

/-! ## Commands -/

section

variable (m : Machine) (slot : Nat) (id : JobId)

theorem stop_jobs : (m.stop slot).jobs = m.jobs ∧ (m.stop slot).world.nextJob = m.world.nextJob := by
  unfold stop
  split <;> exact ⟨rfl, rfl⟩

theorem stops_jobs (slots : List Nat) : (slots.foldl stop m).jobs = m.jobs ∧
    (slots.foldl stop m).world.nextJob = m.world.nextJob := by
  induction slots generalizing m with
  | nil => exact ⟨rfl, rfl⟩
  | cons slot rest ih =>
    obtain ⟨jobs, next⟩ := ih (m.stop slot)
    obtain ⟨jobs', next'⟩ := m.stop_jobs slot
    exact ⟨jobs.trans jobs', next.trans next'⟩

/-- The job of one number is dropped, and no other. -/
theorem abort_jobs : (m.abort id).jobs ⊆ m.jobs ∧
    (m.abort id).world.nextJob = m.world.nextJob ∧
    ∀ p ∈ m.jobs, p ∈ (m.abort id).jobs ∨ p.1 = id := by
  unfold abort
  cases m.jobs.lookup id with
  | none => exact ⟨List.Subset.refl _, rfl, fun _ mem => .inl mem⟩
  | some job =>
    refine ⟨List.filter_subset_self _, by simp, fun p mem => ?_⟩
    by_cases same : p.1 = id
    · exact .inr same
    · exact .inl (List.mem_filter.mpr ⟨mem, bne_iff_ne.mpr same⟩)

end

end Machine

namespace Scenario.Session

variable {known : Check → Prop} {s s' : Session} {held held' : List ScopeId}

/-- **Every live loop has its job**, and no command that was set aside is one of these. -/
structure Crewed (s : Session) : Prop where
  manned : s.machine.Manned
  apart : ∀ name id, s.asides.lookup name = some (.job id) → id < s.machine.world.nextJob ∧
    ∀ slot own, (id, .loop slot own) ∉ s.machine.jobs

/-- **What a command does to jobs**: it drops one at most, which was set aside before, and it sets
off one at most, which is not a loop and may be set aside from now on. -/
structure Manages (s s' : Session) : Prop where
  next : s.machine.world.nextJob ≤ s'.machine.world.nextJob
  kept : ∀ p ∈ s.machine.jobs, p ∈ s'.machine.jobs ∨
    ∃ name, s.asides.lookup name = some (.job p.1)
  loops : ∀ id slot own, (id, .loop slot own) ∈ s'.machine.jobs → (id, .loop slot own) ∈ s.machine.jobs
  asides : ∀ name id, s'.asides.lookup name = some (.job id) →
    s.asides.lookup name = some (.job id) ∨
      id = s.machine.world.nextJob ∧ id < s'.machine.world.nextJob

namespace Manages

/-- Jobs and what was set aside are left alone. -/
theorem of_same (jobs : s'.machine.jobs = s.machine.jobs)
    (next : s'.machine.world.nextJob = s.machine.world.nextJob) (asides : s'.asides = s.asides) :
    s.Manages s' :=
  ⟨Nat.le_of_eq next.symm, fun _ mem => .inl (jobs ▸ mem), fun _ _ _ mem => jobs ▸ mem,
    fun _ _ found => .inl (asides ▸ found)⟩

/-- A job is set off, and may be set aside. -/
theorem submit (s : Session) (scopes : Scopes) {job : Job} (other : ∀ slot own, job ≠ .loop slot own)
    (jobs : s'.machine = ((s.withScopes scopes).machine.submit job).2)
    (asides : ∀ name id, s'.asides.lookup name = some (.job id) →
      s.asides.lookup name = some (.job id) ∨ id = s.machine.world.nextJob) : s.Manages s' := by
  have more : s'.machine.world.nextJob = s.machine.world.nextJob + 1 := by rw [jobs]; rfl
  have all : s'.machine.jobs = s.machine.jobs ++ [(s.machine.world.nextJob, job)] := by
    rw [jobs]
    rfl
  refine ⟨more ▸ Nat.le_succ _, fun p mem => .inl (all ▸ List.mem_append_left _ mem), ?_, ?_⟩
  · intro id slot own mem
    rw [all] at mem
    rcases List.mem_append.mp mem with old | new
    · exact old
    · cases List.mem_singleton.mp new
      exact absurd rfl (other slot own)
  · intro name id found
    refine (asides name id found).imp_right fun same => ⟨same, ?_⟩
    rw [same, more]
    exact Nat.lt_succ_self _

end Manages

theorem instant_manages (s : Session) (c : Command) : s.Manages (s.instant c).2 := by
  have same : s.Manages s := .of_same rfl rfl rfl
  cases c with
  | stop slot =>
    obtain ⟨jobs, next⟩ := s.machine.stop_jobs slot
    exact .of_same jobs next rfl
  | stopAll =>
    obtain ⟨jobs, next⟩ := s.machine.stops_jobs (List.range s.machine.world.caches.length)
    exact .of_same jobs next rfl
  | state slot =>
    simp only [instant]
    split <;> exact same
  | derive name source timeout =>
    simp only [instant]
    cases found : s.scopeNamed? source with
    | none => exact same
    | some p =>
      obtain ⟨parent, s₁⟩ := p
      obtain ⟨_, rfl⟩ := scopeNamed_withScopes found
      exact .of_same rfl rfl rfl
  | scopeState under | cancel under =>
    simp only [instant]
    cases found : s.scope? under with
    | none => exact same
    | some p =>
      obtain ⟨id, s₁⟩ := p
      obtain ⟨_, rfl⟩ := scope_withScopes found
      exact .of_same rfl rfl rfl
  | abort name =>
    simp only [instant]
    split
    · rename_i id found
      obtain ⟨fewer, next, only⟩ := s.machine.abort_jobs id
      refine ⟨Nat.le_of_eq next.symm, fun p mem => (only p mem).imp_right ?_,
        fun _ _ _ mem => fewer mem, fun _ _ found => .inl found⟩
      rintro rfl
      exact ⟨name, found⟩
    · exact same
    · exact same
  | trigger | events => exact .of_same rfl rfl rfl
  | _ => exact same

/-- No command is a loop. -/
theorem job_not_loop (within : s.Within known held) {c : Command} {job : Job}
    (is : s.job? c = some (job, s')) (slot : Nat) (own : ScopeId) : job ≠ .loop slot own := by
  obtain ⟨held', -, asked⟩ := job_touches within is
  cases asked <;> nofun

theorem begin_manages (within : s.Within known held) (c : Command) : s.Manages (s.begin c) := by
  unfold begin
  cases is : s.job? c with
  | none => exact s.instant_manages c
  | some p =>
    obtain ⟨job, s'⟩ := p
    have other := job_not_loop within is
    obtain ⟨scopes, rfl⟩ := job_withScopes is
    exact .submit s scopes other rfl fun _ _ found => .inl found

theorem setAside_manages (within : s.Within known held) (name : String) (c : Command) :
    s.Manages (s.setAside name c).2 := by
  unfold setAside
  cases is : s.job? c with
  | none =>
    obtain ⟨next, kept, loops, asides⟩ := s.instant_manages c
    refine ⟨next, kept, loops, fun other id found => asides other id ?_⟩
    simp only [List.lookup_cons] at found
    split at found
    · cases found
    · exact found
  | some p =>
    obtain ⟨job, s'⟩ := p
    have other := job_not_loop within is
    obtain ⟨scopes, rfl⟩ := job_withScopes is
    refine .submit s scopes other rfl fun other id found => ?_
    simp only [List.lookup_cons] at found
    split at found
    · cases found
      exact .inr rfl
    · exact .inl found

/-- **A command leaves every live loop its job.** -/
theorem Crewed.manage (crewed : s.Crewed) (locked : s.machine.Locked)
    (looped : s.machine.Looped held) (touched : ∃ held', s.Touched known held s' held')
    (manages : s.Manages s') : s'.Crewed := by
  refine ⟨fun slot l loop live => ?_, fun name id found => ?_⟩
  · obtain ⟨_, touched⟩ := touched
    have before := touched.keep
      (I := fun m => m.world.loops[slot]? = some (some l) → m.world.cause? l.scope = none →
        s.machine.world.loops[slot]? = some (some l) ∧ s.machine.world.cause? l.scope = none)
      (fun touch looped before loop live => by
        have old := (touch.spares looped.knows).old slot l loop
        refine before old ?_
        by_contra ended
        exact touch.after.stays (looped.knows slot l old) ended live)
      looped fun loop live => ⟨loop, live⟩
    obtain ⟨old, alive⟩ := before loop live
    obtain ⟨id, mem⟩ := crewed.manned slot l old alive
    rcases manages.kept _ mem with mem | ⟨name, aside⟩
    · exact ⟨id, mem⟩
    · exact absurd mem ((crewed.apart name id aside).2 slot l.scope)
  · rcases manages.asides name id found with old | ⟨rfl, lt⟩
    · obtain ⟨lt, apart⟩ := crewed.apart name id old
      exact ⟨Nat.lt_of_lt_of_le lt manages.next,
        fun slot own mem => apart slot own (manages.loops _ _ _ mem)⟩
    · refine ⟨lt, fun slot own mem => ?_⟩
      exact Nat.lt_irrefl _ (locked.numbered _ (manages.loops _ _ _ mem))

/-- **So does a step of a job**, and the passing of time. -/
theorem move_crewed (crewed : s.Crewed) (within : s.Within known held) (locked : s.machine.Locked)
    (looped : s.machine.Looped held) (next : Move) : (s.move next).Crewed := by
  cases next with
  | begin c => exact crewed.manage locked looped (begin_touches within c) (begin_manages within c)
  | aside name c =>
    exact crewed.manage locked looped (setAside_touches within name c)
      (setAside_manages within name c)
  | turn i =>
    refine ⟨crewed.manned.takeTurn looped.knows i, fun name id found => ?_⟩
    obtain ⟨lt, apart⟩ := crewed.apart name id found
    refine ⟨Nat.lt_of_lt_of_le lt (s.machine.takeTurn_nextJob i), fun slot own mem => ?_⟩
    rcases Machine.loop_before_turn mem with old | rfl
    · exact apart slot own old
    · exact Nat.lt_irrefl _ lt
  | pass ms =>
    refine ⟨fun slot l loop live => crewed.manned slot l loop ?_, crewed.apart⟩
    by_contra ended
    exact (World.After.rest s.machine.world ms s.machine.world.grace).stays
      (looped.knows slot l loop) ended live
  | grace given => exact ⟨crewed.manned, crewed.apart⟩

end Scenario.Session

end HealthTree
