import HealthTree.Proofs.Ready

/-!
# What a start and a call come to

A start under a live scope primes every cache of a tree: each is primed already, or some job still
promises to prime it (`Machine.Priming`), and when the machine has settled no job is left that could
(`Working.primed`). A call under a live scope comes to the ideal of its check: either it is under
way, on course, or it has answered (`Machine.Answers`), and when the machine has settled it has
(`Working.answered`).
-/

namespace HealthTree

namespace Machine

variable {makes : List (Check × Nat)} {plan : Plan} {m : Machine} {held : List ScopeId} {id : JobId}
  {c : Check}

/-- **Every cache is primed, or promised to be.** -/
def Priming (m : Machine) : Prop :=
  ∀ k, m.world.Primed k ∨ ∃ p ∈ m.jobs, p.2.Promises m.world k

/-- **The job of this number is under way and like this, or it has come to a reply like that.** -/
def Comes (m : Machine) (id : JobId) (like : World → Job → Prop) (reply : Reply → Prop) : Prop :=
  (∃ job, (id, job) ∈ m.jobs ∧ like m.world job) ∨
    id ∉ m.jobs.map Prod.fst ∧ id < m.world.nextJob ∧
      ∃ time r, m.result? id = some (time, r) ∧ reply r

/-- **The job of this number is a call that heads for the ideal of the check, or it has answered
with it.** -/
def Answers (m : Machine) (id : JobId) (c : Check) : Prop :=
  (∃ job, (id, job) ∈ m.jobs ∧ job.Heads m.world c) ∨
    id ∉ m.jobs.map Prod.fst ∧ id < m.world.nextJob ∧
      ∃ time o, m.result? id = some (time, .answered c.name o) ∧
        Outcome.surface o = Outcome.surface c.ideal

/-- A step keeps every promise. -/
theorem Priming.takeTurn (layout : Layout makes plan) (working : m.Working makes plan held)
    (priming : m.Priming) (i : Nat) : (m.takeTurn i).Priming := by
  have on := (working.takeTurn layout i).2
  intro k
  rcases priming k with primed | ⟨p, mem, promises⟩
  · exact .inl (on.primed k primed)
  · unfold Machine.takeTurn at on ⊢
    cases found : m.jobs[i]? with
    | none => exact .inr ⟨p, mem, promises⟩
    | some q =>
      obtain ⟨id, job⟩ := q
      simp only [found] at on
      rcases List.mem_cons.mp ((beside_perm found).mem_iff.mpr mem) with rfl | other
      · have handed := (working.achieves layout mem).promised k promises
        rcases handed with primed | ⟨next, going, promises'⟩
        · exact .inl primed
        · refine .inr ⟨(id, next), List.mem_append_right _ (List.mem_append_left _ ?_), promises'⟩
          simp only [going]
          exact List.mem_singleton.mpr rfl
      · exact .inr ⟨p, List.mem_append_left _ other,
          promises.keep on (working.sheltered.scopes p mem)⟩

/-- **When a machine has settled in which every cache is promised, every cache is primed.** -/
theorem Working.primed (layout : Layout makes plan) (working : m.Working makes plan held)
    (priming : m.Priming) (k : Nat) : m.settle.world.Primed k := by
  have kept : m.settle.Priming :=
    working.settle_keeps layout
      (fun _ i working priming => priming.takeTurn layout working i) priming
  rcases kept k with primed | ⟨p, mem, promises⟩
  · exact primed
  · have dozes := (working.settle_quiet layout).dozes (working.settle layout).locked p mem
    obtain ⟨id, job⟩ := p
    cases job with
    | call | refresh => exact dozes.elim
    | loop | work | watch | sleep => exact promises.elim

/-- A job comes to its reply if its own steps go on like this or come to one, and those of others
leave it as it is. A reply that was given stays. -/
theorem Comes.takeTurn {like : World → Job → Prop} {reply : Reply → Prop}
    (comes : m.Comes id like reply) (locked : m.Locked) (i : Nat)
    (keep : ∀ job, (id, job) ∈ m.jobs → like m.world job → like (m.takeTurn i).world job)
    (step : ∀ job, (id, job) ∈ m.jobs → like m.world job →
      (∃ next, (job.step id m.world).1 = .going next ∧ like (job.step id m.world).2.2 next) ∨
        ∃ r, (job.step id m.world).1 = .finished r ∧ reply r) :
    (m.takeTurn i).Comes id like reply := by
  unfold Machine.takeTurn at keep ⊢
  cases found : m.jobs[i]? with
  | none => exact comes
  | some q =>
    obtain ⟨id', job'⟩ := q
    have mem' : (id', job') ∈ m.jobs := List.mem_of_getElem? found
    have numbers := job'.step_numbered id' m.world
    simp only [found] at keep
    rcases stepped : job'.step id' m.world with ⟨turn, spawned, w⟩
    simp only [stepped] at keep numbers ⊢
    have perm := beside_perm found
    have once : id' ∉ (m.jobs.eraseIdx i).map Prod.fst := locked.beside found
    rcases comes with ⟨job, mem, is⟩ | ⟨absent, old, time, r, result, given⟩
    · rcases List.mem_cons.mp (perm.mem_iff.mpr mem) with same | other
      · cases same
        have ahead := step _ mem is
        rw [stepped] at ahead
        rcases ahead with ⟨next, rfl, is'⟩ | ⟨r, rfl, given⟩
        · exact .inl ⟨next, List.mem_append_right _ List.mem_cons_self, is'⟩
        · obtain ⟨fresh, old⟩ := numbers.apart (locked.numbered _ mem)
          refine .inr ⟨?_, old, w.now, r, ?_, given⟩
          · simp only [JobTurn.left, List.nil_append, List.map_append, List.mem_append, not_or]
            exact ⟨once, fresh⟩
          · exact List.lookup_cons_self
      · exact .inl ⟨job, List.mem_append_left _ other, keep job mem is⟩
    · have different : id ≠ id' := fun same => absent (same ▸ List.mem_map_of_mem mem')
      obtain ⟨fresh, old'⟩ := numbers.apart old
      refine .inr ⟨?_, old', time, r, ?_, given⟩
      · simp only [List.map_append, List.mem_append, not_or]
        refine ⟨fun mem => absent (((List.eraseIdx_sublist ..).map Prod.fst).subset mem), ?_, fresh⟩
        cases turn with
        | going next => exact fun same => different (List.mem_singleton.mp same)
        | finished | gone => exact List.not_mem_nil
      · cases turn with
        | finished r' =>
          show List.lookup id ((id', w.now, r') :: m.finished) = _
          rw [List.lookup_cons, beq_eq_false_iff_ne.mpr different]
          exact result
        | going | gone => exact result

theorem answers_iff : m.Answers id c ↔ m.Comes id (fun w job => job.Heads w c)
    (fun r => ∃ o, r = .answered c.name o ∧ Outcome.surface o = Outcome.surface c.ideal) := by
  refine or_congr_right (and_congr_right fun _ => and_congr_right fun _ => exists_congr fun _ => ?_)
  constructor
  · rintro ⟨o, result, ideal⟩
    exact ⟨_, result, o, rfl, ideal⟩
  · rintro ⟨_, result, o, rfl, ideal⟩
    exact ⟨o, result, ideal⟩

/-- A step brings the call nearer to its answer, and leaves an answer that was given. -/
theorem Answers.takeTurn (layout : Layout makes plan) (working : m.Working makes plan held)
    (is : c.Known makes plan) (answers : m.Answers id c) (i : Nat) :
    (m.takeTurn i).Answers id c := by
  have on := (working.takeTurn layout i).2
  apply answers_iff.mpr
  apply (answers_iff.mp answers).takeTurn working.locked i
  · exact fun job mem heads => heads.keep on (working.sheltered.scopes _ mem)
  · intro job mem heads
    rcases heads.step id is working.fair (working.sheltered.scopes _ mem) with
      ahead | ⟨o, done, ideal⟩
    · exact .inl ahead
    · exact .inr ⟨_, done, o, rfl, ideal⟩

/-- **When a machine has settled, a call that heads for its ideal has answered with it.** -/
theorem Working.answered (layout : Layout makes plan) (working : m.Working makes plan held)
    (is : c.Known makes plan) (answers : m.Answers id c) :
    ∃ time o, m.settle.result? id = some (time, .answered c.name o) ∧
      Outcome.surface o = Outcome.surface c.ideal := by
  have kept : m.settle.Answers id c :=
    working.settle_keeps layout (I := fun m => m.Answers id c)
      (fun _ i working answers => answers.takeTurn layout working is i) answers
  rcases kept with ⟨job, mem, heads⟩ | ⟨-, -, answered⟩
  · have dozes := (working.settle_quiet layout).dozes (working.settle layout).locked _ mem
    cases job with
    | call | refresh => exact dozes.elim
    | loop | work | watch | sleep => exact heads.elim
  · exact answered

end Machine

end HealthTree
