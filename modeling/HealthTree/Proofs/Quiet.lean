import HealthTree.Proofs.Locks
import HealthTree.Proofs.Progress
import HealthTree.Proofs.Settling

/-!
# Machines that come to rest

A machine works (`Machine.Working`) if locks and jobs agree, limits are sheltered, the world is fair
and every job is fine. Steps of jobs keep it working, and each of them changes nothing or leaves less
to do. So when a machine has settled every job rests (`settle_quiet`).

A machine that works and rests has no call and no refresh under way (`Quiet.dozes`). Only a refresh
that waits for its lock can rest at all; but the first in line waits for a holder, and a holder does
not rest.
-/

namespace HealthTree

namespace Machine

/-- **Nothing that goes on can go wrong**, where what has ended is cut off at once. -/
structure Working (makes : List (Check × Nat)) (plan : Plan) (m : Machine) (held : List ScopeId) :
    Prop where
  locked : m.Locked
  sheltered : m.Sheltered held
  fair : m.world.Fair makes plan
  fine : ∀ p ∈ m.jobs, p.2.Fine makes plan m.world
  strict : m.world.grace = false

/-- No job can do anything before time moves. -/
def Quiet (m : Machine) : Prop :=
  ∀ p ∈ m.jobs, p.2.Rests m.world p.1

variable {makes : List (Check × Nat)} {plan : Plan} {m : Machine} {held : List ScopeId}

namespace Working

/-- What the step of one of its jobs comes to. -/
theorem achieves (layout : Layout makes plan) (working : m.Working makes plan held) {id : JobId}
    {job : Job} (mem : (id, job) ∈ m.jobs) :
    job.Achieves makes plan m.world id (job.step id m.world) :=
  job.step_achieves layout working.fair working.strict (working.sheltered.scopes _ mem)
    (working.fine _ mem)

/-- A job stays fine while others go on. -/
theorem keep (working : m.Working makes plan held) {p : JobId × Job} (mem : p ∈ m.jobs) {w : World}
    (on : m.world.Onward w) : p.2.Fine makes plan w := by
  apply (working.fine p mem).keep on (working.sheltered.scopes p mem)
  intro scope limit its
  exact (working.sheltered.limits p mem scope limit its).1.lt_next

/-- **A step of a job keeps a machine working**, and goes on. -/
theorem takeTurn (layout : Layout makes plan) (working : m.Working makes plan held) (i : Nat) :
    (m.takeTurn i).Working makes plan held ∧ m.world.Onward (m.takeTurn i).world := by
  cases found : m.jobs[i]? with
  | none =>
    have same : m.takeTurn i = m := by simp only [Machine.takeTurn, found]
    exact same.symm ▸ ⟨working, .refl m.world⟩
  | some q =>
    obtain ⟨fair, on, left, started⟩ :=
      (working.achieves layout (List.mem_of_getElem? found)).advances
    have world : (m.takeTurn i).world = (q.2.step q.1 m.world).2.2 := by
      simp only [Machine.takeTurn, found]
    rw [← world] at fair on left started
    refine ⟨⟨working.locked.takeTurn i, working.sheltered.takeTurn i, fair, ?_,
      (m.takeTurn_later i).grace.trans working.strict⟩, on⟩
    intro p mem
    rcases Machine.mem_takeTurn mem with beside | ⟨q', found', which⟩
    · exact working.keep (List.mem_of_mem_eraseIdx beside) on
    · cases found.symm.trans found'
      rcases which with ⟨-, going⟩ | spawned
      · exact left p.2 going
      · exact started p.1 p.2 spawned

/-- Machines that work settle. -/
theorem settles (layout : Layout makes plan) :
    Settles fun m => m.Working makes plan held where
  turn _ i working := (working.takeTurn layout i).1
  lighter _ working _ mem := (working.achieves layout mem).progress.imp_left And.right
  due _ working _ mem _ _ := (working.achieves layout mem).advances.onward.due

/-- **What every step of a job keeps is kept while a machine settles.** -/
theorem settle_keeps (layout : Layout makes plan) {I : Machine → Prop}
    (turn : ∀ (m : Machine) i, m.Working makes plan held → I m → I (m.takeTurn i))
    (working : m.Working makes plan held) (kept : I m) : I m.settle :=
  (settles layout).settle_keeps turn working kept

theorem settle (layout : Layout makes plan) (working : m.Working makes plan held) :
    m.settle.Working makes plan held :=
  (settles layout).settle working

theorem settle_onward (layout : Layout makes plan) (working : m.Working makes plan held) :
    m.world.Onward m.settle.world :=
  working.settle_keeps layout (I := fun m' => m.world.Onward m'.world)
    (fun _ i working on => on.trans (working.takeTurn layout i).2) (.refl _)

/-- **A machine that has settled rests.** -/
theorem settle_quiet (layout : Layout makes plan) (working : m.Working makes plan held) :
    m.settle.Quiet := by
  intro p mem
  have still := (settles layout).settle_still working p mem
  rcases ((working.settle layout).achieves layout mem).progress with ⟨rests, -⟩ | less
  · exact rests
  · rw [still] at less
    exact absurd less (Nat.lt_irrefl _)

end Working

end Machine

/-! ## What rests -/

/-- The job is neither a call nor a refresh. -/
def Job.Dozes : Job → Prop
  | loop _ _ | work _ _ | watch _ _ | sleep _ => True
  | call _ _ _ | refresh _ _ _ _ => False

/-- The holder of a lock does not rest. -/
theorem Job.not_rests_of_holds {job : Job} {slot : Nat} (holds : job.stake slot = .holds)
    (w : World) (id : JobId) : ¬ job.Rests w id := by
  cases job with
  | refresh here scope purpose phase =>
    cases phase with
    | granted | calling => exact fun rests => rests
    | arriving | queued =>
      by_cases same : slot = here
      · cases (if_pos same).symm.trans holds
      · cases (if_neg same).symm.trans holds
  | _ => cases holds

/-- One that waits for a lock rests only behind others. -/
theorem Job.behind_of_waits {job : Job} {slot : Nat} (waits : job.stake slot = .waits) {w : World}
    {id : JobId} (rests : job.Rests w id) {c : Cache} (cached : w.cache? slot = some c) :
    (c.holder.isNone && c.waiting.head? == some id) = false := by
  cases job with
  | refresh here scope purpose phase =>
    by_cases same : slot = here
    · subst same
      cases phase with
      | queued =>
        obtain ⟨c', cached', behind⟩ := rests
        rw [cached] at cached'
        cases cached'
        exact behind
      | arriving | granted | calling => exact rests.elim
    · cases (if_neg same).symm.trans waits
  | _ => cases waits

namespace Machine

variable {m : Machine}

/-- **Where every job rests, none is a call or a refresh.** -/
theorem Quiet.dozes (quiet : m.Quiet) (locked : m.Locked) : ∀ p ∈ m.jobs, p.2.Dozes := by
  rintro ⟨id, job⟩ mem
  have rests := quiet _ mem
  cases job with
  | call => exact rests
  | loop | work | watch | sleep => trivial
  | refresh slot scope purpose phase =>
    cases phase with
    | arriving | granted | calling => exact rests.elim
    | queued =>
      obtain ⟨c, cached, -⟩ := rests
      have line : id ∈ c.waiting :=
        (locked.agrees _ mem slot _ (World.locks_at cached)).2.mpr (Stake.at_self slot .waits)
      -- nobody holds the lock, for its holder would not rest
      have unheld : c.holder = none := by
        cases holder : c.holder with
        | none => rfl
        | some other =>
          rcases locked.gives cached other with ⟨job, mem', gives⟩ | gives
          · exact absurd (quiet _ mem') (Job.not_rests_of_holds (gives.1.mp holder) _ _)
          · cases gives.1.mp holder
      -- so the first in line would go on
      cases first : c.waiting with
      | nil =>
        rw [first] at line
        cases line
      | cons other rest =>
        have waits : other ∈ c.waiting := first ▸ List.mem_cons_self
        rcases locked.gives cached other with ⟨job, mem', gives⟩ | gives
        · have behind := Job.behind_of_waits (gives.2.mp waits) (quiet _ mem') cached
          simp [unheld, first] at behind
        · cases gives.2.mp waits

end Machine

end HealthTree
