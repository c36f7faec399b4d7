import HealthTree.Proofs.Interleaving
import HealthTree.Proofs.Quiet

/-!
# Machines between commands

Between two commands a machine is ready (`Machine.Ready`): every cache is primed, and no call and no
refresh is under way. A command may now cancel scopes, stop loops and set jobs off, and the machine
is ready still, for nothing of these jobs has begun (`Ready.touch`). So it works, and settling it
makes it ready and quiet again.

Time may move while a machine is ready and quiet, but not past the next tick of a loop
(`Ready.pass`); that is how far it moves before the machine settles again (`Ready.jump`).
-/

namespace HealthTree

theorem InOrder.of_all {primed : Nat → Prop} (all : ∀ k, primed k) (slots : List Nat) :
    InOrder primed slots := by
  induction slots generalizing primed with
  | nil => trivial
  | cons slot rest ih => exact ⟨fun k _ => all k, ih fun k => .inl (all k)⟩

/-- Caches are in order if each comes right after those before it. -/
theorem InOrder.range' {primed : Nat → Prop} {start : Nat} (before : ∀ k < start, primed k)
    (len : Nat) : InOrder primed (List.range' start len) := by
  induction len generalizing primed start with
  | zero => trivial
  | succ len ih =>
    refine ⟨before, ?_⟩
    apply ih
    intro k lt
    rcases Nat.lt_or_eq_of_le (Nat.le_of_lt_succ lt) with lt | same
    · exact .inl (before k lt)
    · exact .inr same

/-- **Nothing of the job has begun**; a loop that runs is not behind with its ticks. -/
def Job.Unbegun (makes : List (Check × Nat)) (plan : Plan) (w : World) : Job → Prop
  | call _ _ flight => ∃ c, c.Known makes plan ∧ flight = .fresh c
  | refresh _ _ _ phase => phase = .arriving
  | loop slot scope => ∀ l, w.loops[slot]? = some (some l) → l.scope = scope → w.now ≤ l.nextTick
  | work _ _ | watch _ _ | sleep _ => True

namespace Job.Unbegun

variable {makes : List (Check × Nat)} {plan : Plan} {w w' : World} {job : Job}

/-- Where every cache is primed nothing can go wrong with a job that has not begun. -/
theorem fine (unbegun : job.Unbegun makes plan w) (primed : ∀ k, w.Primed k) :
    job.Fine makes plan w := by
  cases job with
  | call name scope flight =>
    obtain ⟨c, known, rfl⟩ := unbegun
    exact ⟨c, known, fun _ => ⟨rfl, fun slot _ _ _ => primed slot⟩, fun _ => rfl⟩
  | refresh slot scope purpose phase =>
    cases (unbegun : phase = .arriving)
    exact ⟨fun _ => InOrder.of_all primed _, trivial⟩
  | loop slot scope => exact ⟨fun _ k _ => primed k, unbegun⟩
  | work | watch | sleep => trivial

/-- Loops may be stopped. -/
theorem of_loops (unbegun : job.Unbegun makes plan w) (now : w'.now = w.now)
    (loops : ∀ (slot : Nat) (l : Loop), w'.loops[slot]? = some (some l) →
      w.loops[slot]? = some (some l)) : job.Unbegun makes plan w' := by
  cases job with
  | loop slot scope => exact fun l found same => now ▸ unbegun l (loops slot l found) same
  | _ => exact unbegun

end Job.Unbegun

namespace Machine

/-- **A machine that waits for commands.** -/
structure Ready (makes : List (Check × Nat)) (plan : Plan) (m : Machine) (held : List ScopeId) :
    Prop where
  locked : m.Locked
  sheltered : m.Sheltered held
  fair : m.world.Fair makes plan
  primed : ∀ k, m.world.Primed k
  unbegun : ∀ p ∈ m.jobs, p.2.Unbegun makes plan m.world
  strict : m.world.grace = false

variable {makes : List (Check × Nat)} {plan : Plan} {m : Machine} {held : List ScopeId}

theorem Ready.working (ready : m.Ready makes plan held) : m.Working makes plan held :=
  ⟨ready.locked, ready.sheltered, ready.fair, fun p mem => (ready.unbegun p mem).fine ready.primed,
    ready.strict⟩

/-- A machine that works and rests is ready if every cache is primed. -/
theorem Working.ready (working : m.Working makes plan held) (quiet : m.Quiet)
    (primed : ∀ k, m.world.Primed k) : m.Ready makes plan held := by
  refine ⟨working.locked, working.sheltered, working.fair, primed, ?_, working.strict⟩
  intro p mem
  have fine := working.fine p mem
  have dozes := quiet.dozes working.locked p mem
  obtain ⟨id, job⟩ := p
  cases job with
  | call | refresh => exact dozes.elim
  | loop slot scope => exact fine.2
  | work | watch | sleep => trivial

/-- **A machine that is ready settles to one that is ready and quiet.** -/
theorem Ready.settle (layout : Layout makes plan) (ready : m.Ready makes plan held) :
    m.settle.Ready makes plan held ∧ m.settle.Quiet := by
  have working := ready.working
  have quiet := working.settle_quiet layout
  have on := working.settle_onward layout
  exact ⟨(working.settle layout).ready quiet fun k => on.primed k (ready.primed k), quiet⟩

/-- **What a command changes leaves a machine ready.** -/
theorem Ready.touch {p p' : Machine × List ScopeId} (ready : p.1.Ready makes plan p.2)
    (touch : Touch (·.Known makes plan) p p') : p'.1.Ready makes plan p'.2 := by
  have kept := touch.kept
  have fair := ready.fair.of_same kept.makes kept.states kept.debounces
  have primed (k : Nat) : p'.1.world.Primed k := by
    unfold World.Primed
    rw [kept.states]
    exact ready.primed k
  refine ⟨ready.locked.touch touch, ready.sheltered.touch touch, fair, primed, ?_,
    kept.grace.trans ready.strict⟩
  cases touch with
  | background | derive | cancel | forget =>
    exact fun q mem => (ready.unbegun q mem).of_loops rfl fun _ _ found => found
  | stop m held slot =>
    unfold Machine.stop
    split
    · intro q mem
      refine (ready.unbegun q mem).of_loops rfl ?_
      intro other l found
      rw [World.loops_modifyCache (g := fun _ => none) _ slot fun _ => rfl, List.getElem?_modify]
        at found
      obtain ⟨old, before, after⟩ := Option.map_eq_some_iff.mp found
      by_cases here : slot = other
      · rw [if_pos here] at after
        cases after
      · rw [if_neg here] at after
        exact after ▸ before
    · exact ready.unbegun
  | @submit m held job asked =>
    intro q mem
    rcases List.mem_append.mp mem with mem | mem
    · exact (ready.unbegun q mem).of_loops rfl fun _ _ found => found
    · cases List.mem_singleton.mp mem
      cases asked with
      | call handed is => exact ⟨_, is, rfl⟩
      | start | force => rfl
      | work | watch | sleep => trivial
  | abort m held id =>
    unfold Machine.abort
    cases found : m.jobs.lookup id with
    | none => exact ready.unbegun
    | some job =>
      -- a job that has not begun gives nothing back
      have same : job.drop id m.world = m.world := by
        have perm := lookup_filter_perm ready.locked.distinct found
        have unbegun := ready.unbegun _ (perm.mem_iff.mp List.mem_cons_self)
        cases job with
        | refresh slot scope purpose phase =>
          cases (unbegun : phase = .arriving)
          rfl
        | _ => rfl
      simp only [same]
      exact fun q mem => ready.unbegun q (List.mem_filter.mp mem).1

theorem Ready.touches {p p' : Machine × List ScopeId} (ready : p.1.Ready makes plan p.2)
    (touches : Touches (·.Known makes plan) p p') : p'.1.Ready makes plan p'.2 :=
  touches.keep (I := fun q => q.1.Ready makes plan q.2) (fun touch ready => ready.touch touch) ready

/-! ## The passing of time -/

/-- Time may move to the next tick of any loop. -/
theorem Ready.pass {ms : Nat} (ready : m.Ready makes plan held) (quiet : m.Quiet)
    (ahead : ∀ p ∈ m.jobs, ∀ wake ∈ p.2.wakes m.world, m.now < wake → m.now + ms ≤ wake) :
    (m.pass ms).Ready makes plan held := by
  refine ⟨ready.locked.of_world rfl rfl,
    ⟨ready.sheltered.opened, ready.sheltered.scopes, ready.sheltered.limits⟩,
    ready.fair.of_same rfl rfl rfl, ready.primed, ?_, ready.strict⟩
  intro p mem
  have unbegun := ready.unbegun p mem
  have rests := quiet p mem
  obtain ⟨id, job⟩ := p
  cases job with
  | loop slot scope =>
    intro l found same
    have later : m.now < l.nextTick := by
      apply Nat.lt_of_not_le
      exact fun due => rests ⟨l, found, same, due⟩
    apply ahead _ mem l.nextTick _ later
    have kept : (m.world.cache? slot).bind (·.loop) = some l := by
      show (m.world.caches[slot]?).bind (·.loop) = some l
      have found : (m.world.caches.map (·.loop))[slot]? = some (some l) := found
      rw [List.getElem?_map] at found
      obtain ⟨c, there, loop⟩ := Option.map_eq_some_iff.mp found
      rw [there]
      exact loop
    unfold Job.wakes
    simp only [kept]
    exact List.mem_append_right _ (List.mem_singleton.mpr rfl)
  | _ => exact unbegun

/-- **A jump makes a machine that is ready and quiet so again.** -/
theorem Ready.jump (layout : Layout makes plan) (ready : m.Ready makes plan held) (quiet : m.Quiet)
    {target : Nat} (ahead : m.now < target) :
    (m.jump target).Ready makes plan held ∧ (m.jump target).Quiet := by
  obtain ⟨ms, -, jumped, early⟩ := jump_passes ahead
  rw [jumped]
  exact (ready.pass quiet early).settle layout

/-- **So does the wait for a job.** -/
theorem Ready.await (layout : Layout makes plan) (ready : m.Ready makes plan held) (quiet : m.Quiet)
    (id : JobId) (limit : Nat) :
    (m.await id limit).Ready makes plan held ∧ (m.await id limit).Quiet :=
  await_keep (I := fun m => m.Ready makes plan held ∧ m.Quiet)
    (fun _ ahead ⟨ready, quiet⟩ => ready.jump layout quiet ahead) ⟨ready, quiet⟩

end Machine

end HealthTree
