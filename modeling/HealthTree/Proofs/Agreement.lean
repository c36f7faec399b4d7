import HealthTree.Proofs.Requests

/-!
# A refresh that is asked for: its answer and the cache agree

Whatever else goes on, a refresh that a caller or a start asks for is over in one of two ways. Its
scope has ended: then the answer is the cause, and nothing was committed. Or its scope is live: then
it has called the inner check once, after all that held the lock before it, and the cache keeps what
the call has come to and answers with the fault of that (`answer_agrees_with_cache`). It cannot go on
otherwise than by waiting for the lock, or within half the interval of its call.

One thing is left of a refresh that is interrupted. A group may have heard some of its children
before, and debounced ones among them have hidden failures and counted these
(`interrupted_after_hidden_failure`).
-/

namespace HealthTree

namespace Scenario.Session

open CheckTree (ofBlueprint?)

section

variable {b : Blueprint} {t : CheckTree} (built : ofBlueprint? b = some t) (before : List Event)
  {id : JobId} {slot : Nat} {scope : ScopeId} {purpose : Purpose} {c : Cache} {job : Job}
include built

/-- **Every machine of a run is orderly.** -/
theorem orderly_of_moves (run : List Move) :
    ∃ held, ((ofTree (some t) before).moves run).Within (fun _ => True) held ∧
      ((ofTree (some t) before).moves run).machine.Orderly held := by
  obtain ⟨held, within, sheltered, -⟩ := looped_of_moves built before run
  obtain ⟨plan, planned⟩ := CheckTree.planned_ofBlueprint built
  have first : (ofTree (some t) before).machine.world.Spaced := by
    intro make listed
    obtain ⟨c, there, rfl⟩ := List.mem_map.mp listed
    exact planned.assembled.positive c there
  refine ⟨held, within, locked_of_moves built before run, sheltered,
    nested_of_moves built before run, first.of_makes ?_⟩
  exact moves_makes (planned.within before) run

/-- While a refresh is unfinished its scope is live, and it has committed nothing. -/
theorem unfinished_steps {run later : List Move}
    (pending : ∀ p ∈ ((ofTree (some t) before).moves run).stepsOf id later,
      (p.2.step id p.1.world).1.pending? = some (slot, scope, purpose)) :
    ∀ p ∈ ((ofTree (some t) before).moves run).stepsOf id later,
      p.1.world.cause? scope = none ∧ p.2.Spares id p.1.world := by
  intro p listed
  obtain ⟨first, rest, -, same, mem⟩ := mem_stepsOf listed
  obtain ⟨held, -, orderly⟩ := orderly_of_moves built before (run ++ first)
  rw [moves_append, ← same] at orderly
  exact orderly.unfinished mem (pending p listed)

/-- **How far a refresh has come** that was asked for and is unfinished, at any point of any run. -/
theorem stage_of_moves {run later : List Move}
    (asked : (id, .refresh slot scope purpose .arriving) ∈
      ((ofTree (some t) before).moves run).machine.jobs)
    (pending : ∀ p ∈ ((ofTree (some t) before).moves run).stepsOf id later,
      (p.2.step id p.1.world).1.pending? = some (slot, scope, purpose))
    (mem : (id, job) ∈ (((ofTree (some t) before).moves run).moves later).machine.jobs)
    (cached : (((ofTree (some t) before).moves run).moves later).machine.world.cache? slot =
      some c) :
    Stage (((ofTree (some t) before).moves run).moves later).machine.world id slot c scope purpose
      (((ofTree (some t) before).moves run).stepsOf id later) job := by
  obtain ⟨_, within, orderly⟩ := orderly_of_moves built before run
  generalize same : (ofTree (some t) before).moves run = s at *
  -- from the end of the run on: its last move is a step of the refresh, or leaves the job as it is
  induction later using List.reverseRecOn generalizing job c with
  | nil =>
    have one := List.inj_on_of_nodup_map orderly.locked.distinct mem asked rfl
    cases one
    exact .waits (.inl rfl) rfl
  | append_singleton later next ih =>
    rw [stepsOf_append] at pending ⊢
    rw [moves_append] at mem cached ⊢
    obtain ⟨held, within', orderly'⟩ := orderly_of_moves built before (run ++ later)
    rw [moves_append, same] at within' orderly'
    have before' := fun p listed => pending p (List.mem_append_left _ listed)
    have makes := moves_makes within' [next]
    obtain ⟨c', cached', make⟩ := World.cache?_of_makes makes.symm cached
    have old := Nat.lt_of_lt_of_le (orderly.locked.numbered _ asked) (moves_nextJob within later)
    rcases move_job within' orderly'.locked old mem with ⟨none, mem'⟩ | ⟨job', step, mem', going, world⟩
    · have stage := ih before' mem' cached'
      have under : job.scope? = some scope := by cases stage <;> rfl
      simp only [stepsOf, none, Option.toList_none, List.append_nil]
      refine Stage.of_make (stage.after ?_ (move_after within' next)) make.symm
      exact orderly'.sheltered.scopes _ mem' scope under
    · have stage := ih before' mem' cached'
      have steps := unfinished_steps built before (same ▸ before')
      rw [same] at steps
      have comes := stage.step orderly' mem' cached' (fun p listed => (steps p listed).1)
        fun p listed => (steps p listed).2
      simp only [stepsOf, step, Option.toList_some, List.append_nil] at pending ⊢
      have last := pending _ (List.mem_append_right _ (List.mem_singleton_self _))
      rw [moves, List.foldl_cons, List.foldl_nil, world]
      exact (Stage.next comes last going).of_make make.symm

end

/-- **A refresh that is asked for: its answer and the cache agree.** At any time somebody asks for a
refresh, and it is unfinished after each step of it so far. With its next step it is over, unless it
waits for the lock that another has, or its call has not come to anything and may still do so, or the
inner check panics. If its scope has ended it answers with the cause, and all its steps have left the
states of caches and every metric but the counts of hidden failures as they were; and it has called
nothing if the scope had ended before it had the lock. If its scope is live it has called the inner
check once, after every earlier refresh was over; the cache keeps the outcome of that call, or a
missed deadline if half the interval was over and the call was cut off without an answer; and the
answer is the fault of what the cache keeps. -/
theorem answer_agrees_with_cache {b : Blueprint} {t : CheckTree} (built : ofBlueprint? b = some t)
    (before : List Event) (run later : List Move) {id : JobId} {i slot : Nat} {scope : ScopeId}
    {purpose : Purpose} {c : Cache} {job : Job} :
    let s := (ofTree (some t) before).moves run
    let m := (s.moves later).machine
    (id, .refresh slot scope purpose .arriving) ∈ s.machine.jobs →
    (∀ p ∈ s.stepsOf id later,
      (p.2.step id p.1.world).1.pending? = some (slot, scope, purpose)) →
    m.jobs[i]? = some (id, job) → m.world.cache? slot = some c →
      m.RefreshStep id slot c scope purpose (s.stepsOf id later ++ [(m, job)])
        (job.step id m.world) := by
  intro s m asked pending found cached
  have mem := List.mem_of_getElem? found
  have stage := stage_of_moves built before asked pending mem cached
  have steps := unfinished_steps built before pending
  obtain ⟨held, -, orderly⟩ := orderly_of_moves built before (run ++ later)
  rw [moves_append] at orderly
  exact stage.step orderly mem cached (fun p listed => (steps p listed).1)
    fun p listed => (steps p listed).2

/-- A second caller waits while the first refresh is under way, and then for a check that does not
answer in time: after half the interval the missed deadline is what the cache keeps and what is
answered, though the scope of the caller has a deadline too, which is still ahead. -/
theorem answer_agrees_with_cache_cut_off :
    let b : Blueprint := .cached 100 (.probe ⟨"p", "p", ⟨[⟨some 40, true⟩], .outcome (.ok .healthy)⟩,
      [⟨[⟨some 80, true⟩], .outcome (.ok .healthy)⟩]⟩)
    let run : List Move := [.begin (.force 0 {}), .turn 0, .begin (.force 0 ⟨none, some 500⟩)]
    let later : List Move := [.turn 1, .pass 40, .turn 1, .turn 0, .turn 0, .pass 10, .turn 0,
      .pass 40]
    ∃ t c job, ofBlueprint? b = some t ∧
      let s := (ofTree (some t) []).moves run
      let m := (s.moves later).machine
      m.world.cache? 0 = some c ∧
        m.RefreshStep 1 0 c 4 .force (s.stepsOf 1 later ++ [(m, job)]) (job.step 1 m.world) ∧
        (job.step 1 m.world).1.answer? = some (some .deadlineExceeded) := by
  intro b run later
  have asked : (ofBlueprint? b).map (fun t => ((ofTree (some t) []).moves run).machine.jobs[1]?) =
      some (some (1, .refresh 0 4 .force .arriving)) := by rfl
  have pending : (ofBlueprint? b).any fun t => ((ofTree (some t) []).moves run).stepsOf 1 later |>.all
      fun p => (p.2.step 1 p.1.world).1.pending? = some (0, 4, .force) := by decide +kernel
  have last : (ofBlueprint? b).map (fun t =>
      let m := (((ofTree (some t) []).moves run).moves later).machine
      ((m.jobs[0]?).map fun p => (p.1, (p.2.step 1 m.world).1.answer?),
        (m.world.cache? 0).isSome)) =
      some (some (1, some (some .deadlineExceeded)), true) := by decide +kernel
  cases built : ofBlueprint? b with
  | none => simp [built] at asked
  | some t =>
    simp only [built, Option.any_some, Option.map_some, Option.some.injEq, Prod.mk.injEq,
      List.all_eq_true, decide_eq_true_eq] at asked pending last
    obtain ⟨first, there⟩ := last
    obtain ⟨c, cached⟩ := Option.isSome_iff_exists.mp there
    obtain ⟨⟨id, job⟩, found, same⟩ := Option.map_eq_some_iff.mp first
    obtain ⟨rfl, answer⟩ := Prod.mk.inj same
    refine ⟨t, c, job, rfl, cached, ?_, answer⟩
    exact answer_agrees_with_cache built [] run later (List.mem_of_getElem? asked) pending found cached

/-- **What is hidden on the way is counted**, even if the refresh is interrupted later. The debounced
child of a group fails once within its budget while the other child is waited for, then the caller's
scope is cancelled: the answer is that, but the hidden failure has been counted by then. -/
theorem interrupted_after_hidden_failure :
    let failing : Probe := ⟨"p", "p", ⟨[], .outcome (.ok .healthy)⟩,
      [⟨[], .outcome (.error (.ofFault (.probe "down")))⟩]⟩
    let slow : Probe := ⟨"slow", "slow", ⟨[], .outcome (.ok .healthy)⟩,
      [⟨[⟨some 40, true⟩], .outcome (.ok .healthy)⟩]⟩
    let b : Blueprint := .cached 100 (.group "g" [.debounced 1 (.probe failing), .probe slow])
    let run : List Move := [.begin (.force 0 {}), .turn 0, .turn 0, .begin (.derive "c" none none),
      .begin (.force 0 ⟨some "c", none⟩)]
    let later : List Move := [.turn 0, .turn 0, .pass 5, .begin (.cancel ⟨some "c", none⟩)]
    ∃ t job, ofBlueprint? b = some t ∧
      let s := (ofTree (some t) []).moves run
      let m := (s.moves later).machine
      m.jobs[0]? = some (1, job) ∧ m.world.cause? 4 = some .cancelled ∧
        (job.step 1 m.world).1.answer? = some (some .cancelled) ∧
        ∃ p ∈ s.stepsOf 1 later, p.1.world.metrics.count (.suppressed "p") = 0 ∧
          (p.2.step 1 p.1.world).2.2.metrics.count (.suppressed "p") = 1 := by
  intro failing slow b run later
  have last : (ofBlueprint? b).map (fun t =>
      let m := (((ofTree (some t) []).moves run).moves later).machine
      ((m.jobs[0]?).map fun p => (p.1, (p.2.step 1 m.world).1.answer?), m.world.cause? 4)) =
      some (some (1, some (some .cancelled)), some .cancelled) := by decide +kernel
  have counted : (ofBlueprint? b).any fun t =>
      ((ofTree (some t) []).moves run).stepsOf 1 later |>.any fun p =>
        p.1.world.metrics.count (.suppressed "p") = 0 &&
          (p.2.step 1 p.1.world).2.2.metrics.count (.suppressed "p") = 1 := by decide +kernel
  cases built : ofBlueprint? b with
  | none => simp [built] at counted
  | some t =>
    simp only [built, Option.any_some, Option.map_some, Option.some.injEq, Prod.mk.injEq,
      List.any_eq_true, Bool.and_eq_true, decide_eq_true_eq] at last counted
    obtain ⟨last, ended⟩ := last
    obtain ⟨⟨id, job⟩, found, same⟩ := Option.map_eq_some_iff.mp last
    obtain ⟨rfl, answer⟩ := Prod.mk.inj same
    exact ⟨t, job, rfl, found, ended, answer, counted⟩

end Scenario.Session

end HealthTree
