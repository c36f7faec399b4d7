import HealthTree.Proofs.Nesting
import HealthTree.Proofs.Punctual

/-!
# What ticks for a cache

Two kinds of jobs tick for a cache: the job of a loop, which takes the ticks, and the refresh that a
tick has set off. Both run under the scope of the loop, and of no other (`Machine.FromLoops`). So
those that run under a live scope are of the one loop that the cache keeps (`loop_of_ticks`).

All others are of loops that are over, and so are they themselves with their next step
(`Machine.step_ticks_gone`). A patient run leaves none of them when time passes
(`Still.live_of_ticks`).
-/

namespace HealthTree

/-- The scope of the loop that a job ticks for: the job is the loop itself, or a refresh that a tick
has set off. -/
def Job.ticksFor? (slot : Nat) : Job → Option ScopeId
  | loop there own => if there = slot then some own else none
  | refresh there own .tick _ => if there = slot then some own else none
  | refresh _ _ (.start _) _ | refresh _ _ .force _ => none
  | call _ _ _ | work _ _ | watch _ _ | sleep _ => none

namespace Job

variable {id : JobId} {w : World} {job next : Job} {slot : Nat} {own : ScopeId}

/-- A job that ticks for a loop after a step did so before. -/
theorem ticksFor_going (going : (job.step id w).1 = .going next)
    (ticks : next.ticksFor? slot = some own) : job.ticksFor? slot = some own := by
  cases step_goesOn going with
  | @queued _ _ _ purpose | @calling _ _ _ _ purpose => cases purpose <;> exact ticks
  | loop => exact ticks
  | call | next | work | watch | sleep => cases ticks

/-- No command sets off a job that ticks. -/
theorem Asked.not_ticks {known : Check → Prop} {held : List ScopeId}
    (asked : job.Asked known held) : job.ticksFor? slot = none := by
  cases asked <;> rfl

end Job

namespace Machine

variable {m : Machine} {slot : Nat} {ever : List ScopeId}

/-- **Whatever ticks for a cache** runs under the scope of one of these loops. -/
def FromLoops (m : Machine) (slot : Nat) (ever : List ScopeId) : Prop :=
  ∀ p ∈ m.jobs, ∀ own, p.2.ticksFor? slot = some own → own ∈ ever

/-- **A step of a job keeps it so**, if the loop that it sets off is counted among them. -/
theorem FromLoops.takeTurn (from' : m.FromLoops slot ever) (i : Nat) :
    (m.takeTurn i).FromLoops slot
      (ever ++ ((m.loopSetOff? i).filter (·.1 == slot)).toList.map (·.2)) := by
  intro p mem own ticks
  rcases mem_takeTurn mem with beside | ⟨q, found, left | spawned⟩
  · exact List.mem_append_left _ (from' p (List.mem_of_mem_eraseIdx beside) own ticks)
  · have there := List.mem_of_getElem? found
    exact List.mem_append_left _ (from' q there own (Job.ticksFor_going left.2 ticks))
  · obtain ⟨id, job⟩ := p
    rcases Job.step_spawned spawned with ⟨other, scope, rfl, -⟩ | ⟨other, scope, looping, rfl⟩
    · -- a loop is set off, and its scope is the new one
      simp only [Job.ticksFor?] at ticks
      split at ticks <;> cases ticks
      rename_i here
      refine List.mem_append_right _ (List.mem_map.mpr ⟨(other, own), ?_, rfl⟩)
      rw [loopSetOff?, found, Option.bind_some, spawned]
      simp [Spawned.loop?, here]
    · -- a refresh is set off by a tick, under the scope of the loop
      have same : q.2.ticksFor? slot = some own := looping ▸ ticks
      exact List.mem_append_left _ (from' q (List.mem_of_getElem? found) own same)

theorem FromLoops.touch {known : Check → Prop} {p p' : Machine × List ScopeId}
    (from' : p.1.FromLoops slot ever) (touch : Touch known p p') : p'.1.FromLoops slot ever := by
  cases touch with
  | @submit m held job asked =>
    intro q mem own ticks
    rcases List.mem_append.mp mem with old | new
    · exact from' q old own ticks
    · cases List.mem_singleton.mp new
      cases asked.not_ticks.symm.trans ticks
  | stop m held there =>
    intro q mem
    exact from' q ((m.stop_jobs there).1 ▸ mem)
  | abort m held id =>
    intro q mem
    exact from' q ((m.abort_jobs id).1 mem)
  | background | derive | cancel | forget => exact from'

end Machine

namespace Scenario.Session

variable {known : Check → Prop} {s : Session} {held : List ScopeId} {slot : Nat}
  {ever : List ScopeId}

theorem move_fromLoops (within : s.Within known held) (from' : s.machine.FromLoops slot ever)
    (next : Move) : (s.move next).machine.FromLoops slot
      (ever ++ ((s.loopSetOff? next).filter (·.1 == slot)).toList.map (·.2)) := by
  have rest (from' : s.machine.FromLoops slot ever) : s.machine.FromLoops slot (ever ++ []) := by
    rwa [List.append_nil]
  rcases move_cases within next with
    ⟨⟨_, touched⟩, -, none⟩ | ⟨i, rfl⟩ | ⟨ms, rfl⟩ | ⟨given, rfl⟩
  · have kept := touched.touches.keep (I := fun p => p.1.FromLoops slot ever)
      (fun touch from' => from'.touch touch) from'
    simpa [none] using kept
  · exact from'.takeTurn i
  · exact rest from'
  · exact rest from'

theorem moves_fromLoops (within : s.Within known held) (from' : s.machine.FromLoops slot ever)
    (run : List Move) :
    (s.moves run).machine.FromLoops slot (ever ++ s.loopsSetOff slot run) := by
  induction run generalizing s held ever with
  | nil =>
    rw [loopsSetOff, List.append_nil]
    exact from'
  | cons next rest ih =>
    obtain ⟨held', within'⟩ := move_within within next
    rw [loopsSetOff, ← List.append_assoc]
    exact ih within' (move_fromLoops within from' next)

open CheckTree (ofBlueprint?)

/-- **Whatever ticks for a cache under a live scope** is of the loop that the cache keeps. -/
theorem loop_of_ticks {b : Blueprint} {t : CheckTree} (built : ofBlueprint? b = some t)
    (before : List Event) {run : List Move} {p : JobId × Job}
    (mem : p ∈ ((ofTree (some t) before).moves run).machine.jobs) {own : ScopeId}
    (ticks : p.2.ticksFor? slot = some own)
    (live : ((ofTree (some t) before).moves run).machine.world.cause? own = none) :
    ∃ l, ((ofTree (some t) before).moves run).machine.world.loops[slot]? = some (some l) ∧
      l.scope = own := by
  obtain ⟨plan, planned⟩ := CheckTree.planned_ofBlueprint built
  have first : (ofTree (some t) before).machine.FromLoops slot [] := nofun
  have from' := moves_fromLoops (planned.within before) first run
  exact (oneLoop_of_moves built before run slot).kept own (from' p mem own ticks) live

end Scenario.Session

/-! ## Jobs of loops that are over -/

/-- **A loop whose scope has ended is over with its next step**, with or without one more tick. -/
theorem Job.step_loop_gone (id : JobId) {w : World} {own : ScopeId} (ended : w.cause? own ≠ none)
    (slot : Nat) : ((Job.loop slot own).step id w).1 = .gone := by
  simp only [Job.step]
  cases w.cache? slot with
  | none => rfl
  | some c =>
    have cases := w.stepLoop_cases slot c own
    simp only
    generalize w.stepLoop slot c own = r at cases ⊢
    cases cases with
    | stops | ticksLast | skipsLast => rfl
    | rests live | ticks live | skips live => exact absurd live ended

/-- **A refresh of a tick is over with its next step** once its scope has ended, whatever its call
comes to in that. -/
theorem Job.step_tick_gone {w : World} {jobs : List (JobId × Job)} {held : List ScopeId}
    (nested : w.scopes.Nested) (sheltered : w.Sheltered jobs held) {id : JobId} {slot : Nat}
    {own : ScopeId} {phase : Phase} (mem : (id, .refresh slot own .tick phase) ∈ jobs)
    (ended : w.cause? own ≠ none) : ((Job.refresh slot own .tick phase).step id w).1 = .gone := by
  simp only [Job.step]
  cases w.cache? slot with
  | none => rfl
  | some c =>
    simp only [World.stepRefresh_eq]
    cases attempted : w.attempt id slot c own phase with
    | refused cause w₁ => rfl
    | waits w₁ => exact absurd (World.live_of_waits attempted) ended
    | calls limit flight w₁ =>
      have isOver := sheltered.limit_ended nested mem ended attempted
      simp only [World.goOnRefresh_eq]
      cases turn : (w₁.callInner limit flight).1 with
      | still next => exact absurd (World.live_of_still turn).1 isOver
      | panicked => rfl
      | done o =>
        simp only [World.refreshTurn, World.finishRefresh]
        split <;> rfl

namespace Machine

variable {m : Machine} {held : List ScopeId} {slot : Nat}

/-- **What ticks for a loop that is over is over with its next step.** -/
theorem step_ticks_gone (nested : m.Nested) (sheltered : m.Sheltered held) {p : JobId × Job}
    (mem : p ∈ m.jobs) {own : ScopeId} (ticks : p.2.ticksFor? slot = some own)
    (ended : m.world.cause? own ≠ none) : (p.2.step p.1 m.world).1 = .gone := by
  obtain ⟨id, job⟩ := p
  cases job with
  | loop there own' =>
    simp only [Job.ticksFor?] at ticks
    split at ticks <;> cases ticks
    exact Job.step_loop_gone id ended there
  | refresh there own' purpose phase =>
    cases purpose with
    | tick =>
      simp only [Job.ticksFor?] at ticks
      split at ticks <;> cases ticks
      exact Job.step_tick_gone nested sheltered mem ended
    | start | force => cases ticks
  | call | work | watch | sleep => cases ticks

/-- **Where no step changes anything nothing ticks for a loop that is over.** -/
theorem Still.live_of_ticks (still : m.Still) (nested : m.Nested) (sheltered : m.Sheltered held)
    {p : JobId × Job} (mem : p ∈ m.jobs) {own : ScopeId} (ticks : p.2.ticksFor? slot = some own) :
    m.world.cause? own = none := by
  by_contra ended
  have going : (p.2.step p.1 m.world).1 = .going p.2 := congrArg Prod.fst (still p mem)
  cases (step_ticks_gone nested sheltered mem ticks ended).symm.trans going

end Machine

end HealthTree
