import HealthTree.Proofs.Requests
import HealthTree.Proofs.Ticking

/-!
# After a loop has ended

A loop leaves work behind: the job that takes its ticks, and a refresh that a tick has set off. Once
the scope of every loop that was set off for a cache has ended, nothing comes of them
(`Session.quiet_while_stopped`): a refresh that is under way for a tick commits nothing, whatever
its call has come to, and what is committed for the cache was asked for by a start or by a caller.

A loop that has ended is ready to see that, and it may be ready to take a tick at the same instant.
If it takes that first (`Session.LastTick`), the tick sets off a refresh that calls nothing any
more, or it is skipped. There is one such step at most for each loop, and it is the last of the
loop.

A loop ends when it is stopped, and when the scope of the start that set it off ends or any scope
above that does (`quiet_once_loop_ended`). The outcome committed last goes on to be served.
-/

namespace HealthTree

/-! ## Loops that have not seen yet that they are over -/

/-- The job takes the ticks of this cache. -/
def Job.loops (slot : Nat) : Job → Bool
  | loop there _ => there == slot
  | call _ _ _ | refresh _ _ _ _ | work _ _ | watch _ _ | sleep _ => false

theorem Job.ticks_of_loops {slot : Nat} {job : Job} (loops : job.loops slot = true) :
    ∃ own, job.ticksFor? slot = some own := by
  cases job with
  | loop there own => exact ⟨own, if_pos (beq_iff_eq.mp loops)⟩
  | call | refresh | work | watch | sleep => cases loops

/-- A job that goes on takes ticks if it did so before. -/
theorem Job.loops_going {id : JobId} {w : World} {job next : Job}
    (going : (job.step id w).1 = .going next) (slot : Nat) : next.loops slot = job.loops slot := by
  cases Job.step_goesOn going <;> rfl

namespace Machine

/-- How many jobs take ticks of a cache. -/
def loopJobs (m : Machine) (slot : Nat) : Nat :=
  m.jobs.countP fun p => p.2.loops slot

variable {m : Machine} {slot i : Nat} {p : JobId × Job}

/-- The job that takes a step is counted beside the others, -/
theorem loopJobs_beside (found : m.jobs[i]? = some p) : m.loopJobs slot =
    (m.jobs.eraseIdx i).countP (fun p => p.2.loops slot) + (p.2.loops slot).toNat := by
  rw [loopJobs, ← (beside_perm found).countP_eq, List.countP_cons]
  cases p.2.loops slot <;> rfl

/-- and so is what is left of it, if it sets off no loop. -/
theorem loopJobs_turn (found : m.jobs[i]? = some p)
    (none : (m.loopSetOff? i).filter (·.1 == slot) = none) : (m.takeTurn i).loopJobs slot =
      (m.jobs.eraseIdx i).countP (fun p => p.2.loops slot) +
        ((p.2.step p.1 m.world).1.left p.1).countP fun p => p.2.loops slot := by
  rw [loopSetOff?, found, Option.bind_some] at none
  have quiet : (p.2.step p.1 m.world).2.1.toList.countP (fun p => p.2.loops slot) = 0 := by
    cases spawned : (p.2.step p.1 m.world).2.1 with
    | none => rfl
    | some q =>
      obtain ⟨new, job⟩ := q
      rw [spawned] at none
      rcases Job.step_spawned spawned with ⟨other, own, rfl, -⟩ | ⟨other, scope, -, rfl⟩
      · by_cases here : other = slot
        · simp [Spawned.loop?, Option.filter, here] at none
        · simp [Job.loops, here]
      · rfl
  simp only [loopJobs, takeTurn, found, List.countP_append, quiet, Nat.add_zero]

theorem loopJobs_takeTurn (none : (m.loopSetOff? i).filter (·.1 == slot) = none) :
    (m.takeTurn i).loopJobs slot ≤ m.loopJobs slot := by
  cases found : m.jobs[i]? with
  | none => simp only [takeTurn, found, Nat.le_refl]
  | some p =>
    rw [loopJobs_turn found none, loopJobs_beside found]
    refine Nat.add_le_add_left ?_ _
    cases turn : (p.2.step p.1 m.world).1 with
    | going next =>
      rw [← Job.loops_going turn slot]
      simp only [JobTurn.left, List.countP_singleton]
      cases next.loops slot <;> exact Nat.le_refl _
    | finished | gone => exact Nat.zero_le _

/-- **A loop that has ended is counted no more once it has taken its last step.** -/
theorem loopJobs_gone {id : JobId} {own : ScopeId} (found : m.jobs[i]? = some (id, .loop slot own))
    (none : (m.loopSetOff? i).filter (·.1 == slot) = none) (ended : m.world.cause? own ≠ .none) :
    (m.takeTurn i).loopJobs slot + 1 = m.loopJobs slot := by
  rw [loopJobs_turn found none, loopJobs_beside found, Job.step_loop_gone id ended slot]
  simp [JobTurn.left, Job.loops]

/-- No command sets off a job that takes ticks. -/
theorem Touch.loopJobs {known : Check → Prop} {p p' : Machine × List ScopeId}
    (touch : Touch known p p') : p'.1.loopJobs slot ≤ p.1.loopJobs slot := by
  cases touch with
  | @submit m held job asked =>
    have other : [(m.world.nextJob, job)].countP (fun p => p.2.loops slot) = 0 := by
      cases asked <;> rfl
    show (m.jobs ++ [(m.world.nextJob, job)]).countP _ ≤ _
    rw [List.countP_append, other]
    exact Nat.le_refl _
  | stop m held there => simp only [Machine.loopJobs, (m.stop_jobs there).1, Nat.le_refl]
  | abort m held id =>
    unfold Machine.loopJobs Machine.abort
    cases m.jobs.lookup id with
    | none => exact Nat.le_refl _
    | some job => exact List.filter_sublist.countP_le
  | background | derive | cancel | forget => exact Nat.le_refl _

end Machine

namespace Scenario.Session

variable {known : Check → Prop} {s : Session} {held : List ScopeId} {slot : Nat}

/-- **The last tick of a loop**: its scope has ended, and yet it takes one tick more. -/
def LastTick (s : Session) (slot : Nat) (next : Move) : Prop :=
  ∃ i id own c, next = .turn i ∧ s.machine.jobs[i]? = some (id, .loop slot own) ∧
    s.machine.world.cache? slot = some c ∧ s.machine.world.cause? own ≠ none ∧
    s.machine.world.tickLeft c own = true

theorem move_loopJobs (within : s.Within known held) {next : Move}
    (none : (s.loopSetOff? next).filter (·.1 == slot) = none) :
    (s.move next).machine.loopJobs slot ≤ s.machine.loopJobs slot := by
  have touches {s' : Session} (touched : ∃ held', s.Touched known held s' held') :
      s'.machine.loopJobs slot ≤ s.machine.loopJobs slot := by
    obtain ⟨held', touches, -⟩ := touched
    exact touches.keep (I := fun p => p.1.loopJobs slot ≤ s.machine.loopJobs slot)
      (fun touch fewer => Nat.le_trans touch.loopJobs fewer) (Nat.le_refl _)
  cases next with
  | begin c => exact touches (begin_touches within c)
  | aside name c => exact touches (setAside_touches within name c)
  | turn i => exact Machine.loopJobs_takeTurn none
  | pass | grace => exact Nat.le_refl _

/-- A run that sets off no loop begins with a move that sets off none. -/
theorem loopsSetOff_cons_nil {next : Move} {rest : List Move} :
    s.loopsSetOff slot (next :: rest) = [] ↔
      (s.loopSetOff? next).filter (·.1 == slot) = none ∧
        (s.move next).loopsSetOff slot rest = [] := by
  simp [loopsSetOff]

theorem moves_loopJobs (within : s.Within known held) {run : List Move}
    (none : s.loopsSetOff slot run = []) :
    (s.moves run).machine.loopJobs slot ≤ s.machine.loopJobs slot := by
  induction run generalizing s held with
  | nil => exact Nat.le_refl _
  | cons next rest ih =>
    obtain ⟨first, later⟩ := loopsSetOff_cons_nil.mp none
    obtain ⟨held', within'⟩ := move_within within next
    exact Nat.le_trans (ih within' later) (move_loopJobs within first)

end Scenario.Session

/-- The mark is of this cache, and nobody has asked for it. -/
def Mark.unasked (slot : Nat) (k : Mark) : Bool :=
  k.slot == slot && !k.requested

theorem Mark.unasked_iff {slot : Nat} {k : Mark} :
    k.unasked slot = true ↔ k.slot = slot ∧ k.requested = false := by
  simp [unasked]

/-- What is recorded for a series does not depend on the others. -/
theorem Mark.record_get? {m m' : Metrics} {series : Series} (same : m'.get? series = m.get? series)
    (k : Mark) : (k.record m').get? series = (k.record m).get? series := by
  have bump (s : Series) : (m'.bump s).get? series = (m.bump s).get? series := by
    rw [Metrics.bump, Metrics.bump, Metrics.get?_set, Metrics.get?_set]
    by_cases here : series = s
    · rw [if_pos here, if_pos here, Metrics.count, Metrics.count, ← here, same]
    · rw [if_neg here, if_neg here, same]
  cases k with
  | committed slot name purpose o =>
    rw [record, record, Metrics.get?_set, Metrics.get?_set, bump]
  | skipped slot name => exact bump _

/-- **Ticks that are skipped count for nothing but skips**: without some of them the other series
are the same. -/
theorem Mark.recordAll_filter {m m' : Metrics} {series : Series} {keep : Mark → Bool}
    (other : ∀ name, series ≠ .skipped name) (same : m'.get? series = m.get? series)
    {ks : List Mark} (left : ∀ k ∈ ks, keep k = false → ∃ slot name, k = .skipped slot name) :
    ((ks.filter keep).foldl record m').get? series = (ks.foldl record m).get? series := by
  induction ks generalizing m m' with
  | nil => exact same
  | cons k rest ih =>
    obtain ⟨first, left⟩ := List.forall_mem_cons.mp left
    cases kept : keep k with
    | true =>
      rw [List.filter_cons_of_pos kept]
      exact ih (record_get? same k) left
    | false =>
      rw [List.filter_cons_of_neg (Bool.eq_false_iff.mp kept)]
      refine ih (same.trans ?_) left
      obtain ⟨slot, name, rfl⟩ := first kept
      rw [record, Metrics.bump, Metrics.get?_set, if_neg (other name)]

/-! ## What ends a loop -/

namespace Machine

/-- **A cache whose loop is stopped has none that runs.** -/
theorem stop_runs (m : Machine) (slot : Nat) : (m.stop slot).runs slot = false := by
  refine Bool.eq_false_iff.mpr fun runs => ?_
  obtain ⟨l, loop, -⟩ := runs_iff.mp runs
  rw [stop_loops, List.getElem?_modify_eq] at loop
  obtain ⟨_, -, none⟩ := Option.map_eq_some_iff.mp loop
  cases none

variable {m : Machine} {slot : Nat} {held : List ScopeId}

/-- A loop that does not run is not brought back by stopping others. -/
theorem stops_idle (looped : m.Looped held) (idle : m.runs slot = false) (slots : List Nat) :
    (slots.foldl stop m).runs slot = false := by
  induction slots generalizing m with
  | nil => exact idle
  | cons other rest ih =>
    refine ih (looped.stop other) (Bool.eq_false_iff.mpr fun runs => ?_)
    obtain ⟨l, loop, live⟩ := runs_iff.mp runs
    have spares := stop_spares looped.knows other
    have before := spares.old slot l loop
    have alive : m.world.cause? l.scope = none := by
      by_contra ended
      exact spares.stays (looped.knows slot l before) ended live
    rw [runs_iff.mpr ⟨l, before, alive⟩] at idle
    cases idle

/-- **If all loops are stopped, none of them runs.** -/
theorem stops_runs (looped : m.Looped held) {slots : List Nat} (mem : slot ∈ slots) :
    (slots.foldl stop m).runs slot = false := by
  induction slots generalizing m with
  | nil => cases mem
  | cons there rest ih =>
    rcases List.mem_cons.mp mem with rfl | mem
    · exact stops_idle (looped.stop slot) (m.stop_runs slot) rest
    · exact ih (looped.stop there) mem

end Machine

namespace Scenario.Session

variable {s : Session} {held : List ScopeId} {slot : Nat}

/-- **After a command that stops the loop of a cache, none runs for it.** -/
theorem move_stops (looped : s.machine.Looped held) {next : Move} (stops : next.stops slot = true) :
    (s.move next).machine.runs slot = false := by
  have halts {c : Command} (stops : c.stops slot = true) :
      s.job? c = none ∧ (s.instant c).2.machine.runs slot = false := by
    cases c with
    | stop there =>
      cases beq_iff_eq.mp stops
      exact ⟨rfl, s.machine.stop_runs _⟩
    | stopAll =>
      refine ⟨rfl, ?_⟩
      by_cases there : slot < s.machine.world.caches.length
      · exact Machine.stops_runs looped (List.mem_range.mpr there)
      · refine Machine.stops_idle looped ?_ _
        have none := List.getElem?_eq_none (Nat.le_of_not_lt there)
        rw [Machine.runs, World.cache?, none]
        rfl
    | _ => cases stops
  cases next with
  | begin c =>
    obtain ⟨job, halted⟩ := halts stops
    simpa only [move, begin, job] using halted
  | aside name c =>
    obtain ⟨job, halted⟩ := halts stops
    simpa only [move, setAside, job] using halted
  | turn | pass | grace => cases stops

/-! ## Parts of a run -/

theorem loopsSetOff_append (s : Session) (slot : Nat) (run later : List Move) :
    s.loopsSetOff slot (run ++ later) =
      s.loopsSetOff slot run ++ (s.moves run).loopsSetOff slot later := by
  induction run generalizing s with
  | nil => rfl
  | cons next rest ih =>
    simp only [List.cons_append, loopsSetOff, ih, List.append_assoc]
    rfl

/-- A mark is put down by one of the moves of a run. -/
theorem mem_marks {k : Mark} {run : List Move} (mem : k ∈ s.marks run) :
    ∃ first next rest, run = first ++ next :: rest ∧ (s.moves first).mark? next = some k := by
  induction run generalizing s with
  | nil => cases mem
  | cons next rest ih =>
    rcases List.mem_append.mp mem with here | later
    · exact ⟨[], next, rest, rfl, Option.mem_toList.mp here⟩
    · obtain ⟨first, next', rest', split, made⟩ := ih later
      exact ⟨next :: first, next', rest', by rw [split]; rfl, made⟩

/-- What happens to a loop happens in one of the moves of a run. -/
theorem mem_loopEvents {now : Nat} {e : LoopEvent} {run : List Move}
    (mem : (now, e) ∈ s.loopEvents slot run) :
    ∃ first next rest, run = first ++ next :: rest ∧
      (s.moves first).loopEvent? next = some e := by
  induction run generalizing s with
  | nil => cases mem
  | cons next rest ih =>
    rcases List.mem_append.mp mem with here | later
    · obtain ⟨e', event, same⟩ := Option.map_eq_some_iff.mp (Option.mem_toList.mp here)
      cases same
      exact ⟨[], next, rest, rfl, (Option.filter_eq_some_iff.mp event).1⟩
    · obtain ⟨first, next', rest', split, event⟩ := ih later
      exact ⟨next :: first, next', rest', by rw [split]; rfl, event⟩

/-! ## While no loop runs -/

open CheckTree (ofBlueprint?)

section

variable {b : Blueprint} {t : CheckTree} (built : ofBlueprint? b = some t) (before : List Event)
include built

/-- **While no loop runs for a cache, whatever ticks for it is under a scope that has ended.** -/
theorem ended_of_idle {run : List Move}
    (idle : ((ofTree (some t) before).moves run).machine.runs slot = false) {p : JobId × Job}
    (mem : p ∈ ((ofTree (some t) before).moves run).machine.jobs) {own : ScopeId}
    (ticks : p.2.ticksFor? slot = some own) :
    ((ofTree (some t) before).moves run).machine.world.cause? own ≠ none := by
  intro live
  obtain ⟨l, loop, rfl⟩ := loop_of_ticks built before mem ticks live
  rw [Machine.runs_iff.mpr ⟨l, loop, live⟩] at idle
  cases idle

/-- **No loop runs until one is set off.** -/
theorem idle_stays {run later : List Move}
    (idle : ((ofTree (some t) before).moves run).machine.runs slot = false)
    (none : ((ofTree (some t) before).moves run).loopsSetOff slot later = []) :
    (((ofTree (some t) before).moves run).moves later).machine.runs slot = false := by
  refine Bool.eq_false_iff.mpr fun runs => ?_
  obtain ⟨l, loop, live⟩ := Machine.runs_iff.mp runs
  obtain ⟨held, within, sheltered, looped⟩ := looped_of_moves built before run
  have one := oneLoop_of_moves built before run slot
  have one' := moves_oneLoop within sheltered looped one later
  rw [none, List.append_nil] at one'
  have mem := one'.listed l loop
  have alive := live_of_moves within later (one.known l.scope mem) live
  obtain ⟨l', loop', same⟩ := one.kept l.scope mem alive
  rw [Machine.runs_iff.mpr ⟨l', loop', same ▸ alive⟩] at idle
  cases idle

/-- While no loop runs for a cache, a move puts down of it what was asked for, or that a loop has
skipped its last tick. -/
theorem requested_of_idle {run : List Move}
    (idle : ((ofTree (some t) before).moves run).machine.runs slot = false) {next : Move} {k : Mark}
    (made : ((ofTree (some t) before).moves run).mark? next = some k) (here : k.slot = slot) :
    k.requested = true ∨ (∃ name, k = .skipped slot name) ∧
      ((ofTree (some t) before).moves run).LastTick slot next := by
  obtain ⟨held, -, sheltered, -⟩ := looped_of_moves built before run
  cases next with
  | begin | aside | pass | grace => cases made
  | turn i =>
    obtain ⟨p, found, made⟩ := Option.bind_eq_some_iff.mp made
    have mem := List.mem_of_getElem? found
    cases k with
    | committed there name purpose o =>
      obtain ⟨scope, phase, is, live⟩ := Job.live_of_committed (sheltered.scopes p mem) made
      cases purpose with
      | start | force => exact .inl rfl
      | tick =>
        have ticks : p.2.ticksFor? slot = some scope := by rw [is]; exact if_pos here
        exact absurd live (ended_of_idle built before idle mem ticks)
    | skipped there name =>
      cases (here : there = slot)
      obtain ⟨id, job⟩ := p
      obtain ⟨own, c, rfl, cached, takes⟩ := Job.takes_of_skipped made
      have ended := ended_of_idle built before idle mem (if_pos rfl)
      obtain ⟨cause, isOver⟩ := Option.ne_none_iff_exists'.mp ended
      simp only [World.takesTick, isOver] at takes
      exact .inr ⟨⟨name, rfl⟩, i, id, own, c, rfl, found, cached, ended, takes⟩

/-- And it takes no tick. -/
theorem no_tick_of_idle {run : List Move}
    (idle : ((ofTree (some t) before).moves run).machine.runs slot = false) (next : Move) :
    ((ofTree (some t) before).moves run).loopEvent? next ≠ some (.tick slot) := by
  intro event
  cases next with
  | begin | aside | pass | grace => cases event
  | turn i =>
    obtain ⟨p, found, event⟩ := Option.bind_eq_some_iff.mp event
    obtain ⟨own, c, looping, -, live, -⟩ := Job.loop_of_tick event
    have ticks : p.2.ticksFor? slot = some own := by rw [looping]; exact if_pos rfl
    exact ended_of_idle built before idle (List.mem_of_getElem? found) ticks live

/-- **Each loop that has ended skips one tick at most**, and is gone with that. -/
theorem skips_le {run later : List Move}
    (idle : ((ofTree (some t) before).moves run).machine.runs slot = false)
    (none : ((ofTree (some t) before).moves run).loopsSetOff slot later = []) :
    (((ofTree (some t) before).moves run).marks later).countP (Mark.unasked slot) ≤
      ((ofTree (some t) before).moves run).machine.loopJobs slot := by
  induction later generalizing run with
  | nil => exact Nat.zero_le _
  | cons next rest ih =>
    obtain ⟨held, within, -, -⟩ := looped_of_moves built before run
    obtain ⟨first, later⟩ := loopsSetOff_cons_nil.mp none
    have step :
        (((ofTree (some t) before).moves run).mark? next).toList.countP (Mark.unasked slot) +
        (((ofTree (some t) before).moves run).move next).machine.loopJobs slot ≤
          ((ofTree (some t) before).moves run).machine.loopJobs slot := by
      cases made : ((ofTree (some t) before).moves run).mark? next with
      | none => simpa using move_loopJobs within first
      | some k =>
        cases unasked : k.unasked slot with
        | false => simpa [unasked] using move_loopJobs within first
        | true =>
          obtain ⟨here, other⟩ := Mark.unasked_iff.mp unasked
          rcases requested_of_idle built before idle made here with asked | ⟨-, last⟩
          · cases other.symm.trans asked
          · obtain ⟨i, id, own, c, rfl, found, -, ended, -⟩ := last
            have gone := Machine.loopJobs_gone found first ended
            rw [Option.toList_some, List.countP_singleton, unasked, if_pos rfl, Nat.add_comm]
            exact Nat.le_of_eq gone
    have quiet : ((ofTree (some t) before).moves run).loopsSetOff slot [next] = [] := by
      simp [loopsSetOff, first]
    have stays := idle_stays built before idle quiet
    have rest := @ih (run ++ [next]) (by rwa [moves_append]) (by rwa [moves_append])
    rw [moves_append] at rest
    rw [marks, List.countP_append]
    exact Nat.le_trans (Nat.add_le_add_left rest _) step

/-- **A patient run comes to the last step of a loop that has ended before time passes.** -/
theorem now_of_loopJobs {run later : List Move}
    (idle : ((ofTree (some t) before).moves run).machine.runs slot = false)
    (none : ((ofTree (some t) before).moves run).loopsSetOff slot later = [])
    (patient : ((ofTree (some t) before).moves run).Patient later)
    (left : (((ofTree (some t) before).moves run).moves later).machine.loopJobs slot ≠ 0) :
    (((ofTree (some t) before).moves run).moves later).machine.now =
      ((ofTree (some t) before).moves run).machine.now := by
  induction later generalizing run with
  | nil => rfl
  | cons next rest ih =>
    obtain ⟨held, within, sheltered, -⟩ := looped_of_moves built before run
    have nested := nested_of_moves built before run
    have fewer := moves_loopJobs within none
    obtain ⟨first, later⟩ := loopsSetOff_cons_nil.mp none
    have quiet : ((ofTree (some t) before).moves run).loopsSetOff slot [next] = [] := by
      simp [loopsSetOff, first]
    have stays := idle_stays built before idle quiet
    have after := @ih (run ++ [next]) (by rwa [moves_append]) (by rwa [moves_append])
      (by rw [moves_append]; exact patient.2) (by rwa [moves_append])
    rw [moves_append] at after
    refine Eq.trans after ?_
    have touches {s' : Session}
        (touched : ∃ held',
          ((ofTree (some t) before).moves run).Touched (fun _ => True) held s' held') :
        s'.machine.now = ((ofTree (some t) before).moves run).machine.now := by
      obtain ⟨_, touched⟩ := touched
      exact (Machine.Touches.kept touched.touches).now
    cases next with
    | begin c => exact touches (begin_touches within c)
    | aside name c => exact touches (setAside_touches within name c)
    | turn i => exact (Machine.takeTurn_later _ i).now
    | grace given => rfl
    | pass ms =>
      -- whatever ticks now has ended, and so nothing would be still
      exfalso
      obtain ⟨p, mem, loops⟩ := List.countP_pos_iff.mp
        (Nat.lt_of_lt_of_le (Nat.pos_of_ne_zero left) fewer)
      obtain ⟨own, ticks⟩ := Job.ticks_of_loops loops
      exact ended_of_idle built before idle mem ticks
        (patient.1.1.live_of_ticks nested sheltered mem ticks)

end

/-- **Nothing comes of the loop of a cache that has ended**, over a run from this session on. -/
structure QuietOver (s : Session) (slot : Nat) (run : List Move) : Prop where
  /-- No loop runs for the cache, -/
  stopped : (s.moves run).machine.runs slot = false
  /-- and none takes a tick and goes on. -/
  tickless : ∀ now, (now, .tick slot) ∉ s.loopEvents slot run
  /-- A refresh that a tick has set off is over with its next step. It does not call the inner check
  in that; a call that is under way may go on once more, but whatever it comes to is neither
  committed nor recorded. -/
  idle : ∀ id own phase, (id, .refresh slot own .tick phase) ∈ (s.moves run).machine.jobs →
    let w := (s.moves run).machine.world
    let job := Job.refresh slot own .tick phase
    (job.step id w).1 = .gone ∧ job.Spares id w ∧
      (∀ limit flight w₁, job.inside id w = some (limit, flight, w₁) →
        phase = .calling limit flight ∧ flight.begun = true) ∧
      ∀ (c : Cache) (o : Outcome), (w.finishRefresh slot c own .tick o).2.2.states = w.states ∧
        (w.finishRefresh slot c own .tick o).2.2.metrics = w.metrics
  /-- What is committed for the cache was asked for, and nothing else is put down of it but that a
  tick is skipped: -/
  requested : ∀ k ∈ s.marks run, k.slot = slot →
    k.requested = true ∨ ∃ name, k = .skipped slot name
  /-- one at most by each loop that has not seen yet that it is over, -/
  skips : (s.marks run).countP (Mark.unasked slot) ≤ s.machine.loopJobs slot
  /-- in its last step, to which a patient run comes before time passes. -/
  lastTicks : ∀ first next rest k, run = first ++ next :: rest →
    (s.moves first).mark? next = some k → k.unasked slot = true →
      (s.moves first).LastTick slot next ∧
        (s.Patient first → (s.moves first).machine.now = s.machine.now)
  /-- The state of the cache is what was committed last of this, or what it was before, -/
  state : ∀ c c', s.machine.world.cache? slot = some c →
    (s.moves run).machine.world.cache? slot = some c' →
      c'.state = (((s.marks run).filterMap (Mark.outcome? slot)).getLast?.map Snapshot.ofOutcome).or
          c.state ∧
        ((∀ k ∈ s.marks run, k.slot = slot → k.outcome? slot = none) → c'.serve = c.serve)
  /-- no gauge and no counter moves but by what is put down, -/
  recorded : ((s.marks run).foldl Mark.record s.machine.world.metrics).Agree
    (s.moves run).machine.world.metrics
  /-- and the gauge and the counters of refreshes do not move by what nobody has asked for. -/
  unmoved : ∀ series : Series, series.isSuppressed = false → (∀ name, series ≠ .skipped name) →
    (((s.marks run).filter fun k => !k.unasked slot).foldl Mark.record
        s.machine.world.metrics).get? series =
      (s.moves run).machine.world.metrics.get? series

section

variable {b : Blueprint} {t : CheckTree} (built : ofBlueprint? b = some t) (before : List Event)
include built

/-- A refresh that a tick has set off is over with its next step once no loop runs, and nothing is
committed of it. -/
theorem tick_over_of_idle {run : List Move}
    (idle : ((ofTree (some t) before).moves run).machine.runs slot = false) {id : JobId}
    {own : ScopeId} {phase : Phase}
    (mem : (id, .refresh slot own .tick phase) ∈
      ((ofTree (some t) before).moves run).machine.jobs) :
    let w := ((ofTree (some t) before).moves run).machine.world
    let job := Job.refresh slot own .tick phase
    (job.step id w).1 = .gone ∧ job.Spares id w ∧
      (∀ limit flight w₁, job.inside id w = some (limit, flight, w₁) →
        phase = .calling limit flight ∧ flight.begun = true) ∧
      ∀ (c : Cache) (o : Outcome), (w.finishRefresh slot c own .tick o).2.2.states = w.states ∧
        (w.finishRefresh slot c own .tick o).2.2.metrics = w.metrics := by
  intro w job
  have ticks : job.ticksFor? slot = some own := if_pos rfl
  have ended := ended_of_idle built before idle mem ticks
  have isOver : (w.cause? own).isSome := Option.isSome_iff_ne_none.mpr ended
  obtain ⟨_, -, sheltered, -⟩ := looped_of_moves built before run
  have nested := nested_of_moves built before run
  refine ⟨Job.step_tick_gone nested sheltered mem ended, Job.spares_of_ended sheltered mem ended,
    fun limit flight w₁ made => ?_, fun c o => ⟨?_, ?_⟩⟩
  · obtain ⟨calling, -, begun, -⟩ := Job.inside_of_ended nested sheltered mem ended made
    exact ⟨calling, begun⟩
  · rw [World.finishRefresh_states, if_pos isOver]
    rfl
  · rw [World.finishRefresh_metrics, if_pos isOver]

/-- A cache is in the state that was committed last of what is put down, and serves what it did
before if nothing was. -/
theorem state_of_marks (run : List Move) {later : List Move} {c c' : Cache}
    (cached : ((ofTree (some t) before).moves run).machine.world.cache? slot = some c)
    (cached' : (((ofTree (some t) before).moves run).moves later).machine.world.cache? slot =
      some c') :
    let put := ((ofTree (some t) before).moves run).marks later
    c'.state = ((put.filterMap (Mark.outcome? slot)).getLast?.map Snapshot.ofOutcome).or c.state ∧
      ((∀ k ∈ put, k.slot = slot → k.outcome? slot = none) → c'.serve = c.serve) := by
  intro put
  obtain ⟨held, within, sheltered, -⟩ := looped_of_moves built before run
  have states := moves_state_marked within sheltered later slot
  rw [World.states_at cached', World.states_at cached, Option.map_some] at states
  have state := Option.some.inj states
  refine ⟨state, fun spared => ?_⟩
  have uncommitted (k : Mark) (mem : k ∈ put) : k.outcome? slot = none := by
    by_cases here : k.slot = slot
    · exact spared k mem here
    · exact Mark.outcome?_of_ne here
  rw [List.filterMap_eq_nil_iff.mpr uncommitted] at state
  obtain ⟨c₁, again, make⟩ := World.cache?_of_makes (moves_makes within later) cached
  cases cached'.symm.trans again
  have name : c'.name = c.name := congrArg (fun make => make.1.name) make
  have same : c'.state = c.state := state
  rw [Cache.serve, Cache.serve, same, name]

/-- **While no loop is set off, nothing comes of those that have ended.** -/
theorem quiet_while_stopped {run later : List Move}
    (idle : ((ofTree (some t) before).moves run).machine.runs slot = false)
    (none : ((ofTree (some t) before).moves run).loopsSetOff slot later = []) :
    ((ofTree (some t) before).moves run).QuietOver slot later := by
  obtain ⟨held, within, -, -⟩ := looped_of_moves built before run
  -- no loop runs at any point of the run that follows
  have before' {first next rest} (split : later = first ++ next :: rest) :
      ((ofTree (some t) before).moves run).loopsSetOff slot first = [] := by
    rw [split, loopsSetOff_append] at none
    exact (List.append_eq_nil_iff.mp none).1
  have throughout {first next rest} (split : later = first ++ next :: rest) :
      ((ofTree (some t) before).moves (run ++ first)).machine.runs slot = false := by
    rw [moves_append]
    exact idle_stays built before idle (before' split)
  have stopped := idle_stays built before idle none
  have requested (k : Mark) (mem : k ∈ ((ofTree (some t) before).moves run).marks later)
      (here : k.slot = slot) : k.requested = true ∨ ∃ name, k = .skipped slot name := by
    obtain ⟨first, next, rest, split, made⟩ := mem_marks mem
    rw [← moves_append] at made
    exact (requested_of_idle built before (throughout split) made here).imp_right And.left
  refine ⟨stopped, fun now mem => ?_, fun id own phase mem => ?_, requested,
    skips_le built before idle none, fun first next rest k split made unasked => ?_,
    fun c c' cached cached' => state_of_marks built before run cached cached',
    moves_metrics within later, fun series shown other => ?_⟩
  · obtain ⟨first, next, rest, split, event⟩ := mem_loopEvents mem
    rw [← moves_append] at event
    exact no_tick_of_idle built before (throughout split) next event
  · rw [← moves_append] at stopped mem ⊢
    exact tick_over_of_idle built before stopped mem
  · obtain ⟨here, other⟩ := Mark.unasked_iff.mp unasked
    rw [← moves_append] at made ⊢
    rcases requested_of_idle built before (throughout split) made here with asked | ⟨-, last⟩
    · cases other.symm.trans asked
    · refine ⟨last, fun patient => ?_⟩
      obtain ⟨i, id, own, c, -, found, -⟩ := last
      rw [moves_append] at found ⊢
      refine now_of_loopJobs built before idle (before' split) patient (Nat.ne_of_gt ?_)
      exact List.countP_pos_iff.mpr ⟨_, List.mem_of_getElem? found, beq_self_eq_true slot⟩
  · rw [moves_metrics within later series shown]
    refine Mark.recordAll_filter other rfl fun k mem kept => ?_
    obtain ⟨here, other⟩ := Mark.unasked_iff.mp (by simpa using kept)
    rcases requested k mem here with asked | ⟨name, skipped⟩
    · cases other.symm.trans asked
    · exact ⟨slot, name, skipped⟩

/-- **A loop has ended once it was stopped.** -/
theorem idle_of_stop {run mid : List Move} {next : Move} (mem : next ∈ mid)
    (stops : next.stops slot = true)
    (none : ((ofTree (some t) before).moves run).loopsSetOff slot mid = []) :
    ((ofTree (some t) before).moves (run ++ mid)).machine.runs slot = false := by
  obtain ⟨first, rest, rfl⟩ := List.append_of_mem mem
  obtain ⟨_, -, -, looped⟩ := looped_of_moves built before (run ++ first)
  have split : run ++ (first ++ next :: rest) = (run ++ first ++ [next]) ++ rest := by simp
  have stopped : ((ofTree (some t) before).moves (run ++ first ++ [next])).machine.runs slot =
      false := by
    rw [moves_append]
    exact move_stops looped stops
  have quiet : ((ofTree (some t) before).moves (run ++ first ++ [next])).loopsSetOff slot rest =
      [] := by
    rw [loopsSetOff_append, ← moves_append, loopsSetOff, List.append_eq_nil_iff,
      List.append_eq_nil_iff] at none
    rw [moves_append]
    exact none.2.2
  rw [split, moves_append]
  exact idle_stays built before stopped quiet

/-- **A loop has ended with any scope that covers that of the start which set it off.** -/
theorem idle_of_ended_above {run mid : List Move} {i : Nat} {scope own above : ScopeId}
    (seen : ((ofTree (some t) before).moves run).loopEvent? (.turn i) = some (.seenTo slot scope))
    (setOff : ((ofTree (some t) before).moves run).loopSetOff? (.turn i) = some (slot, own))
    (none : ((ofTree (some t) before).moves (run ++ [.turn i])).loopsSetOff slot mid = []) :
    let m := ((ofTree (some t) before).moves (run ++ [.turn i] ++ mid)).machine
    m.world.scopes.Covers above scope → m.world.cause? above ≠ Option.none →
      m.runs slot = false := by
  intro m covers isOver
  refine Bool.eq_false_iff.mpr fun runs => ?_
  obtain ⟨l, loop, live⟩ := Machine.runs_iff.mp runs
  -- the loop that the start has set off is the one that the cache keeps then
  obtain ⟨_, -, sheltered, looped⟩ := looped_of_moves built before run
  obtain ⟨spawned, same, change⟩ := Machine.takeTurn_change looped.knows i
  obtain ⟨-, -, ⟨l₀, loop₀, rfl⟩, -, scope', event, tied⟩ := change.of_setOff (same.trans setOff)
  cases seen.symm.trans event
  replace tied := tied (sheltered.seenTo seen)
  -- and the one that runs now was live then, so it is the same
  obtain ⟨_, within₁, sheltered₁, looped₁⟩ := looped_of_moves built before (run ++ [.turn i])
  have one₁ := oneLoop_of_moves built before (run ++ [.turn i]) slot
  have one₂ := moves_oneLoop within₁ sheltered₁ looped₁ one₁ mid
  have nested : m.Nested := nested_of_moves built before (run ++ [.turn i] ++ mid)
  have after := moves_after within₁ mid
  rw [none, List.append_nil, ← moves_append] at one₂
  rw [← moves_append] at after
  have mem : l.scope ∈ _ := one₂.listed l loop
  have old := one₁.known l.scope mem
  have alive : ((ofTree (some t) before).moves (run ++ [.turn i])).machine.world.cause? l.scope =
      Option.none := by
    by_contra ended
    exact after.stays old ended live
  obtain ⟨l₁, loop₁, kept⟩ := one₁.kept l.scope mem alive
  rw [moves_append] at loop₁
  cases loop₀.symm.trans loop₁
  have parent : ((ofTree (some t) before).moves (run ++ [.turn i])).machine.world.scopes.parent?
      l.scope = some scope := by
    rw [moves_append, ← kept]
    exact tied.comes
  have comes := (after.comes l.scope old).trans parent
  exact nested.ended comes (nested.ended_of_covers covers isOver) live

end

/-- The scope of a start ends at the instant of the first tick, when a forced refresh is under way.
The loop may take the tick first, and skips it. -/
example :
    let b : Blueprint := .cached 100 (.probe ⟨"p", "p", ⟨[], .outcome (.ok .healthy)⟩,
      [⟨[⟨some 40, false⟩], .outcome (.ok .healthy)⟩]⟩)
    let run : List Move := [.begin (.start 0 ⟨none, some 100⟩), .turn 0, .pass 90,
      .begin (.force 0 {}), .turn 1, .pass 10]
    let skips := fun (given : Bool) => (ofBlueprint? b).map fun t =>
      let m := ((ofTree (some t) []).moves (run ++ [.grace given, .turn 0])).machine
      (m.runs 0, m.jobs.length, m.world.metrics.count (.skipped "p"))
    skips true = some (false, 1, 1) ∧ skips false = some (false, 1, 0) := by
  decide +kernel

end Scenario.Session

end HealthTree
