import HealthTree.Proofs.Schedule

/-!
# What a tick does

A tick looks at the lock of its cache. If nobody holds it and nobody waits for it, the tick sets off
one refresh, which has the lock at once. Else it is counted as skipped, and that is all: no job is
set off or put in line, and the next tick comes when it would have come (`Machine.tick_cases`).

Where a lock is not free a refresh of the cache is under way, or at least one was at this very
instant and has just given the lock back (`refreshing_at_instant`).
-/

namespace HealthTree

/-- **A job that waits for a lock after its step** came to wait because it was not free, or waited
before and is not the one whom a free lock is handed to. -/
theorem Job.waits_of_going {id : JobId} {w : World} {job next : Job} {slot : Nat} {c : Cache}
    (going : (job.step id w).1 = .going next) (waits : next.stake slot = .waits)
    (cached : w.cache? slot = some c) :
    job.stake slot = .free ∧ c.isIdle = false ∨
      job.stake slot = .waits ∧ (c.holder.isNone && c.waiting.head? == some id) = false := by
  cases Job.step_goesOn going with
  | @queued there _ _ _ _ _ cached' attempted =>
    have here : slot = there := by
      by_contra apart
      simp [stake, Stake.at, apart] at waits
    subst here
    cases cached.symm.trans cached'
    rcases World.attempt_waits attempted with ⟨rfl, busy⟩ | ⟨rfl, -, behind⟩
    · exact .inl ⟨Stake.at_self slot .free, busy⟩
    · exact .inr ⟨waits, behind⟩
  | next => simp [stake, Phase.stake] at waits
  | @calling there =>
    by_cases here : slot = there <;> simp [stake, Phase.stake, Stake.at, here] at waits
  | _ => cases waits

namespace Machine

/-- **A tick begins a refresh**: it sets off one that has the lock, and no number changes. -/
def Begins (m m' : Machine) (slot : Nat) : Prop :=
  m'.world.metrics = m.world.metrics ∧
    ∃ own, m'.jobs.Perm ((m.world.nextJob, .refresh slot own .tick .granted) :: m.jobs)

/-- **A tick is skipped**: one is added to the count of skips, and no job is set off or put in
line. -/
def Skips (m m' : Machine) (name : String) : Prop :=
  m'.jobs.Perm m.jobs ∧ m'.world.locks = m.world.locks ∧
    ∀ series, m'.world.metrics.count series =
      m.world.metrics.count series + if series = .skipped name then 1 else 0

variable {m : Machine} {slot : Nat} {c : Cache}

/-- A refresh is under way if the lock has a holder. -/
theorem Locked.refreshing_of_holder (locked : m.Locked) (cached : m.world.cache? slot = some c)
    {id : JobId} (holder : c.holder = some id) : m.refreshing slot = true := by
  rcases locked.gives cached id with ⟨job, mem, gives⟩ | gives
  · refine List.any_eq_true.mpr ⟨_, mem, ?_⟩
    rw [Job.refreshing_eq, decide_eq_true_eq]
    exact gives.1.mp holder
  · cases gives.1.mp holder

/-- A refresh that is under way holds the lock. -/
theorem Locked.held_of_refreshing (locked : m.Locked) (cached : m.world.cache? slot = some c)
    (refreshing : m.refreshing slot = true) : c.holder ≠ none := by
  obtain ⟨p, mem, holds⟩ := List.any_eq_true.mp refreshing
  rw [Job.refreshing_eq, decide_eq_true_eq] at holds
  have held : c.holder = some p.1 :=
    (locked.agrees p mem slot _ (World.locks_at cached)).1.mpr holds
  rw [held]
  exact Option.some_ne_none _

/-- **Nobody comes to wait for a lock in a step unless it was not free.** -/
theorem Locked.busy_before (locked : m.Locked) {i : Nat} {c' : Cache}
    (cached : m.world.cache? slot = some c)
    (cached' : (m.takeTurn i).world.cache? slot = some c') (waiting : c'.waiting ≠ []) :
    c.isIdle = false := by
  have locked' := locked.takeTurn i
  obtain ⟨id, rest, line⟩ := List.exists_cons_of_ne_nil waiting
  have waits : id ∈ c'.waiting := line ▸ List.mem_cons_self
  obtain ⟨job, mem, gives⟩ := (locked'.gives cached' id).resolve_right fun gives => by
    cases gives.2.mp waits
  replace waits : job.stake slot = .waits := gives.2.mp waits
  -- a job that waited before stood in the line before
  have stood {p : JobId × Job} (mem : p ∈ m.jobs) (waits : p.2.stake slot = .waits) :
      c.isIdle = false := by
    have inLine : p.1 ∈ c.waiting :=
      (locked.agrees p mem slot _ (World.locks_at cached)).2.mpr waits
    have some : c.waiting ≠ [] := List.ne_nil_of_mem inLine
    simp [Cache.isIdle, some]
  rcases mem_takeTurn mem with beside | ⟨p, found, ⟨-, going⟩ | spawned⟩
  · exact stood (List.mem_of_mem_eraseIdx beside) waits
  · rcases Job.waits_of_going going waits cached with ⟨-, busy⟩ | ⟨waited, -⟩
    · exact busy
    · exact stood (List.mem_of_getElem? found) waited
  · rcases Job.step_spawned spawned with ⟨_, _, rfl, -⟩ | ⟨other, _, -, rfl⟩
    · cases waits
    · by_cases here : slot = other <;> simp [Job.stake, Phase.stake, Stake.at, here] at waits

/-- **What a tick does to its machine.** Where the lock of the cache is free it sets off one refresh,
which has the lock, and where it is not it adds one to the count of skips; that is all. -/
theorem tick_cases {i : Nat} (tick : m.loopEvent? i = some (.tick slot))
    (cached : m.world.cache? slot = some c) :
    c.isIdle = true ∧ m.Begins (m.takeTurn i) slot ∨
      c.isIdle = false ∧ m.Skips (m.takeTurn i) c.name := by
  obtain ⟨⟨id, job⟩, found, event⟩ := Option.bind_eq_some_iff.mp tick
  have perm := beside_perm found
  obtain ⟨own, c', rfl, cached', live, due⟩ := Job.loop_of_tick event
  cases cached.symm.trans cached'
  have step : (Job.loop slot own).step id m.world = m.world.stepLoop slot c own := by
    simp only [Job.step, cached]
  unfold Machine.takeTurn
  simp only [found, step]
  have cases := m.world.stepLoop_cases slot c own
  generalize m.world.stepLoop slot c own = r at cases ⊢
  cases cases with
  | stops cause ended | ticksLast cause ended | skipsLast cause ended =>
    cases live.symm.trans ended
  | rests _ early => exact absurd due early
  | ticks _ _ idle =>
    refine .inl ⟨idle, rfl, own, ?_⟩
    refine .trans ?_ (perm.cons _)
    exact List.perm_append_comm.trans (.swap ..)
  | skips _ _ busy =>
    refine .inr ⟨busy, List.perm_append_comm.trans perm, ?_, fun series => ?_⟩
    · exact World.locks_modifyCache_same m.world slot fun _ => rfl
    · exact Metrics.count_bump ..

/-! ## The instant of a tick -/

/-- A command puts nobody in line for a lock. -/
theorem Touch.line {known : Check → Prop} {p p' : Machine × List ScopeId} (touch : Touch known p p')
    {l' : Lock} (lock : p'.1.world.locks[slot]? = some l') :
    ∃ l, p.1.world.locks[slot]? = some l ∧ l'.2 ⊆ l.2 := by
  have same {p'' : Machine} (locks : p''.world.locks = p.1.world.locks)
      (lock : p''.world.locks[slot]? = some l') : ∃ l, p.1.world.locks[slot]? = some l ∧ l'.2 ⊆ l.2 :=
    ⟨l', locks ▸ lock, List.Subset.refl _⟩
  -- a job that is dropped gives up what it has of one lock
  have given {there : Nat} {f : Lock → Lock} (less : ∀ l, (f l).2 ⊆ l.2)
      (lock : (p.1.world.locks.modify there f)[slot]? = some l') :
      ∃ l, p.1.world.locks[slot]? = some l ∧ l'.2 ⊆ l.2 := by
    rw [List.getElem?_modify] at lock
    obtain ⟨l, found, rfl⟩ := Option.map_eq_some_iff.mp lock
    refine ⟨l, found, ?_⟩
    by_cases here : there = slot
    · simpa [here] using less l
    · simp [here]
  cases touch with
  | stop m held there =>
    refine same ?_ lock
    unfold Machine.stop
    split
    · exact World.locks_modifyCache_same _ there fun _ => rfl
    · rfl
  | abort m held id =>
    unfold Machine.abort at lock
    cases found : m.jobs.lookup id with
    | none => exact same rfl (by simpa [found] using lock)
    | some job =>
      simp only [found] at lock
      cases job with
      | refresh there scope purpose phase =>
        cases phase with
        | arriving => exact same rfl lock
        | queued =>
          rw [Job.drop, World.locks_dequeue] at lock
          exact given (f := fun l => (l.1, l.2.filter (· != id))) (fun l => List.filter_subset_self _) lock
        | granted | calling =>
          simp only [Job.drop, World.locks_unlock] at lock
          exact given (f := fun l => (none, l.2)) (fun l => List.Subset.refl _) lock
      | _ => exact same rfl lock
  | background | derive | cancel | submit | forget => exact same rfl lock

end Machine

namespace Scenario.Session

open CheckTree (ofBlueprint?)

/-- In every state of every run locks and jobs agree. -/
theorem locked_of_moves {b : Blueprint} {t : CheckTree} (built : ofBlueprint? b = some t)
    (before : List Event) (run : List Move) :
    ((ofTree (some t) before).moves run).machine.Locked := by
  obtain ⟨plan, planned⟩ := CheckTree.planned_ofBlueprint built
  obtain ⟨_, -, locked⟩ := moves_keep (I := fun p => p.1.Locked)
    (fun touch locked => locked.touch touch) (fun _ _ i locked => locked.takeTurn i)
    (fun _ _ _ _ locked => locked.of_world rfl rfl) (planned.within before)
    (planned.locked before) run
  exact locked

/-- **Nobody comes to wait for a lock that nobody holds** in a punctual move, unless no time passes
in it and the lock was not free before. -/
theorem move_busy {known : Check → Prop} {s : Session} {held : List ScopeId} {slot : Nat}
    {next : Move} {c' : Cache} (within : s.Within known held) (locked : s.machine.Locked)
    (punctual : s.PunctualMove next)
    (cached : (s.move next).machine.world.cache? slot = some c') (holder : c'.holder = none)
    (waiting : c'.waiting ≠ []) :
    (s.move next).machine.now = s.machine.now ∧
      ∃ c, s.machine.world.cache? slot = some c ∧ c.isIdle = false := by
  rcases move_cases within next with ⟨⟨_, touched⟩, -⟩ | ⟨i, rfl⟩ | ⟨ms, rfl⟩ | ⟨given, rfl⟩
  · refine ⟨(Machine.Touches.kept touched.touches).now, ?_⟩
    have line := touched.touches.keep
      (I := fun p => ∀ l', p.1.world.locks[slot]? = some l' →
        ∃ l, s.machine.world.locks[slot]? = some l ∧ l'.2 ⊆ l.2)
      (fun touch kept l'' lock => by
        obtain ⟨l', lock', fewer'⟩ := touch.line lock
        obtain ⟨l, lock, fewer⟩ := kept l' lock'
        exact ⟨l, lock, List.Subset.trans fewer' fewer⟩)
      (fun l' lock => ⟨l', lock, List.Subset.refl _⟩)
    obtain ⟨l, lock, fewer⟩ := line _ (World.locks_at cached)
    obtain ⟨c, cached, rfl⟩ := Option.map_eq_some_iff.mp (List.getElem?_map ▸ lock)
    have stood : c.waiting ≠ [] := fun none =>
      waiting (List.eq_nil_of_subset_nil (none ▸ fewer))
    exact ⟨c, cached, by simp [Cache.isIdle, stood]⟩
  · have later := s.machine.takeTurn_later i
    obtain ⟨c, cached₀, -⟩ := World.cache?_of_makes later.makes.symm cached
    exact ⟨later.now, c, cached₀, locked.busy_before cached₀ cached waiting⟩
  · exact absurd (punctual.1 c' (List.mem_of_getElem? cached) holder) waiting
  · exact ⟨rfl, c', cached, by simp [Cache.isIdle, waiting]⟩

/-- A refresh of the cache is under way at the instant when a run ends, or has just been. -/
def RefreshedThen (s : Session) (slot : Nat) (run : List Move) : Prop :=
  ∃ earlier later, run = earlier ++ later ∧
    (s.moves earlier).machine.now = (s.moves run).machine.now ∧
    (s.moves earlier).machine.refreshing slot = true

/-- **Where a lock is not free a refresh is under way**, or was at this very instant: over a punctual
run no time passes while a lock is handed on. -/
theorem refreshing_at_instant {b : Blueprint} {t : CheckTree} (built : ofBlueprint? b = some t)
    (before : List Event) (run : List Move) {slot : Nat} {c : Cache} :
    let s := ofTree (some t) before
    s.Punctual run → (s.moves run).machine.world.cache? slot = some c → c.isIdle = false →
      s.RefreshedThen slot run := by
  intro s punctual cached busy
  induction run using List.reverseRecOn generalizing c with
  | nil =>
    obtain ⟨plan, planned⟩ := CheckTree.planned_ofBlueprint built
    rw [planned.assembled.empty c (List.mem_of_getElem? cached)] at busy
    cases busy
  | append_singleton run next ih =>
    obtain ⟨punctual, last, -⟩ := punctual_append.mp punctual
    cases holder : c.holder with
    | some id =>
      have locked := locked_of_moves built before (run ++ [next])
      exact ⟨run ++ [next], [], (List.append_nil _).symm, rfl,
        locked.refreshing_of_holder cached holder⟩
    | none =>
      have waiting : c.waiting ≠ [] := by
        intro none
        simp [Cache.isIdle, holder, none] at busy
      obtain ⟨_, within, -, -⟩ := looped_of_moves built before run
      unfold RefreshedThen
      rw [moves_append] at cached ⊢
      obtain ⟨now, c₀, cached₀, busy₀⟩ :=
        move_busy within (locked_of_moves built before run) last cached holder waiting
      obtain ⟨earlier, later, split, same, refreshing⟩ := ih punctual cached₀ busy₀
      exact ⟨earlier, later ++ [next], by rw [split, List.append_assoc], same.trans now.symm,
        refreshing⟩

/-- **A tick begins a refresh or is skipped.** Over a punctual run it begins one where no refresh of
the cache is under way, and else it is skipped. -/
theorem tick_begins_or_skips {b : Blueprint} {t : CheckTree} (built : ofBlueprint? b = some t)
    (before : List Event) (run : List Move) {i slot : Nat} {c : Cache} :
    let s := ofTree (some t) before
    let m := (s.moves run).machine
    s.Punctual run → (s.moves run).loopEvent? (.turn i) = some (.tick slot) →
    m.world.cache? slot = some c →
      m.refreshing slot = false ∧ m.Begins (m.takeTurn i) slot ∨
        s.RefreshedThen slot run ∧ m.Skips (m.takeTurn i) c.name := by
  intro s m punctual tick cached
  have locked : m.Locked := locked_of_moves built before run
  rcases Machine.tick_cases tick cached with ⟨idle, begins⟩ | ⟨busy, skips⟩
  · refine .inl ⟨?_, begins⟩
    rw [Cache.isIdle, Bool.and_eq_true, Option.isNone_iff_eq_none] at idle
    exact Bool.eq_false_iff.mpr fun refreshing =>
      locked.held_of_refreshing cached refreshing idle.1
  · exact .inr ⟨refreshing_at_instant built before run punctual cached busy, skips⟩

end Scenario.Session

end HealthTree
