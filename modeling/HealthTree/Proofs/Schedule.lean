import HealthTree.Proofs.CacheHistory
import HealthTree.Proofs.Running

/-!
# One loop, on schedule

However often a check is started, one loop runs for it at most: of all that a run sets off, those
whose scope is live are as many as `Machine.runs` says, one or none (`loops_at_most_one`).

A loop is never early, for a tick is taken only when it is due. That it is not late either is a
matter of how time passes. Runs where no loop is left behind with a tick are *punctual*
(`Session.Punctual`), and over those a loop ticks at its start, or at the last reset of its timer,
plus whole multiples of its interval (`ticks_on_schedule`). Each of these ticks sets off a refresh
or is counted as skipped, and it is skipped exactly if a refresh is under way (`tick_begins_or_skips`).
-/

namespace HealthTree

/-- The cache whose loop it happens to. -/
@[simp] def LoopEvent.slot : LoopEvent → Nat
  | seenTo slot _ | tick slot => slot

/-- **No loop is late**: if it is live at the instant of its next tick, that is not over. -/
def World.OnTime (w : World) : Prop :=
  ∀ c ∈ w.caches, ∀ l ∈ c.loop, w.scopes.cause? l.nextTick l.scope = none → w.now ≤ l.nextTick

instance (w : World) : Decidable w.OnTime :=
  inferInstanceAs (Decidable (∀ c ∈ w.caches, ∀ l ∈ c.loop, _ → _))

/-- Nobody waits for a lock that nobody holds. -/
def World.HandedOn (w : World) : Prop :=
  ∀ c ∈ w.caches, c.holder = none → c.waiting = []

instance (w : World) : Decidable w.HandedOn :=
  inferInstanceAs (Decidable (∀ c ∈ w.caches, _ → _))

namespace World

variable {w w' : World} {slot : Nat} {c : Cache} {l : Loop}

theorem loops_eq_some :
    w.loops[slot]? = some (some l) ↔ ∃ c, w.cache? slot = some c ∧ c.loop = some l := by
  rw [loops, List.getElem?_map, Option.map_eq_some_iff]
  rfl

theorem onTime_iff :
    w.OnTime ↔ ∀ (slot : Nat) (l : Loop), w.loops[slot]? = some (some l) →
      w.scopes.cause? l.nextTick l.scope = none → w.now ≤ l.nextTick := by
  constructor
  · intro on slot l found
    obtain ⟨c, cached, loop⟩ := loops_eq_some.mp found
    exact on c (List.mem_of_getElem? cached) l loop
  · intro on c mem l loop
    obtain ⟨slot, cached⟩ := List.getElem?_of_mem mem
    exact on slot l (loops_eq_some.mpr ⟨c, cached, loop⟩)

end World

namespace Machine

/-- The loop of a cache is there, and would be live at this instant. -/
def runsAt (m : Machine) (slot now : Nat) : Bool :=
  (m.world.cache? slot).any fun c => c.loop.any fun l => (m.world.scopes.cause? now l.scope).isNone

theorem runsAt_iff {m : Machine} {slot now : Nat} :
    m.runsAt slot now = true ↔
      ∃ l, m.world.loops[slot]? = some (some l) ∧ m.world.scopes.cause? now l.scope = none := by
  simp only [runsAt, World.loops_eq_some, Option.any_eq_true, Option.isNone_iff_eq_none]
  constructor
  · rintro ⟨c, cached, l, loop, live⟩
    exact ⟨l, ⟨c, cached, loop⟩, live⟩
  · rintro ⟨l, ⟨c, cached, loop⟩, live⟩
    exact ⟨c, cached, l, loop, live⟩

/-- A refresh of the cache is under way. -/
def refreshing (m : Machine) (slot : Nat) : Bool :=
  m.jobs.any fun p => p.2.refreshing slot

end Machine

namespace Scenario.Session

/-- The loop that a move sets off: its cache, and its scope. -/
def loopSetOff? (s : Session) : Move → Option (Nat × ScopeId)
  | .turn i => s.machine.loopSetOff? i
  | .begin _ | .aside _ _ | .pass _ | .grace _ => none

/-- The scopes of the loops that a run sets off for a cache, in their order. -/
def loopsSetOff (slot : Nat) : Session → List Move → List ScopeId
  | _, [] => []
  | s, next :: rest => ((s.loopSetOff? next).filter (·.1 == slot)).toList.map (·.2) ++
      loopsSetOff slot (s.move next) rest

/-- What happens to the loop of a cache over a run, and at which instants. -/
def loopEvents (slot : Nat) : Session → List Move → List (Nat × LoopEvent)
  | _, [] => []
  | s, next :: rest =>
    (((s.loopEvent? next).filter (·.slot == slot)).map (s.machine.now, ·)).toList ++
      loopEvents slot (s.move next) rest

/-- **A move is punctual** unless time passes in it while a lock is being handed on, or so much that
a loop comes to be late. -/
def PunctualMove (s : Session) : Move → Prop
  | .pass ms => s.machine.world.HandedOn ∧ (s.machine.pass ms).world.OnTime
  | .begin _ | .aside _ _ | .turn _ | .grace _ => True

instance (s : Session) (next : Move) : Decidable (s.PunctualMove next) := by
  cases next <;> unfold PunctualMove <;> infer_instance

/-- **Every move of a run is punctual.** -/
def Punctual : Session → List Move → Prop
  | _, [] => True
  | s, next :: rest => s.PunctualMove next ∧ Punctual (s.move next) rest

instance decidablePunctual : (s : Session) → (run : List Move) → Decidable (s.Punctual run)
  | _, [] => .isTrue trivial
  | s, next :: rest =>
    have := decidablePunctual (s.move next) rest
    inferInstanceAs (Decidable (s.PunctualMove next ∧ Punctual (s.move next) rest))

/-- **The loop of a cache ticks on schedule over a run** that begins when it was seen to at this
instant: after one interval, after two, and so on, and at no other instant. No tick is left out: the
first that has not come is still ahead if the loop lives to see it. -/
def TicksOnSchedule (s : Session) (slot start interval : Nat) (run : List Move) : Prop :=
  ∃ n, s.loopEvents slot run =
      (List.range n).map (fun k => (start + (k + 1) * interval, .tick slot)) ∧
    ((s.moves run).machine.runsAt slot (start + (n + 1) * interval) = true →
      (s.moves run).machine.now ≤ start + (n + 1) * interval)

end Scenario.Session

/-! ## Commands -/

/-- **Loops are left alone or stopped**, and where one is stopped its scope has ended. -/
structure World.Spares (w w' : World) : Prop extends w.After w' where
  old : ∀ (slot : Nat) (l : Loop), w'.loops[slot]? = some (some l) → w.loops[slot]? = some (some l)
  spared : ∀ (slot : Nat) (l : Loop), w.loops[slot]? = some (some l) →
    w'.loops[slot]? = some (some l) ∨ w'.cause? l.scope ≠ none

theorem World.Spares.of_loops {w w' : World} (after : w.After w') (same : w'.loops = w.loops) :
    w.Spares w' :=
  ⟨after, fun _ _ loop => same ▸ loop, fun _ _ loop => .inl (same ▸ loop)⟩

namespace Machine

theorem stop_spares {m : Machine} (knows : m.world.KnowsLoops) (slot : Nat) :
    m.world.Spares (m.stop slot).world := by
  have loops := m.stop_loops slot
  refine ⟨m.stop_after slot, fun other l loop => ?_, fun other l loop => ?_⟩
  · rw [loops, List.getElem?_modify] at loop
    split at loop
    · obtain ⟨_, -, none⟩ := Option.map_eq_some_iff.mp loop
      cases none
    · simpa using loop
  · by_cases here : slot = other
    · subst here
      right
      obtain ⟨c, cached, running⟩ := World.loops_eq_some.mp loop
      have scopes : (m.stop slot).world.scopes = m.world.scopes.cancel l.scope := by
        unfold Machine.stop
        rw [cached, Option.bind_some, running]
        rfl
      refine Scopes.cause?_ne_none.mpr (.inl ?_)
      rw [scopes]
      exact Scopes.isCancelled_cancel_self (knows slot l loop)
    · left
      rw [loops, List.getElem?_modify_ne _ _ here]
      exact loop

/-- **What a command changes stops loops at most.** -/
theorem Touch.spares {known : Check → Prop} {p p' : Machine × List ScopeId}
    (touch : Touch known p p') (knows : p.1.world.KnowsLoops) : p.1.world.Spares p'.1.world := by
  have after := touch.after
  cases touch with
  | stop m held slot => exact stop_spares knows slot
  | abort m held id => exact .of_loops after (m.abort_loops id).1
  | background | derive | cancel | submit | forget => exact .of_loops after rfl

end Machine

/-! ## One loop at most -/

/-- **Of the loops that were set off for a cache under these scopes only the one that it keeps may
be live.** -/
structure World.OneLoop (w : World) (slot : Nat) (ever : List ScopeId) : Prop where
  distinct : ever.Nodup
  known : ∀ own ∈ ever, own < w.scopes.next
  kept : ∀ own ∈ ever, w.cause? own = none →
    ∃ l, w.loops[slot]? = some (some l) ∧ l.scope = own
  listed : ∀ l, w.loops[slot]? = some (some l) → l.scope ∈ ever

namespace World.OneLoop

variable {w w' : World} {slot : Nat} {ever : List ScopeId} {l : Loop}

/-- **As many of them are live as the loop that runs**, one or none. -/
theorem count {m : Machine} (one : m.world.OneLoop slot ever) :
    ever.countP (fun own => (m.world.cause? own).isNone) = (m.runs slot).toNat := by
  cases runs : m.runs slot with
  | true =>
    obtain ⟨l, loop, live⟩ := Machine.runs_iff.mp runs
    have only : ∀ own ∈ ever, (m.world.cause? own).isNone = true ↔ (own == l.scope) = true := by
      intro own mem
      rw [Option.isNone_iff_eq_none, beq_iff_eq]
      constructor
      · intro alive
        obtain ⟨l', loop', rfl⟩ := one.kept own mem alive
        cases loop.symm.trans loop'
        rfl
      · rintro rfl
        exact live
    rw [List.countP_congr only]
    exact List.count_eq_one_of_mem one.distinct (one.listed l loop)
  | false =>
    refine List.countP_eq_zero.mpr fun own mem alive => ?_
    obtain ⟨l, loop, rfl⟩ := one.kept own mem (Option.isNone_iff_eq_none.mp alive)
    rw [Machine.runs_iff.mpr ⟨l, loop, Option.isNone_iff_eq_none.mp alive⟩] at runs
    cases runs

/-- It stays so where loops are only stopped. -/
theorem keep (one : w.OneLoop slot ever) (spares : w.Spares w') : w'.OneLoop slot ever where
  distinct := one.distinct
  known own mem := Nat.lt_of_lt_of_le (one.known own mem) spares.grows
  kept own mem live := by
    have alive : w.cause? own = none := by
      by_contra ended
      exact spares.stays (one.known own mem) ended live
    obtain ⟨l, loop, rfl⟩ := one.kept own mem alive
    exact ⟨l, (spares.spared slot l loop).resolve_right fun ended => ended live, rfl⟩
  listed l loop := one.listed l (spares.old slot l loop)

/-- **What a step does to loops leaves one at most**: it sets off another only where none runs. -/
theorem change {e : Option LoopEvent} {spawned : Spawned} (one : w.OneLoop slot ever)
    (later : w.Later w') (change : w.LoopChange e spawned w') :
    w'.OneLoop slot (ever ++ (spawned.loop?.filter (·.1 == slot)).toList.map (·.2)) := by
  have grows := later.next_le
  have alive {own : ScopeId} (mem : own ∈ ever) (live : w'.cause? own = none) :
      w.cause? own = none := (later.cause? (one.known own mem)).symm.trans live
  cases new : spawned.loop?.filter (·.1 == slot) with
  | none =>
    simp only [Option.toList_none, List.map_nil, List.append_nil]
    refine ⟨one.distinct, fun own mem => Nat.lt_of_lt_of_le (one.known own mem) grows,
      fun own mem live => ?_, fun l' loop => ?_⟩
    · obtain ⟨l, loop, rfl⟩ := one.kept own mem (alive mem live)
      exact change.scope_of_runs loop (alive mem live)
    · rcases change.loop_before loop with ⟨l, old, same⟩ | setOff
      · exact same ▸ one.listed l old
      · simp [setOff] at new
  | some p =>
    obtain ⟨there, own⟩ := p
    obtain ⟨setOff, here⟩ := Option.filter_eq_some_iff.mp new
    cases beq_iff_eq.mp here
    obtain ⟨ge, lt, ⟨l', loop', rfl⟩, idle, -⟩ := change.of_setOff setOff
    simp only [Option.toList_some, List.map_cons, List.map_nil]
    refine ⟨?_, ?_, ?_, ?_⟩
    · refine List.nodup_append.mpr ⟨one.distinct, List.nodup_singleton _, ?_⟩
      rintro own mem _ new rfl
      cases List.mem_singleton.mp new
      exact Nat.not_le_of_lt (one.known _ mem) ge
    · intro own mem
      rcases List.mem_append.mp mem with mem | new
      · exact Nat.lt_of_lt_of_le (one.known own mem) grows
      · exact List.mem_singleton.mp new ▸ lt
    · intro own mem live
      rcases List.mem_append.mp mem with mem | new
      · obtain ⟨l, loop, rfl⟩ := one.kept own mem (alive mem live)
        exact absurd (alive mem live) (idle l loop)
      · exact ⟨l', loop', (List.mem_singleton.mp new).symm⟩
    · intro l loop
      cases loop.symm.trans loop'
      exact List.mem_append_right _ (List.mem_singleton_self _)

end World.OneLoop

namespace Scenario.Session

variable {known : Check → Prop} {s : Session} {held : List ScopeId} {slot : Nat}
  {ever : List ScopeId}

/-- What the changes of a command keep where loops are kept apart, the command keeps. -/
theorem Touched.keep {I : Machine → Prop} {s' : Session} {held' : List ScopeId}
    (touched : s.Touched known held s' held')
    (touch : ∀ {p p'}, Machine.Touch known p p' → p.1.Looped p.2 → I p.1 → I p'.1)
    (looped : s.machine.Looped held) (kept : I s.machine) : I s'.machine :=
  (touched.touches.keep (I := fun p => p.1.Looped p.2 ∧ I p.1)
    (fun change kept => ⟨kept.1.touch change, touch change kept.1 kept.2⟩) ⟨looped, kept⟩).2

/-- **A move is a command, a step of a job, or the passing of time**, or it settles whether a turn
is left. A command does nothing to loops but by the few changes that commands are made of. -/
theorem move_cases (within : s.Within known held) (next : Move) :
    (∃ held', s.Touched known held (s.move next) held') ∧ s.loopEvent? next = none ∧
        s.loopSetOff? next = none ∨
      (∃ i, next = .turn i) ∨ (∃ ms, next = .pass ms) ∨ ∃ given, next = .grace given := by
  cases next with
  | begin c => exact .inl ⟨begin_touches within c, rfl, rfl⟩
  | aside name c => exact .inl ⟨setAside_touches within name c, rfl, rfl⟩
  | turn i => exact .inr (.inl ⟨i, rfl⟩)
  | pass ms => exact .inr (.inr (.inl ⟨ms, rfl⟩))
  | grace given => exact .inr (.inr (.inr ⟨given, rfl⟩))

/-- **A run sets off one loop at most that stays live.** -/
theorem moves_oneLoop (within : s.Within known held) (sheltered : s.machine.Sheltered held)
    (looped : s.machine.Looped held) (one : s.machine.world.OneLoop slot ever) (run : List Move) :
    (s.moves run).machine.world.OneLoop slot (ever ++ s.loopsSetOff slot run) := by
  induction run generalizing s held ever with
  | nil => simpa [moves, loopsSetOff] using one
  | cons next rest ih =>
    obtain ⟨held', within', sheltered', looped'⟩ := move_looped within sheltered looped next
    rw [loopsSetOff, ← List.append_assoc]
    refine ih within' sheltered' looped' ?_
    have rest (ms : Nat) (given : Bool) :
        ((s.machine.pass ms).withGrace given).world.OneLoop slot (ever ++ []) := by
      rw [List.append_nil]
      exact one.keep (.of_loops (.rest s.machine.world ms given) rfl)
    rcases move_cases within next with
      ⟨⟨_, touched⟩, -, none⟩ | ⟨i, rfl⟩ | ⟨ms, rfl⟩ | ⟨given, rfl⟩
    · have one' := touched.keep (I := fun m => m.world.OneLoop slot ever)
        (fun touch looped one => one.keep (touch.spares looped.knows)) looped one
      simpa [none] using one'
    · obtain ⟨spawned, setOff, change⟩ := Machine.takeTurn_change looped.knows i
      have one' := one.change (s.machine.takeTurn_later i) change
      rwa [setOff] at one'
    · exact rest ms s.machine.world.grace
    · exact rest 0 given

open CheckTree (ofBlueprint?)

/-- In every state of every run the loops that were set off for a cache are but one, if any is
live. -/
theorem oneLoop_of_moves {b : Blueprint} {t : CheckTree} (built : ofBlueprint? b = some t)
    (before : List Event) (run : List Move) (slot : Nat) :
    let s := ofTree (some t) before
    (s.moves run).machine.world.OneLoop slot (s.loopsSetOff slot run) := by
  intro s
  obtain ⟨held, within, sheltered, looped⟩ := looped_of_moves built before []
  obtain ⟨plan, planned⟩ := CheckTree.planned_ofBlueprint built
  have none : s.machine.world.OneLoop slot [] :=
    ⟨List.nodup_nil, nofun, nofun, fun l loop => absurd loop (planned.no_loops before slot l)⟩
  exact moves_oneLoop within sheltered looped none run

/-- **In every state of every run one loop is live at most**, of all that the run has set off for a
cache, and one is exactly if `Machine.runs` says so. -/
theorem loops_at_most_one {b : Blueprint} {t : CheckTree} (built : ofBlueprint? b = some t)
    (before : List Event) (run : List Move) (slot : Nat) :
    let s := ofTree (some t) before
    let m := (s.moves run).machine
    (s.loopsSetOff slot run).countP (fun own => (m.world.cause? own).isNone) =
      (m.runs slot).toNat :=
  (oneLoop_of_moves built before run slot).count

end Scenario.Session

/-! ## The schedule -/

namespace World

variable {w w' : World} {slot : Nat} {c : Cache} {l : Loop}

/-- What is live is live at every instant before. -/
theorem live_before {scope : ScopeId} {earlier : Nat} (live : w.cause? scope = none)
    (le : earlier ≤ w.now) : w.scopes.cause? earlier scope = none := by
  by_contra ended
  exact Scopes.ended_later le ended live

/-- A loop that runs and is not late is no further than its next tick. -/
theorem OnTime.not_late (on : w.OnTime) (loop : w.loops[slot]? = some (some l))
    (live : w.cause? l.scope = none) : w.now ≤ l.nextTick := by
  rcases Nat.le_total w.now l.nextTick with le | ge
  · exact le
  · exact onTime_iff.mp on slot l loop (live_before live ge)

theorem OnTime.keep (on : w.OnTime) (knows : w.KnowsLoops) (spares : w.Spares w')
    (now : w'.now = w.now) : w'.OnTime := by
  refine onTime_iff.mpr fun slot l loop live => now ▸ onTime_iff.mp on slot l
    (spares.old slot l loop) ?_
  by_contra ended
  exact spares.ended l.scope (knows slot l (spares.old slot l loop)) l.nextTick ended live

/-- **No step of a job makes a loop late.** -/
theorem OnTime.change {e : Option LoopEvent} {spawned : Spawned} (on : w.OnTime)
    (knows : w.KnowsLoops) (later : w.Later w') (change : w.LoopChange e spawned w') :
    w'.OnTime := by
  have after := World.After.of_later later
  refine onTime_iff.mpr fun slot l' loop live => ?_
  rw [later.now]
  have kept (old : w.loops[slot]? = some (some l')) : w.now ≤ l'.nextTick := by
    refine onTime_iff.mp on slot l' old ?_
    by_contra ended
    exact after.ended l'.scope (knows slot l' old) l'.nextTick ended live
  have written {other : Nat} {new : Loop} (loops : w'.loops = w.loops.set other (some new))
      (ahead : w.now ≤ new.nextTick) : w.now ≤ l'.nextTick := by
    rcases loop_of_set loops loop with ⟨-, rfl⟩ | ⟨-, old⟩
    · exact ahead
    · exact kept old
  cases change with
  | unseen _ loops => exact kept (loops ▸ loop)
  | ticked cached own live _ _ loops =>
    have here := (loops_at cached).trans (congrArg some own)
    exact written loops (Nat.le_add_right_of_le (on.not_late here live))
  | reset _ _ _ loops | setOff _ _ _ _ _ loops => exact written loops (Nat.le_add_right _ _)

/-- **So many ticks after it was started or reset at an instant**, the loop of a cache, if it is
there, ticks next one interval after the last of them. -/
structure Scheduled (w : World) (slot start interval ticks : Nat) : Prop where
  made : ∀ c, w.cache? slot = some c → c.interval = interval
  next : ∀ l, w.loops[slot]? = some (some l) → l.nextTick = start + (ticks + 1) * interval

/-- Caches go on to be made of what they were made of. -/
theorem interval_of_makes (makes : w'.makes = w.makes) {interval : Nat}
    (made : ∀ c, w.cache? slot = some c → c.interval = interval) (cached : w'.cache? slot = some c) :
    c.interval = interval := by
  obtain ⟨old, cached, make⟩ := cache?_of_makes makes.symm cached
  exact (congrArg Prod.snd make).symm.trans (made old cached)

namespace Scheduled

variable {start interval ticks : Nat} {e : Option LoopEvent} {spawned : Spawned}

theorem keep (scheduled : w.Scheduled slot start interval ticks) (spares : w.Spares w')
    (makes : w'.makes = w.makes) : w'.Scheduled slot start interval ticks :=
  ⟨fun _ cached => interval_of_makes makes scheduled.made cached,
    fun l loop => scheduled.next l (spares.old slot l loop)⟩

/-- The loop is written, with this instant for its next tick. -/
theorem of_set (later : w.Later w') (made : ∀ c, w.cache? slot = some c → c.interval = interval)
    {new : Loop} (loops : w'.loops = w.loops.set slot (some new))
    (next : new.nextTick = start + (ticks + 1) * interval) :
    w'.Scheduled slot start interval ticks := by
  refine ⟨fun _ cached => interval_of_makes later.makes made cached, fun l loop => ?_⟩
  rcases loop_of_set loops loop with ⟨-, rfl⟩ | ⟨apart, -⟩
  · exact next
  · exact absurd rfl apart

/-- **A start puts the loop on schedule**, from the instant when it is over. -/
theorem of_seenTo {scope : ScopeId} (cached : w.cache? slot = some c) (later : w.Later w')
    (change : w.LoopChange (some (.seenTo slot scope)) spawned w') :
    w'.Scheduled slot w.now c.interval 0 := by
  have made (c' : Cache) (cached' : w.cache? slot = some c') : c'.interval = c.interval := by
    cases cached.symm.trans cached'
    rfl
  have next : w.now + c.interval = w.now + (0 + 1) * c.interval := by rw [Nat.zero_add, Nat.one_mul]
  cases change with
  | reset cached' _ _ loops =>
    cases cached.symm.trans cached'
    exact of_set later made loops next
  | setOff _ _ cached' _ _ loops =>
    cases cached.symm.trans cached'
    exact of_set later made loops next

/-- **A loop that is not late keeps to its schedule**: a step takes the tick that is due at this very
instant, or none. -/
theorem change (scheduled : w.Scheduled slot start interval ticks) (on : w.OnTime)
    (later : w.Later w') (change : w.LoopChange e spawned w')
    (unseen : ∀ scope, e ≠ some (.seenTo slot scope)) :
    e.filter (·.slot == slot) = none ∧ w'.Scheduled slot start interval ticks ∨
      e.filter (·.slot == slot) = some (.tick slot) ∧ w.now = start + (ticks + 1) * interval ∧
        w'.Scheduled slot start interval (ticks + 1) := by
  have elsewhere {other : Nat} {new : Loop} (loops : w'.loops = w.loops.set other (some new))
      (apart : other ≠ slot) : w'.Scheduled slot start interval ticks := by
    refine ⟨fun _ cached => interval_of_makes later.makes scheduled.made cached, fun l loop => ?_⟩
    rcases loop_of_set loops loop with ⟨here, -⟩ | ⟨-, old⟩
    · exact absurd here apart
    · exact scheduled.next l old
  cases change with
  | unseen _ loops =>
    exact .inl ⟨rfl, fun _ cached => interval_of_makes later.makes scheduled.made cached,
      fun l loop => scheduled.next l (loops ▸ loop)⟩
  | @ticked other c l _ _ cached own live due _ loops =>
    by_cases here : other = slot
    · subst here
      have loop := (loops_at cached).trans (congrArg some own)
      have next := scheduled.next l loop
      refine .inr ⟨by simp, ?_, of_set later scheduled.made loops ?_⟩
      · exact (Nat.le_antisymm (on.not_late loop live) due).trans next
      · rw [next, scheduled.made c cached, Nat.add_assoc, ← Nat.succ_mul]
    · exact .inl ⟨by simp [here], elsewhere loops here⟩
  | @reset other _ _ scope _ _ _ _ loops =>
    have apart : other ≠ slot := fun here => unseen scope (here ▸ rfl)
    exact .inl ⟨by simp [apart], elsewhere loops apart⟩
  | @setOff other _ scope _ _ _ _ _ _ _ _ loops =>
    have apart : other ≠ slot := fun here => unseen scope (here ▸ rfl)
    exact .inl ⟨by simp [apart], elsewhere loops apart⟩

end Scheduled

end World

/-- No loop is late when a session begins. -/
theorem CheckTree.Planned.onTime {t : CheckTree} {plan : Plan} (planned : t.Planned plan)
    (before : List Event) : (Scenario.Session.ofTree (some t) before).machine.world.OnTime :=
  World.onTime_iff.mpr fun slot l loop => absurd loop (planned.no_loops before slot l)

namespace Scenario.Session

variable {known : Check → Prop} {s : Session} {held : List ScopeId} {slot : Nat}

theorem punctual_append {s : Session} {run later : List Move} :
    s.Punctual (run ++ later) ↔ s.Punctual run ∧ (s.moves run).Punctual later := by
  induction run generalizing s with
  | nil => exact (iff_of_eq (true_and _)).symm
  | cons next rest ih =>
    rw [List.cons_append, Punctual, Punctual, ih, and_assoc]
    rfl

/-- **A punctual move makes no loop late.** -/
theorem move_onTime (within : s.Within known held) (looped : s.machine.Looped held)
    (on : s.machine.world.OnTime) {next : Move} (punctual : s.PunctualMove next) :
    (s.move next).machine.world.OnTime := by
  rcases move_cases within next with ⟨⟨_, touched⟩, -⟩ | ⟨i, rfl⟩ | ⟨ms, rfl⟩ | ⟨given, rfl⟩
  · exact touched.keep (I := fun m => m.world.OnTime)
      (fun touch looped on => on.keep looped.knows (touch.spares looped.knows) touch.kept.now)
      looped on
  · obtain ⟨spawned, -, change⟩ := Machine.takeTurn_change looped.knows i
    exact on.change looped.knows (s.machine.takeTurn_later i) change
  · exact punctual.2
  · exact on

/-- Nor does a punctual run. -/
theorem moves_onTime (within : s.Within known held) (sheltered : s.machine.Sheltered held)
    (looped : s.machine.Looped held) (on : s.machine.world.OnTime) {run : List Move}
    (punctual : s.Punctual run) : (s.moves run).machine.world.OnTime := by
  induction run generalizing s held with
  | nil => exact on
  | cons next rest ih =>
    obtain ⟨held', within', sheltered', looped'⟩ := move_looped within sheltered looped next
    exact ih within' sheltered' looped' (move_onTime within looped on punctual.1) punctual.2

/-- **A move keeps the loop of a cache on schedule**, unless it is seen to: it takes the tick of this
very instant, or none. -/
theorem move_scheduled (within : s.Within known held) (looped : s.machine.Looped held)
    (on : s.machine.world.OnTime) {start interval ticks : Nat}
    (scheduled : s.machine.world.Scheduled slot start interval ticks) {next : Move}
    (unseen : ∀ scope, s.loopEvent? next ≠ some (.seenTo slot scope)) :
    (s.loopEvent? next).filter (·.slot == slot) = none ∧
        (s.move next).machine.world.Scheduled slot start interval ticks ∨
      (s.loopEvent? next).filter (·.slot == slot) = some (.tick slot) ∧
        s.machine.now = start + (ticks + 1) * interval ∧
        (s.move next).machine.world.Scheduled slot start interval (ticks + 1) := by
  rcases move_cases within next with
    ⟨⟨_, touched⟩, none, -⟩ | ⟨i, rfl⟩ | ⟨ms, rfl⟩ | ⟨given, rfl⟩
  · refine .inl ⟨by rw [none]; rfl, ?_⟩
    exact touched.keep (I := fun m => m.world.Scheduled slot start interval ticks)
      (fun touch looped scheduled => scheduled.keep (touch.spares looped.knows) touch.kept.makes)
      looped scheduled
  · obtain ⟨spawned, -, change⟩ := Machine.takeTurn_change looped.knows i
    exact scheduled.change on (s.machine.takeTurn_later i) change unseen
  · exact .inl ⟨rfl, scheduled.made, scheduled.next⟩
  · exact .inl ⟨rfl, scheduled.made, scheduled.next⟩

/-- **Over a punctual run the ticks of a loop that nobody sees to are one interval apart.** -/
theorem moves_scheduled (within : s.Within known held) (sheltered : s.machine.Sheltered held)
    (looped : s.machine.Looped held) (on : s.machine.world.OnTime) {start interval ticks : Nat}
    (scheduled : s.machine.world.Scheduled slot start interval ticks) {run : List Move}
    (punctual : s.Punctual run)
    (unseen : ∀ now scope, (now, .seenTo slot scope) ∉ s.loopEvents slot run) :
    ∃ more, s.loopEvents slot run = (List.range' ticks more).map
        (fun k => (start + (k + 1) * interval, .tick slot)) ∧
      (s.moves run).machine.world.Scheduled slot start interval (ticks + more) := by
  induction run generalizing s held ticks with
  | nil => exact ⟨0, rfl, scheduled⟩
  | cons next rest ih =>
    obtain ⟨held', within', sheltered', looped'⟩ := move_looped within sheltered looped next
    have on' := move_onTime within looped on punctual.1
    have spared (now : Nat) (scope : ScopeId) :
        (now, .seenTo slot scope) ∉ (s.move next).loopEvents slot rest :=
      fun mem => unseen now scope (List.mem_append_right _ mem)
    have unseen' (scope : ScopeId) : s.loopEvent? next ≠ some (.seenTo slot scope) := by
      intro event
      refine unseen s.machine.now scope (List.mem_append_left _ ?_)
      simp [event]
    rcases move_scheduled within looped on scheduled unseen' with
      ⟨quiet, scheduled'⟩ | ⟨tick, now, scheduled'⟩
    · obtain ⟨more, events, last⟩ := ih within' sheltered' looped' on' scheduled' punctual.2 spared
      refine ⟨more, ?_, last⟩
      rw [loopEvents, quiet]
      exact events
    · obtain ⟨more, events, last⟩ := ih within' sheltered' looped' on' scheduled' punctual.2 spared
      refine ⟨more + 1, ?_, ?_⟩
      · rw [loopEvents, tick, List.range'_succ, List.map_cons, events, now]
        rfl
      · rw [Nat.add_right_comm] at last
        exact last

/-- **A loop that is on schedule ticks on schedule** over a punctual run, until it is seen to. -/
theorem ticks_of_scheduled (within : s.Within known held) (sheltered : s.machine.Sheltered held)
    (looped : s.machine.Looped held) (on : s.machine.world.OnTime) {start interval : Nat}
    (scheduled : s.machine.world.Scheduled slot start interval 0) {run : List Move}
    (punctual : s.Punctual run)
    (unseen : ∀ now scope, (now, .seenTo slot scope) ∉ s.loopEvents slot run) :
    s.TicksOnSchedule slot start interval run := by
  obtain ⟨n, events, last⟩ :=
    moves_scheduled within sheltered looped on scheduled punctual unseen
  refine ⟨n, events.trans (by rw [List.range_eq_range']), fun runs => ?_⟩
  obtain ⟨l, loop, live⟩ := Machine.runsAt_iff.mp runs
  have next := last.next l loop
  rw [Nat.zero_add] at next
  have ahead := World.onTime_iff.mp
    (moves_onTime within sheltered looped on punctual) slot l loop
  rw [next] at ahead
  exact ahead live

open CheckTree (ofBlueprint?)

/-- **A loop ticks on schedule** from the instant when a start is over that has set it off or reset
its timer, and until it is seen to again. -/
theorem ticks_on_schedule {b : Blueprint} {t : CheckTree} (built : ofBlueprint? b = some t)
    (before : List Event) (run : List Move) {i slot : Nat} {scope : ScopeId} {c : Cache}
    {later : List Move} :
    let s := (ofTree (some t) before).moves run
    let s' := s.move (.turn i)
    (ofTree (some t) before).Punctual (run ++ .turn i :: later) →
    s.loopEvent? (.turn i) = some (.seenTo slot scope) →
    s.machine.world.cache? slot = some c →
    (∀ now scope, (now, .seenTo slot scope) ∉ s'.loopEvents slot later) →
      s'.TicksOnSchedule slot s.machine.now c.interval later := by
  intro s s' punctual seen cached unseen
  obtain ⟨plan, planned⟩ := CheckTree.planned_ofBlueprint built
  obtain ⟨held₀, within₀, sheltered₀, looped₀⟩ := looped_of_moves built before []
  obtain ⟨held, within, sheltered, looped⟩ := looped_of_moves built before run
  obtain ⟨punctual, punctual'⟩ := punctual_append.mp punctual
  have on := moves_onTime within₀ sheltered₀ looped₀ (planned.onTime before) punctual
  obtain ⟨held', within', sheltered', looped'⟩ := move_looped within sheltered looped (.turn i)
  have turn : s.PunctualMove (.turn i) := trivial
  have on' := move_onTime within looped on turn
  obtain ⟨spawned, -, change⟩ := Machine.takeTurn_change looped.knows i
  have event : s.machine.loopEvent? i = some (.seenTo slot scope) := seen
  rw [event] at change
  have scheduled : s'.machine.world.Scheduled slot s.machine.now c.interval 0 :=
    .of_seenTo cached (s.machine.takeTurn_later i) change
  exact ticks_of_scheduled within' sheltered' looped' on' scheduled punctual'.2 unseen

end Scenario.Session

end HealthTree
