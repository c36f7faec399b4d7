import HealthTree.Proofs.Debouncing
import HealthTree.Proofs.Telling
import HealthTree.Proofs.Ticks

/-!
# What the metrics and the events say is so

A run leaves marks of what caches put down (`Session.marks`), and observations of what debounced
checks see (`Session.observations`). The series of a name count these: the commits with a fault and
without one, the ticks that were skipped, the failures that were hidden; and the status shown is
that of the last commit under the name (`Session.Truthful`). Events are told as often as is counted.

What a mark stands for is said move by move (`Session.PutsDown`): a commit is made by a refresh
whose scope is live and whose inner check has come to the outcome, and by nothing else, so a refresh
that is interrupted, dropped or panics has none; a skip is a tick taken while a refresh is under way
or in line; and the states of caches change by commits only.

Names may be shared, by nested caches of one check among others. The series of a name then count
what all its checks do.
-/

namespace HealthTree

namespace Mark

variable {m : Metrics} {name : String}

/-- A commit under the name, without a fault (`true`) or with one. -/
def commits (name : String) (ok : Bool) : Mark → Bool
  | committed _ there _ o => there == name && (Snapshot.ofOutcome o).isOk == ok
  | skipped _ _ => false

/-- A tick that is skipped, under the name. -/
def skips (name : String) : Mark → Bool
  | skipped _ there => there == name
  | committed _ _ _ _ => false

/-- The outcome committed under the name. -/
def outcomeAs? (name : String) : Mark → Option Outcome
  | committed _ there _ o => if there = name then some o else none
  | skipped _ _ => none

/-- The outcome committed, with its cache. -/
def commit? : Mark → Option (Nat × Outcome)
  | committed slot _ _ o => some (slot, o)
  | skipped _ _ => none

/-- A commit is counted under its name, once. -/
theorem record_refreshed (k : Mark) (ok : Bool) :
    (k.record m).count (.refreshed name ok) =
      m.count (.refreshed name ok) + if k.commits name ok then 1 else 0 := by
  cases k with
  | committed slot there purpose o =>
    simp only [record, Metrics.count_set, Metrics.count_bump, reduceCtorEq, if_false,
      Series.refreshed.injEq, commits, Bool.and_eq_true, beq_iff_eq, eq_comm (a := name),
      eq_comm (a := ok)]
  | skipped slot there =>
    simp [record, Metrics.count_bump, commits]

/-- A skip is counted under its name, once. -/
theorem record_skipped (k : Mark) :
    (k.record m).count (.skipped name) =
      m.count (.skipped name) + if k.skips name then 1 else 0 := by
  cases k with
  | committed slot there purpose o =>
    simp [record, Metrics.count_set, Metrics.count_bump, skips]
  | skipped slot there =>
    simp only [record, Metrics.count_bump, Series.skipped.injEq, skips, beq_iff_eq,
      eq_comm (a := name)]

/-- A commit shows its status under its name. -/
theorem record_status (k : Mark) :
    (k.record m).get? (.status name) =
      ((k.outcomeAs? name).map fun o => o.health.effective.severity).or (m.get? (.status name)) := by
  cases k with
  | committed slot there purpose o =>
    have health : (Snapshot.ofOutcome o).health = o.health := by cases o <;> rfl
    simp only [record, Metrics.bump, Metrics.get?_set, Series.status.injEq, reduceCtorEq, if_false,
      outcomeAs?, health, eq_comm (a := name)]
    split <;> rfl
  | skipped slot there =>
    simp [record, Metrics.bump, Metrics.get?_set, outcomeAs?]

theorem recordAll_refreshed (ks : List Mark) (ok : Bool) :
    (ks.foldl record m).count (.refreshed name ok) =
      m.count (.refreshed name ok) + ks.countP (commits name ok) := by
  induction ks generalizing m with
  | nil => rfl
  | cons k rest ih =>
    rw [List.foldl_cons, ih, record_refreshed, List.countP_cons]
    omega

theorem recordAll_skipped (ks : List Mark) :
    (ks.foldl record m).count (.skipped name) =
      m.count (.skipped name) + ks.countP (skips name) := by
  induction ks generalizing m with
  | nil => rfl
  | cons k rest ih =>
    rw [List.foldl_cons, ih, record_skipped, List.countP_cons]
    omega

/-- The status shown is that of the last commit. -/
theorem recordAll_status (ks : List Mark) :
    (ks.foldl record m).get? (.status name) =
      ((ks.filterMap (outcomeAs? name)).getLast?.map fun o => o.health.effective.severity).or
        (m.get? (.status name)) := by
  induction ks generalizing m with
  | nil => rfl
  | cons k rest ih =>
    rw [List.foldl_cons, ih, record_status, ← Option.or_assoc, ← Option.map_or]
    cases made : k.outcomeAs? name with
    | none => rw [List.filterMap_cons_none made, Option.or_none]
    | some o =>
      rw [List.filterMap_cons_some made, List.getLast?_cons, Option.or_some]

end Mark

/-! ## What a mark stands for -/

/-- **A refresh commits what the call of its inner check comes to**, if its scope is live. -/
theorem Job.mark?_committed {id : JobId} {w : World} {job : Job} {jobs : List (JobId × Job)}
    {held : List ScopeId} (sheltered : w.Sheltered jobs held) (mem : (id, job) ∈ jobs)
    {slot : Nat} {name : String} {purpose : Purpose} {o : Outcome} :
    job.mark? id w = some (.committed slot name purpose o) ↔
      ∃ scope phase c limit flight w₁, job = .refresh slot scope purpose phase ∧
        w.cache? slot = some c ∧ c.name = name ∧ w.cause? scope = none ∧
        w.attempt id slot c scope phase = .calls limit flight w₁ ∧
        (w₁.callInner limit flight).1 = .done o := by
  have comes {t : Turn} {o : Outcome} : t.outcome? = some o ↔ t = .done o := by
    cases t <;> simp [Turn.outcome?]
  constructor
  · intro made
    obtain ⟨scope, phase, rfl, live⟩ := Job.live_of_committed
      (fun scope under => sheltered.scopes _ mem scope under) made
    obtain ⟨c, cached, made⟩ := Option.bind_eq_some_iff.mp made
    cases attempted : w.attempt id slot c scope phase with
    | refused | waits =>
      rw [attempted] at made
      cases made
    | calls limit flight w₁ =>
      rw [attempted] at made
      simp only at made
      split at made
      · cases made
      · obtain ⟨o', outcome, same⟩ := Option.map_eq_some_iff.mp made
        cases same
        exact ⟨scope, phase, c, limit, flight, w₁, rfl, cached, rfl, live, attempted,
          comes.mp outcome⟩
  · rintro ⟨scope, phase, c, limit, flight, w₁, rfl, cached, rfl, live, attempted, done⟩
    have later := (w.attempt_aside id slot c scope phase).toLater
    rw [attempted] at later
    have live' : w₁.cause? scope = none :=
      (later.cause? (sheltered.scopes _ mem scope rfl)).trans live
    simp only [mark?, cached, attempted, live', done, Option.bind_some, Option.isSome_none,
      Bool.false_eq_true, if_false]
    rfl

/-- **A loop skips a tick** that it takes if the lock of its cache is not free. -/
theorem Job.mark?_skipped {id : JobId} {w : World} {job : Job} {slot : Nat} {name : String} :
    job.mark? id w = some (.skipped slot name) ↔
      ∃ own c, job = .loop slot own ∧ w.cache? slot = some c ∧ c.name = name ∧
        w.takesTick c own = true ∧ c.isIdle = false := by
  constructor
  · intro made
    obtain ⟨own, c, rfl, cached, taken⟩ := Job.takes_of_skipped made
    simp only [mark?, cached, Option.bind_some, taken, Bool.true_and] at made
    split at made
    · next busy =>
      cases made
      exact ⟨own, c, rfl, cached, rfl, taken, by simpa using busy⟩
    · cases made
  · rintro ⟨own, c, rfl, cached, rfl, taken, busy⟩
    simp [mark?, cached, taken, busy]

/-- The lock of a cache is not free if and only if a refresh holds it or waits for it. -/
theorem Machine.Locked.busy_iff {m : Machine} (locked : m.Locked) {slot : Nat} {c : Cache}
    (cached : m.world.cache? slot = some c) :
    c.isIdle = false ↔ ∃ p ∈ m.jobs, p.2.stake slot ≠ .free := by
  have agrees (p : JobId × Job) (mem : p ∈ m.jobs) : c.lock.Gives p.1 (p.2.stake slot) :=
    locked.agrees p mem slot _ (World.locks_at cached)
  have known (id : JobId) (given : c.holder = some id ∨ id ∈ c.waiting) :
      ∃ p ∈ m.jobs, p.2.stake slot ≠ .free := by
    rcases locked.gives cached id with ⟨job, mem, gives⟩ | gives
    · refine ⟨(id, job), mem, ?_⟩
      intro free
      rw [free] at gives
      rcases given with holder | waits
      · cases gives.1.mp holder
      · cases gives.2.mp waits
    · rcases given with holder | waits
      · cases gives.1.mp holder
      · cases gives.2.mp waits
  constructor
  · intro busy
    cases holder : c.holder with
    | some id => exact known id (.inl holder)
    | none =>
      have line : c.waiting ≠ [] := by
        intro empty
        simp [Cache.isIdle, holder, empty] at busy
      obtain ⟨id, waits⟩ := List.exists_mem_of_ne_nil _ line
      exact known id (.inr waits)
  · rintro ⟨p, mem, stake⟩
    have gives := agrees p mem
    cases has : p.2.stake slot with
    | free => exact absurd has stake
    | holds =>
      have holder : c.holder = some p.1 := gives.1.mpr has
      simp [Cache.isIdle, holder]
    | waits =>
      have line : c.waiting ≠ [] := List.ne_nil_of_mem (gives.2.mpr has)
      simp [Cache.isIdle, line]

namespace Scenario.Session

open CheckTree (ofBlueprint?)

/-- **What a move puts down of caches.** -/
structure PutsDown (s : Session) (next : Move) : Prop where
  /-- A commit is made by a refresh whose scope is live and whose inner check has come to this. -/
  committed : ∀ slot name purpose o, s.mark? next = some (.committed slot name purpose o) ↔
    ∃ i id scope phase c limit flight w, next = .turn i ∧
      s.machine.jobs[i]? = some (id, .refresh slot scope purpose phase) ∧
      s.machine.world.cache? slot = some c ∧ c.name = name ∧
      s.machine.world.cause? scope = none ∧
      s.machine.world.attempt id slot c scope phase = .calls limit flight w ∧
      (w.callInner limit flight).1 = .done o
  /-- A tick that a loop takes is skipped if a refresh of its cache is under way or in line. -/
  skipped : ∀ slot name, s.mark? next = some (.skipped slot name) ↔
    (∃ i id own c, next = .turn i ∧ s.machine.jobs[i]? = some (id, .loop slot own) ∧
      s.machine.world.cache? slot = some c ∧ c.name = name ∧
      s.machine.world.takesTick c own = true) ∧
      ∃ p ∈ s.machine.jobs, p.2.stake slot ≠ .free
  /-- The states of caches change by commits only. -/
  states : (s.move next).machine.world.states =
    s.machine.world.statesAfter ((s.mark? next).bind Mark.commit?)

/-- **The metrics and events of a name say what happened under it** in a run from the beginning. -/
structure Truthful (s : Session) (run : List Move) (name : String) : Prop where
  refreshed : ∀ ok, (s.moves run).machine.world.metrics.count (.refreshed name ok) =
    (s.marks run).countP (Mark.commits name ok)
  status : (s.moves run).machine.world.metrics.get? (.status name) =
    ((s.marks run).filterMap (Mark.outcomeAs? name)).getLast?.map fun o =>
      o.health.effective.severity
  skipped : (s.moves run).machine.world.metrics.count (.skipped name) =
    (s.marks run).countP (Mark.skips name)
  suppressed : (s.moves run).machine.world.metrics.count (.suppressed name) =
    (s.observations run).countP fun x => x.name == name && x.hidden
  /-- Failures that are committed, ticks that are skipped and failures that are hidden are told as
  often as they are counted. -/
  told : ∀ series ∈ [.refreshed name false, .skipped name, .suppressed name],
    series.tally (s.told run) = (s.moves run).machine.world.metrics.count series

variable {known : Check → Prop} {s : Session} {held : List ScopeId}

/-- The refresh that a move finishes is the one that it commits. -/
theorem refreshed?_eq (sheltered : s.machine.Sheltered held) (next : Move) :
    s.refreshed? next = (s.mark? next).bind Mark.commit? := by
  cases next with
  | begin | aside | pass | grace => rfl
  | turn i =>
    simp only [refreshed?, mark?]
    cases found : s.machine.jobs[i]? with
    | none => rfl
    | some p =>
      have same := Job.refreshed_of_mark sheltered (List.mem_of_getElem? found)
      simp only [Option.bind_some]
      cases finished : p.2.refreshed? p.1 s.machine.world with
      | some r =>
        have here := same r.1
        simp only [finished, Option.filter_some, beq_self_eq_true, if_true, Option.map_some] at here
        obtain ⟨k, made, outcome⟩ := Option.bind_eq_some_iff.mp here.symm
        rw [made]
        cases k with
        | skipped => cases outcome
        | committed slot name purpose o =>
          simp only [Mark.outcome?] at outcome
          split at outcome
          · next there =>
            cases outcome
            rw [there]
            rfl
          · cases outcome
      | none =>
        cases made : p.2.mark? p.1 s.machine.world with
        | none => rfl
        | some k =>
          cases k with
          | skipped => rfl
          | committed slot name purpose o =>
            have none := same slot
            simp [finished, made, Mark.outcome?] at none

theorem putsDown (within : s.Within known held) (sheltered : s.machine.Sheltered held)
    (locked : s.machine.Locked) (next : Move) : s.PutsDown next := by
  constructor
  case committed =>
    intro slot name purpose o
    constructor
    · intro made
      cases next with
      | begin | aside | pass | grace => cases made
      | turn i =>
        obtain ⟨⟨id, job⟩, found, made⟩ := Option.bind_eq_some_iff.mp made
        obtain ⟨scope, phase, c, limit, flight, w, rfl, rest⟩ :=
          (Job.mark?_committed sheltered (List.mem_of_getElem? found)).mp made
        exact ⟨i, id, scope, phase, c, limit, flight, w, rfl, found, rest⟩
    · rintro ⟨i, id, scope, phase, c, limit, flight, w, rfl, found, rest⟩
      refine Option.bind_eq_some_iff.mpr ⟨_, found, ?_⟩
      exact (Job.mark?_committed sheltered (List.mem_of_getElem? found)).mpr
        ⟨scope, phase, c, limit, flight, w, rfl, rest⟩
  case skipped =>
    intro slot name
    constructor
    · intro made
      cases next with
      | begin | aside | pass | grace => cases made
      | turn i =>
        obtain ⟨⟨id, job⟩, found, made⟩ := Option.bind_eq_some_iff.mp made
        obtain ⟨own, c, rfl, cached, named, taken, busy⟩ := Job.mark?_skipped.mp made
        exact ⟨⟨i, id, own, c, rfl, found, cached, named, taken⟩, (locked.busy_iff cached).mp busy⟩
    · rintro ⟨⟨i, id, own, c, rfl, found, cached, named, taken⟩, busy⟩
      refine Option.bind_eq_some_iff.mpr ⟨_, found, Job.mark?_skipped.mpr ?_⟩
      exact ⟨own, c, rfl, cached, named, taken, (locked.busy_iff cached).mpr busy⟩
  case states => rw [move_states within sheltered next, refreshed?_eq sheltered next]

/-- **Metrics and events tell the truth**, in every state of every run and under every name, shared
or not; and so do the marks and observations that they count. -/
theorem truthful_of_moves {b : Blueprint} {t : CheckTree} (built : ofBlueprint? b = some t)
    (before : List Event) (run : List Move) :
    let s := ofTree (some t) before
    (∀ name, s.Truthful run name) ∧ (∀ next, (s.moves run).PutsDown next) ∧
      ∀ slot budget inner, t.root.Has (.debounced slot budget inner) →
        ∀ x ∈ s.observations run, x.slot = slot → x.name = inner.name := by
  intro s
  obtain ⟨plan, planned⟩ := CheckTree.planned_ofBlueprint built
  have within := planned.within before
  obtain ⟨held, within', sheltered, -⟩ := looped_of_moves built before run
  obtain ⟨named, -, hidden⟩ := moves_observations within (ofTree_calls planned before) run
  have agree := moves_metrics within run
  have counted {series : Series} (apart : series.isSuppressed = false) :
      (s.moves run).machine.world.metrics.count series =
        ((s.marks run).foldl Mark.record s.machine.world.metrics).count series :=
    congrArg (Option.getD · 0) (agree series apart)
  refine ⟨fun name => ?_, putsDown within' sheltered (locked_of_moves built before run),
    fun slot budget inner node x mem here => ?_⟩
  · constructor
    case refreshed =>
      intro ok
      rw [counted rfl, Mark.recordAll_refreshed]
      exact Nat.zero_add _
    case status =>
      rw [agree _ rfl, Mark.recordAll_status]
      exact Option.or_none
    case skipped =>
      rw [counted rfl, Mark.recordAll_skipped]
      exact Nat.zero_add _
    case suppressed =>
      rw [hidden name]
      exact Nat.zero_add _
    case told =>
      intro series listed
      have counter : series.isTold = true := by
        simp only [List.mem_cons, List.not_mem_nil, or_false] at listed
        rcases listed with rfl | rfl | rfl <;> rfl
      rw [moves_told within run counter]
      exact (Nat.zero_add _).symm
  · have here' := planned.root.debounced slot budget inner node
    exact (named slot budget inner _ here' (ofTree_debounce planned before here')).2 x
      (List.mem_filter.mpr ⟨mem, beq_iff_eq.mpr here⟩)

/-- A tick falls into a refresh that takes long and ends in a failure that is hidden; the next
failure is committed. -/
theorem truthful_of_moves_hidden :
    let down : Outcome := .error (.ofFault (.probe "down"))
    let p : Probe := ⟨"p", "p", ⟨[], .outcome (.ok .healthy)⟩,
      [⟨[⟨some 40, false⟩], .outcome down⟩, ⟨[], .outcome down⟩]⟩
    let b : Blueprint := .cached 100 (.debounced 1 (.probe p))
    let run : List Move := [.begin (.start 0 {}), .turn 0, .pass 90, .begin (.force 0 {}), .turn 1,
      .pass 10, .turn 0, .pass 30, .turn 0, .begin (.force 0 {}), .turn 1]
    ∃ t, ofBlueprint? b = some t ∧
      let s := ofTree (some t) []
      let m := (s.moves run).machine.world.metrics
      s.Truthful run "p" ∧ m.get? (.status "p") = some Status.unhealthy.severity ∧
        m.count (.refreshed "p" true) = 2 ∧ m.count (.refreshed "p" false) = 1 ∧
        m.count (.skipped "p") = 1 ∧ m.count (.suppressed "p") = 1 ∧
        (Series.suppressed "p").tally (s.told run) = 1 := by
  intro down p b run
  have marked : (ofBlueprint? b).map (fun t =>
      let ks := (ofTree (some t) []).marks run
      (ks.countP (Mark.commits "p" true), ks.countP (Mark.commits "p" false),
        ks.countP (Mark.skips "p"), (ks.filterMap (Mark.outcomeAs? "p")).getLast?.map fun o =>
          o.health.effective.severity)) =
      some (2, 1, 1, some Status.unhealthy.severity) := by decide +kernel
  have observed : (ofBlueprint? b).map (fun t =>
      ((ofTree (some t) []).observations run).countP fun x => x.name == "p" && x.hidden) =
      some 1 := by decide +kernel
  cases built : ofBlueprint? b with
  | none => simp [built] at observed
  | some t =>
    simp only [built, Option.map_some, Option.some.injEq, Prod.mk.injEq] at marked observed
    obtain ⟨healthy, failed, skipped, last⟩ := marked
    have truthful := (truthful_of_moves built [] run).1 "p"
    have suppressed := truthful.suppressed.trans observed
    exact ⟨t, rfl, truthful, truthful.status.trans last, (truthful.refreshed true).trans healthy,
      (truthful.refreshed false).trans failed, truthful.skipped.trans skipped, suppressed,
      (truthful.told _ (by simp)).trans suppressed⟩

end Scenario.Session

end HealthTree
