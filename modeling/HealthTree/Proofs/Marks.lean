import HealthTree.Proofs.CacheHistory
import HealthTree.Proofs.Loops

/-!
# What caches put down

Two things are put down of a cache and nothing else: the outcome that a refresh of it commits, and
the tick that it skips. A run leaves a trace of these *marks* (`Session.marks`), in their order. They
say all there is to say of the states of caches and of the metrics: a cache holds the outcome that
was marked last for it (`moves_state_marked`), and every series but those of hidden failures stands
where the marks put it, one after the other (`moves_metrics`). Hidden failures are the business of
debounced checks.

Names may be shared. A mark goes by the place of its cache, and it is recorded under the name.
-/

namespace HealthTree

/-- What the series counts are failures that were hidden. -/
def Series.isSuppressed : Series → Bool
  | suppressed _ => true
  | status _ | refreshed _ _ | skipped _ => false

/-- What is put down of a cache. -/
inductive Mark where
  /-- A refresh commits an outcome. -/
  | committed (slot : Nat) (name : String) (purpose : Purpose) (o : Outcome)
  /-- A tick finds the cache busy. -/
  | skipped (slot : Nat) (name : String)
  deriving Inhabited

namespace Mark

/-- The cache it is put down of. -/
def slot : Mark → Nat
  | committed slot _ _ _ | skipped slot _ => slot

/-- A start asked for it, or a caller; else a tick has brought it about. -/
def requested : Mark → Bool
  | committed _ _ (.start _) _ | committed _ _ .force _ => true
  | committed _ _ .tick _ | skipped _ _ => false

/-- The outcome committed for a cache. -/
def outcome? (slot : Nat) : Mark → Option Outcome
  | committed there _ _ o => if there = slot then some o else none
  | skipped _ _ => none

theorem outcome?_of_ne {k : Mark} {slot : Nat} (apart : k.slot ≠ slot) : k.outcome? slot = none := by
  cases k with
  | committed there name purpose o => exact if_neg apart
  | skipped => rfl

/-- **How a mark is recorded.** -/
def record (m : Metrics) : Mark → Metrics
  | committed _ name _ o =>
    (m.bump (.refreshed name (Snapshot.ofOutcome o).isOk)).set (.status name)
      (Snapshot.ofOutcome o).health.effective.severity
  | skipped _ name => m.bump (.skipped name)

end Mark

/-- The loop under this scope takes a tick: it is live and the tick is due, or it has ended and one
is left. -/
def World.takesTick (w : World) (c : Cache) (scope : ScopeId) : Bool :=
  match w.cause? scope with
  | some _ => w.tickLeft c scope
  | none => c.loop.any fun l => l.scope == scope && l.nextTick ≤ w.now

/-- **What a step of a job puts down.** A refresh commits what the call of its inner check has come
to, unless its scope has ended. -/
def Job.mark? (id : JobId) (w : World) : Job → Option Mark
  | refresh slot scope purpose phase =>
    (w.cache? slot).bind fun c =>
      match w.attempt id slot c scope phase with
      | .calls limit flight w =>
        if (w.cause? scope).isSome then none
        else (w.callInner limit flight).1.outcome?.map (.committed slot c.name purpose)
      | .refused _ _ | .waits _ => none
  | loop slot scope =>
    (w.cache? slot).bind fun c =>
      if w.takesTick c scope && !c.isIdle then some (.skipped slot c.name) else none
  | call _ _ _ | work _ _ | watch _ _ | sleep _ => none

namespace Job

variable {id : JobId} {w : World} {job : Job} {slot : Nat} {name : String}

/-- **Only a refresh commits**, and only while its scope is live. -/
theorem live_of_committed {purpose : Purpose} {o : Outcome}
    (known : ∀ scope, job.scope? = some scope → scope < w.scopes.next)
    (made : job.mark? id w = some (.committed slot name purpose o)) :
    ∃ scope phase, job = .refresh slot scope purpose phase ∧ w.cause? scope = none := by
  cases job with
  | refresh there scope purpose' phase =>
    obtain ⟨c, -, made⟩ := Option.bind_eq_some_iff.mp made
    have later := (w.attempt_aside id there c scope phase).toLater
    cases attempted : w.attempt id there c scope phase with
    | refused | waits =>
      rw [attempted] at made
      cases made
    | calls limit flight w₁ =>
      rw [attempted] at made later
      simp only at made
      split at made
      · cases made
      · rename_i live
        obtain ⟨o', -, same⟩ := Option.map_eq_some_iff.mp made
        cases same
        rw [Option.not_isSome_iff_eq_none] at live
        exact ⟨scope, phase, rfl, (later.cause? (known scope rfl)).symm.trans live⟩
  | loop there scope =>
    obtain ⟨c, -, made⟩ := Option.bind_eq_some_iff.mp made
    split at made <;> cases made
  | call | work | watch | sleep => cases made

/-- **Only a loop skips a tick**, one that it takes. -/
theorem takes_of_skipped (made : job.mark? id w = some (.skipped slot name)) :
    ∃ scope c, job = .loop slot scope ∧ w.cache? slot = some c ∧ w.takesTick c scope = true := by
  cases job with
  | refresh there scope purpose phase =>
    obtain ⟨c, -, made⟩ := Option.bind_eq_some_iff.mp made
    split at made
    · split at made
      · cases made
      · obtain ⟨o, -, same⟩ := Option.map_eq_some_iff.mp made
        cases same
    · cases made
    · cases made
  | loop there scope =>
    obtain ⟨c, cached, made⟩ := Option.bind_eq_some_iff.mp made
    split at made <;> cases made
    rename_i taken
    exact ⟨scope, c, rfl, cached, (Bool.and_eq_true_iff.mp taken).1⟩
  | call | work | watch | sleep => cases made

end Job

/-! ## Metrics -/

namespace Metrics

/-- Two records agree on all but the counts of hidden failures. -/
def Agree (m m' : Metrics) : Prop :=
  ∀ series : Series, series.isSuppressed = false → m'.get? series = m.get? series

variable {m m' m'' : Metrics}

theorem Agree.of_eq (same : m' = m) : m.Agree m' :=
  fun _ _ => same ▸ rfl

theorem Agree.refl (m : Metrics) : m.Agree m :=
  .of_eq rfl

theorem Agree.trans (first : m.Agree m') (second : m'.Agree m'') : m.Agree m'' :=
  fun series other => (second series other).trans (first series other)

theorem Agree.set (agree : m.Agree m') (s : Series) (n : Nat) : (m.set s n).Agree (m'.set s n) := by
  intro series other
  rw [get?_set, get?_set, agree series other]

theorem Agree.bump (agree : m.Agree m') {s : Series} (counted : s.isSuppressed = false) :
    (m.bump s).Agree (m'.bump s) := by
  have same : m'.count s = m.count s := congrArg (Option.getD · 0) (agree s counted)
  rw [Metrics.bump, Metrics.bump, same]
  exact agree.set s _

/-- **Where records agree, they agree on what is recorded next.** -/
theorem Agree.record (agree : m.Agree m') (k : Mark) : (k.record m).Agree (k.record m') := by
  cases k with
  | committed slot name purpose o => exact (agree.bump rfl).set _ _
  | skipped slot name => exact agree.bump rfl

theorem Agree.recordAll (agree : m.Agree m') (ks : List Mark) :
    (ks.foldl Mark.record m).Agree (ks.foldl Mark.record m') := by
  induction ks generalizing m m' with
  | nil => exact agree
  | cons k rest ih => exact ih (agree.record k)

/-- A hidden failure is counted apart. -/
theorem agree_suppressed (m : Metrics) (name : String) : m.Agree (m.bump (.suppressed name)) := by
  intro series other
  rw [Metrics.bump, get?_set, if_neg]
  rintro rfl
  cases other

end Metrics

namespace World

variable {w : World} {id : JobId} {slot : Nat} {c : Cache} {scope limit : ScopeId}
  {purpose : Purpose}

/-- A call records nothing but the failures that it hides. -/
theorem performAll_agree (w : World) (deeds : List Deed) :
    w.metrics.Agree (w.performAll deeds).metrics := by
  induction deeds generalizing w with
  | nil => exact .refl _
  | cons d rest ih =>
    refine Metrics.Agree.trans ?_ (ih (w.perform d))
    cases d with
    | startCall | completeCall | tell => exact .refl _
    | observe slot budget name o =>
      cases o with
      | ok h => exact .refl _
      | error f =>
        simp only [perform, observe, tell, Debounce.record]
        split
        · exact Metrics.agree_suppressed _ name
        · exact .refl _

theorem callInner_agree (w : World) (limit : ScopeId) (flight : Flight) :
    w.metrics.Agree (w.callInner limit flight).2.metrics := by
  rw [callInner_world]
  split
  · exact Flight.step_world limit flight w ▸ w.performAll_agree _
  · exact .refl _

theorem attempt_metrics (w : World) (id : JobId) (slot : Nat) (c : Cache) (scope : ScopeId)
    (phase : Phase) : (w.attempt id slot c scope phase).world.metrics = w.metrics := by
  have cases := w.attempt_cases id slot c scope phase
  generalize w.attempt id slot c scope phase = a at cases ⊢
  cases cases <;> rfl

@[simp] theorem conclude_metrics {fault : Option Fault} :
    (w.conclude slot c scope fault purpose).2.2.metrics = w.metrics := by
  cases purpose with
  | force | tick => rfl
  | start rest =>
    simp only [conclude, ensureLoop]
    cases (w.tell (fault.toList.map (.firstRefreshFailed c.name))).loopRuns c <;> rfl

/-- **A refresh that has an outcome records it**, unless its scope has ended. -/
theorem finishRefresh_metrics (o : Outcome) :
    (w.finishRefresh slot c scope purpose o).2.2.metrics =
      if (w.cause? scope).isSome then w.metrics
      else (Mark.committed slot c.name purpose o).record w.metrics := by
  simp only [finishRefresh]
  cases w.cause? scope <;> exact conclude_metrics

theorem refreshTurn_agree (w : World) (slot : Nat) (c : Cache) (scope limit : ScopeId)
    (purpose : Purpose) (t : Turn) :
    ((if (w.cause? scope).isSome then none
      else t.outcome?.map (.committed slot c.name purpose)).toList.foldl Mark.record w.metrics).Agree
      (w.refreshTurn slot c scope purpose limit t).2.2.metrics := by
  cases t with
  | still flight | panicked =>
    cases w.cause? scope <;> exact .refl _
  | done o =>
    refine .of_eq ((finishRefresh_metrics o).trans ?_)
    cases w.cause? scope <;> rfl

theorem stepLoop_metrics :
    (w.stepLoop slot c scope).2.2.metrics =
      if w.takesTick c scope && !c.isIdle then (Mark.skipped slot c.name).record w.metrics
      else w.metrics := by
  unfold stepLoop takesTick
  cases w.cause? scope with
  | some cause => cases w.tickLeft c scope <;> cases idle : c.isIdle <;> simp [tick, idle] <;> rfl
  | none =>
    cases c.loop.any fun l => l.scope == scope && l.nextTick ≤ w.now <;>
      cases idle : c.isIdle <;> simp [tick, idle] <;> rfl

end World

/-- **A step of a job records what it puts down**, and the failures that it hides. -/
theorem Job.step_metrics (id : JobId) (w : World) (job : Job) :
    ((job.mark? id w).toList.foldl Mark.record w.metrics).Agree (job.step id w).2.2.metrics := by
  cases job with
  | call name scope flight =>
    simp only [mark?, Job.step]
    exact flight.step_world scope w ▸ w.performAll_agree _
  | refresh slot scope purpose phase =>
    simp only [mark?, Job.step]
    cases w.cache? slot with
    | none => exact .refl _
    | some c =>
      have before := w.attempt_metrics id slot c scope phase
      simp only [World.stepRefresh_eq, Option.bind_some]
      cases attempted : w.attempt id slot c scope phase with
      | refused cause w₁ =>
        rw [attempted] at before
        exact .of_eq (World.conclude_metrics.trans before)
      | waits w₁ =>
        rw [attempted] at before
        exact .of_eq before
      | calls limit flight w₁ =>
        rw [attempted] at before
        replace before : w₁.metrics = w.metrics := before
        simp only [World.goOnRefresh_eq]
        have called := w₁.callInner_agree limit flight
        have turned := (w₁.callInner limit flight).2.refreshTurn_agree slot c scope limit purpose
          (w₁.callInner limit flight).1
        rw [before] at called
        refine (called.recordAll _).trans ?_
        simpa only [World.callInner_cause?] using turned
  | loop slot scope =>
    simp only [mark?, Job.step]
    cases w.cache? slot with
    | none => exact .refl _
    | some c =>
      refine .of_eq (World.stepLoop_metrics.trans ?_)
      simp only [Option.bind_some]
      cases w.takesTick c scope && !c.isIdle <;> rfl
  | work | watch | sleep => exact .refl _

/-! ## States -/

/-- **What a step commits is the outcome of the refresh that it finishes.** A call is cut off by the
limit of its refresh for one reason only while the scope of the refresh is live. -/
theorem Job.refreshed_of_mark {id : JobId} {w : World} {job : Job} {jobs : List (JobId × Job)}
    {held : List ScopeId} (sheltered : w.Sheltered jobs held) (mem : (id, job) ∈ jobs)
    (slot : Nat) :
    ((job.refreshed? id w).filter (·.1 == slot)).map (·.2) =
      (job.mark? id w).bind (Mark.outcome? slot) := by
  cases job with
  | refresh there scope purpose phase =>
    simp only [refreshed?, mark?]
    cases w.cache? there with
    | none => rfl
    | some c =>
      simp only [Option.bind_some]
      cases attempted : w.attempt id there c scope phase with
      | refused | waits => rfl
      | calls limit flight w₁ =>
        have below := sheltered.below mem attempted
        have here (o : Outcome) : ((some (there, o)).filter (·.1 == slot)).map (·.2) =
            (Mark.committed there c.name purpose o).outcome? slot := by
          by_cases same : there = slot <;> simp [Mark.outcome?, Option.filter, same]
        simp only
        cases live : w₁.cause? scope with
        | some cause => rfl
        | none =>
          simp only [World.callInner_outcome? below live, Option.isSome_none, Bool.false_eq_true,
            if_false]
          cases w₁.innerOutcome? limit flight with
          | some o => exact here o
          | none => rfl
  | loop there scope =>
    simp only [refreshed?, mark?]
    cases w.cache? there with
    | none => rfl
    | some c =>
      simp only [Option.bind_some]
      cases w.takesTick c scope && !c.isIdle <;> rfl
  | call | work | watch | sleep => rfl

/-! ## Runs -/

namespace Scenario.Session

/-- What a move puts down. -/
def mark? (s : Session) : Move → Option Mark
  | .turn i => (s.machine.jobs[i]?).bind fun p => p.2.mark? p.1 s.machine.world
  | .begin _ | .aside _ _ | .pass _ | .grace _ => none

/-- **What a run puts down of caches**, in its order. -/
def marks : Session → List Move → List Mark
  | _, [] => []
  | s, next :: rest => (s.mark? next).toList ++ marks (s.move next) rest

variable {known : Check → Prop} {s : Session} {held : List ScopeId}

theorem move_metrics (within : s.Within known held) (next : Move) :
    ((s.mark? next).toList.foldl Mark.record s.machine.world.metrics).Agree
      (s.move next).machine.world.metrics := by
  have touches {s' : Session} (touched : ∃ held', s.Touched known held s' held') :
      s.machine.world.metrics.Agree s'.machine.world.metrics := by
    obtain ⟨held', touches, -⟩ := touched
    exact .of_eq (Machine.Touches.kept touches).metrics
  cases next with
  | begin c => exact touches (begin_touches within c)
  | aside name c => exact touches (setAside_touches within name c)
  | pass | grace => exact .refl _
  | turn i =>
    simp only [mark?, move, Machine.takeTurn]
    cases s.machine.jobs[i]? with
    | none => exact .refl _
    | some p => exact p.2.step_metrics p.1 s.machine.world

/-- **Every series but those of hidden failures stands where the marks of a run put it.** -/
theorem moves_metrics (within : s.Within known held) (run : List Move) :
    ((s.marks run).foldl Mark.record s.machine.world.metrics).Agree
      (s.moves run).machine.world.metrics := by
  induction run generalizing s held with
  | nil => exact .refl _
  | cons next rest ih =>
    obtain ⟨held', within'⟩ := move_within within next
    rw [marks, List.foldl_append]
    exact ((move_metrics within next).recordAll _).trans (ih within')

/-- The outcomes that a run commits for a cache are those of the refreshes that it finishes. -/
theorem refreshes_of_marks (within : s.Within known held) (sheltered : s.machine.Sheltered held)
    (run : List Move) (slot : Nat) :
    s.refreshes slot run = (s.marks run).filterMap (Mark.outcome? slot) := by
  induction run generalizing s held with
  | nil => rfl
  | cons next rest ih =>
    obtain ⟨held', within', sheltered'⟩ := move_keep (I := fun p => p.1.Sheltered p.2)
      (fun touch sheltered => sheltered.touch touch) (fun _ _ i sheltered => sheltered.takeTurn i)
      (fun _ _ _ _ sheltered => ⟨sheltered.opened, sheltered.scopes, sheltered.limits⟩)
      within sheltered next
    have here : ((s.refreshed? next).filter (·.1 == slot)).map (·.2) =
        (s.mark? next).bind (Mark.outcome? slot) := by
      cases next with
      | begin | aside | pass | grace => rfl
      | turn i =>
        simp only [refreshed?, mark?]
        cases found : s.machine.jobs[i]? with
        | none => rfl
        | some p => exact Job.refreshed_of_mark sheltered (List.mem_of_getElem? found) slot
    rw [refreshes, marks, List.filterMap_append, ← ih within' sheltered', here]
    cases s.mark? next with
    | none => rfl
    | some k => cases made : k.outcome? slot <;> simp [made]

/-- **A cache holds the outcome that was marked last for it**, or what it held before. -/
theorem moves_state_marked (within : s.Within known held) (sheltered : s.machine.Sheltered held)
    (run : List Move) (slot : Nat) :
    (s.moves run).machine.world.states[slot]? = (s.machine.world.states[slot]?).map fun old =>
      (((s.marks run).filterMap (Mark.outcome? slot)).getLast?.map Snapshot.ofOutcome).or old := by
  rw [moves_state within sheltered run slot, refreshes_of_marks within sheltered run slot]

end Scenario.Session

end HealthTree
