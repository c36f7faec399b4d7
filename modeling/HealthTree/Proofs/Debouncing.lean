import HealthTree.Proofs.Assembly

/-!
# Which failures are hidden

An `Observation` is one completed call of the inner check of a debounced check: what that answered,
what the call of the debounced check came to in the same step, and the count of hidden failures
before and after. Both are read off the steps of the two calls (`Observation.of`), wherever in a
call tree they are (`Flight.observations`). The observations of a run (`Session.observations`) stand
in the order in which the inner checks were done, whichever calls they belong to.

What is observed in a step can be told from its journal alone (`Flight.observations_eq`). So between
two observations of one check nothing touches what it keeps, and its answers are those of one
`Debounce` that sees their inner outcomes one after the other (`Answers`). From this follows the
threshold: after a success the first failures up to the budget are answered with that success, and
those beyond it are passed on (`hides_up_to_budget`).
-/

namespace HealthTree

namespace Debounce

/-- What is kept after several calls of the inner check. -/
def afterAll (d : Debounce) (inners : List Outcome) : Debounce :=
  inners.foldl after d

/-- Failures are counted one by one, up to the largest count. -/
theorem afterAll_failures {d : Debounce} (bounded : d.failures ≤ countLimit) {inners : List Outcome}
    (failed : ∀ o ∈ inners, o.isOk = false) :
    d.afterAll inners = ⟨min (d.failures + inners.length) countLimit, d.success⟩ := by
  induction inners generalizing d with
  | nil => simp [afterAll, Nat.min_eq_left bounded]
  | cons o rest ih =>
    cases o with
    | ok h => cases failed _ List.mem_cons_self
    | error f =>
      have more : (d.after (.error f)).failures ≤ countLimit := Nat.min_le_right ..
      have later := ih more fun o mem => failed o (List.mem_cons_of_mem _ mem)
      rw [afterAll, List.foldl_cons, ← afterAll, later]
      simp only [after, countUp, List.length_cons, mk.injEq, and_true]
      omega

/-- **The threshold**: after a success and so many failures, one more is hidden behind the success
if that makes no more of them than the budget. -/
theorem answer_after_success (d : Debounce) (budget : UInt32) (h : Health) (f : Failure)
    (inners : List Outcome) (failed : ∀ o ∈ inners, o.isOk = false)
    (small : inners.length + 1 < UInt32.size) :
    (d.afterAll (.ok h :: inners)).answer budget (.error f) =
      if inners.length + 1 ≤ budget.toNat then .ok h else .error f := by
  have kept : d.afterAll (.ok h :: inners) = ⟨inners.length, h⟩ := by
    have counted := afterAll_failures (d := ⟨0, h⟩) (Nat.zero_le _) failed
    have short : inners.length ≤ countLimit := by
      simp only [countLimit]
      omega
    rw [Nat.zero_add, Nat.min_eq_left short] at counted
    exact counted
  have count : min (inners.length + 1) countLimit = inners.length + 1 := by
    apply Nat.min_eq_left
    simp only [countLimit]
    omega
  simp [kept, answer, hides, countUp, count]

end Debounce

/-! ## Observations -/

/-- The call came to a success. -/
def Turn.isOk : Turn → Bool
  | .done o => o.isOk
  | .still _ | .panicked => false

/-- One completed call of the inner check of a debounced check. -/
structure Observation where
  slot : Nat
  budget : UInt32
  name : String
  /-- What the inner check answered. -/
  inner : Outcome
  /-- What the call of the debounced check came to. -/
  answer : Turn
  /-- The count of the failures hidden under the name, when the inner check had answered. -/
  before : Nat
  /-- The same count when the debounced check had. -/
  after : Nat

namespace Observation

/-- A failure was answered with a success. -/
def hidden (x : Observation) : Bool :=
  !x.inner.isOk && x.answer.isOk

/-- **What a step of a debounced check shows**: what the inner check came to in it and what the
debounced check itself, each with the world it left. -/
def of (slot : Nat) (budget : UInt32) (name : String) (inner own : Turn × World) :
    List Observation :=
  match inner.1 with
  | .done o => [{
      slot := slot
      budget := budget
      name := name
      inner := o
      answer := own.1
      before := inner.2.metrics.count (.suppressed name)
      after := own.2.metrics.count (.suppressed name) }]
  | .still _ | .panicked => []

end Observation

/-- What is observed in the first step of a call. -/
def Check.observations (scope : ScopeId) : Check → World → List Observation
  | fixed _ _ _, _ | probe _, _ | group _ _, _ | cached _ _ _, _ => []
  | debounced slot budget inner, w =>
    inner.observations scope w ++
      Observation.of slot budget inner.name (inner.begin scope w)
        ((debounced slot budget inner).begin scope w)

namespace Flight

mutual
/-- **What is observed in one step of a call**: of each debounced check in it whose inner check is
done, in order. -/
def observations (scope : ScopeId) : Flight → World → List Observation
  | fresh check, w => check.observations scope w
  | pausing _ _ _ _, _ => []
  | gathering _ _ g waiting, w =>
    match w.cause? scope with
    | some _ => []
    | none => observationsAll scope waiting g w
  | debouncing slot budget name inner, w =>
    inner.observations scope w ++
      Observation.of slot budget name (inner.step scope w)
        ((debouncing slot budget name inner).step scope w)
/-- What is observed in one step of each child a group waits for. -/
def observationsAll (scope : ScopeId) :
    List (String × Flight) → Gathered → World → List Observation
  | [], _, _ => []
  | (name, flight) :: rest, g, w =>
    let (turn, w') := flight.step scope w
    let (_, g', w') := w'.gathered name g turn
    flight.observations scope w ++ observationsAll scope rest g' w'
end

end Flight

namespace World

/-- A debounced check sees an outcome of its inner check. -/
def observation (w : World) (slot : Nat) (budget : UInt32) (name : String) (inner : Outcome) :
    Observation where
  slot := slot
  budget := budget
  name := name
  inner := inner
  answer := .done (w.observe slot name budget inner).1
  before := w.metrics.count (.suppressed name)
  after := (w.observe slot name budget inner).2.metrics.count (.suppressed name)

/-- The observations among deeds that are done to the world. -/
def observations (w : World) : List Deed → List Observation
  | [] => []
  | .observe slot budget name inner :: rest =>
    w.observation slot budget name inner ::
      (w.perform (.observe slot budget name inner)).observations rest
  | d :: rest => (w.perform d).observations rest

theorem observations_append (w : World) (deeds later : List Deed) :
    w.observations (deeds ++ later) =
      w.observations deeds ++ (w.performAll deeds).observations later := by
  induction deeds generalizing w with
  | nil => rfl
  | cons d rest ih =>
    cases d with
    | observe => exact congrArg (_ :: ·) (ih _)
    | startCall | completeCall | tell => exact ih _

/-- What a debounced check shows is what it does once its inner check is done. -/
theorem observations_debounced (w : World) (slot : Nat) (budget : UInt32) (name : String)
    (t : Turn) :
    Observation.of slot budget name (t, w) (w.debounced slot budget name t) =
      w.observations (debounceJournal slot budget name t) := by
  cases t <;> rfl

theorem observations_gather (w : World) (name : String) (t : Turn) :
    w.observations (gatherJournal name t) = [] := by
  cases t <;> rfl

theorem observations_pause (w : World) (p : Probe) (scope : ScopeId) (pauses : List Pause) :
    w.observations (w.pauseJournal p scope pauses) = [] := by
  induction pauses with
  | nil => rfl
  | cons pause rest ih =>
    unfold pauseJournal
    cases (if pause.heeds then w.cause? scope else none) with
    | some cause => rfl
    | none =>
      by_cases unwaited : pause.length = some 0
      · simpa only [if_pos unwaited] using ih
      · simp only [if_neg unwaited]
        rfl

/-- **A failure that is hidden is counted**, under the name of its check and once. -/
theorem observe_count (w : World) (slot : Nat) (budget : UInt32) (name : String) (inner : Outcome)
    (other : String) :
    (w.observe slot name budget inner).2.metrics.count (.suppressed other) =
      w.metrics.count (.suppressed other) +
        if other = name ∧ (w.observation slot budget name inner).hidden then 1 else 0 := by
  cases inner with
  | ok h =>
    simp [observe, tell, Debounce.record, observation, Observation.hidden, Except.isOk,
      Except.toBool]
  | error f =>
    by_cases hides : (w.debounce slot budget).hides budget
    · simp [observe, tell, Debounce.record, observation, Observation.hidden, Turn.isOk,
        Debounce.answer, hides, Metrics.count_bump, Except.isOk, Except.toBool]
    · simp [observe, tell, Debounce.record, observation, Observation.hidden, Turn.isOk,
        Debounce.answer, hides, Except.isOk, Except.toBool]

end World

/-! ## What a step shows is in its journal -/

/-- **What the first step of a call shows** is what its journal shows. -/
theorem Check.observations_eq (scope : ScopeId) (c : Check) (w : World) :
    c.observations scope w = w.observations (c.journal scope w) := by
  cases c with
  | fixed | cached => rfl
  | probe p =>
    exact (World.observations_pause (w.startCall p.id) p scope _).symm
  | group name children =>
    simp only [observations, journal]
    split
    · rfl
    · split <;> rfl
  | debounced slot budget inner =>
    simp only [observations, journal, World.observations_append, ← inner.begin_world]
    rw [← World.observations_debounced, ← inner.observations_eq scope w]
    rfl

namespace Flight

mutual
/-- **What a step of a call shows** is what its journal shows. -/
theorem observations_eq (scope : ScopeId) (f : Flight) (w : World) :
    f.observations scope w = w.observations (f.journal scope w) := by
  cases f with
  | fresh check => exact check.observations_eq scope w
  | pausing p wake heeds act =>
    simp only [observations, journal]
    split
    · rfl
    · split
      · exact (World.observations_pause ..).symm
      · rfl
  | gathering name names g waiting =>
    simp only [observations, journal]
    cases w.cause? scope with
    | some cause => rfl
    | none => exact observationsAll_eq scope waiting g w
  | debouncing slot budget name inner =>
    simp only [observations, journal, World.observations_append, ← step_world]
    rw [← World.observations_debounced, ← observations_eq scope inner w]
    rfl
theorem observationsAll_eq (scope : ScopeId) (waiting : List (String × Flight)) (g : Gathered)
    (w : World) :
    observationsAll scope waiting g w = w.observations (journalAll scope waiting w) := by
  cases waiting with
  | nil => rfl
  | cons child rest =>
    obtain ⟨name, flight⟩ := child
    simp only [observationsAll, journalAll, World.observations_append, World.observations_gather,
      List.append_nil]
    rw [observationsAll_eq scope rest, observations_eq scope flight w, step_gathered_world]
end

/-- **The last thing that the last step of a debounced check shows** is what the call came to. -/
theorem observations_done {scope : ScopeId} {f : Flight} {w : World} {slot : Nat} {budget : UInt32}
    {inner : Check} (of : f.Of (.debounced slot budget inner)) {o : Outcome}
    (done : (f.step scope w).1 = .done o) :
    ∃ others x, f.observations scope w = others ++ [x] ∧ x.slot = slot ∧ x.answer = .done o := by
  have shown (name : String) {t : Turn} {w : World}
      (own : (w.debounced slot budget name t).1 = .done o) :
      ∃ x, Observation.of slot budget name (t, w) (w.debounced slot budget name t) = [x] ∧
        x.slot = slot ∧ x.answer = .done o := by
    cases t with
    | done => exact ⟨_, rfl, rfl, own⟩
    | still | panicked => cases own
  cases f with
  | fresh check =>
    cases (of : check = _)
    obtain ⟨x, last, shows⟩ := shown inner.name done
    exact ⟨_, x, congrArg (_ ++ ·) last, shows⟩
  | debouncing there budget' name flight =>
    obtain ⟨_, same, rfl, -⟩ := of
    cases same
    obtain ⟨x, last, shows⟩ := shown _ done
    exact ⟨_, x, congrArg (_ ++ ·) last, shows⟩
  | pausing => cases of
  | gathering =>
    obtain ⟨_, same, -⟩ := of
    cases same

end Flight

/-- **The answers of one debounced check**, which keeps `d` at first, to what it sees. -/
def Debounce.Answers (budget : UInt32) : Debounce → List Observation → Prop
  | _, [] => True
  | d, x :: rest =>
    x.budget = budget ∧ x.answer = .done (d.answer budget x.inner) ∧
      Answers budget (d.after x.inner) rest

theorem Debounce.answers_append {budget : UInt32} {d : Debounce} {seen later : List Observation} :
    d.Answers budget (seen ++ later) ↔
      d.Answers budget seen ∧ (d.afterAll (seen.map (·.inner))).Answers budget later := by
  induction seen generalizing d with
  | nil => simp [Answers, afterAll]
  | cons x rest ih => simp [Answers, ih, afterAll, and_assoc]

/-- What is shown to a debounced check is shown under the budget and the name that the plan lists
for its number. -/
def Deed.Planned (plan : Plan) : Deed → Prop
  | .observe slot budget name _ => ∃ c, plan[slot]? = some (budget, c) ∧ c.name = name
  | .startCall _ | .completeCall _ | .tell _ => True

theorem Deed.In.planned {d : Deed} {c : Check} {makes : List (Check × Nat)} {plan : Plan}
    (inside : d.In c) (listed : c.Listed makes plan) : d.Planned plan := by
  cases d with
  | observe slot budget name inner =>
    obtain ⟨d, has, named⟩ := inside
    exact ⟨d, listed.debounced slot budget d has, named⟩
  | startCall | completeCall | tell => trivial

namespace World

variable {plan : Plan} {slot : Nat} {budget : UInt32} {c : Check}

/-- One deed shows a debounced check what it is shown, and nothing else changes what it keeps. -/
theorem perform_answers {w : World} {deed : Deed} (planned : deed.Planned plan)
    (here : plan[slot]? = some (budget, c)) {d : Debounce} (kept : w.debounces[slot]? = some d) :
    let seen := (w.observations [deed]).filter (·.slot == slot)
    d.Answers budget seen ∧ (∀ x ∈ seen, x.name = c.name) ∧
      (w.perform deed).debounces[slot]? = some (d.afterAll (seen.map (·.inner))) := by
  cases deed with
  | startCall | completeCall | tell => exact ⟨trivial, nofun, kept⟩
  | observe there budget' name inner =>
    by_cases same : there = slot
    · subst same
      obtain ⟨c', listed, named⟩ := planned
      rw [here] at listed
      cases listed
      have lt := (List.getElem?_eq_some_iff.mp kept).1
      have keeps : w.debounce there budget = d := by simp [debounce, kept]
      simp [observations, observation, Debounce.Answers, Debounce.afterAll, observe, keeps, perform,
        tell, named, lt]
    · simpa [observations, observation, same, Debounce.Answers, Debounce.afterAll, perform, observe,
        tell] using kept

/-- **Deeds show a debounced check outcomes one after the other**, and it answers as one does. -/
theorem performAll_answers {w : World} {deeds : List Deed} (planned : ∀ d ∈ deeds, d.Planned plan)
    (here : plan[slot]? = some (budget, c)) {d : Debounce} (kept : w.debounces[slot]? = some d) :
    let seen := (w.observations deeds).filter (·.slot == slot)
    d.Answers budget seen ∧ (∀ x ∈ seen, x.name = c.name) ∧
      (w.performAll deeds).debounces[slot]? = some (d.afterAll (seen.map (·.inner))) := by
  induction deeds generalizing w d with
  | nil => exact ⟨trivial, nofun, kept⟩
  | cons deed rest ih =>
    obtain ⟨first, named, kept'⟩ := perform_answers (planned deed List.mem_cons_self) here kept
    obtain ⟨later, named', kept''⟩ := ih (fun d mem => planned d (List.mem_cons_of_mem _ mem)) kept'
    have split : w.observations (deed :: rest) =
        w.observations [deed] ++ (w.perform deed).observations rest := by
      cases deed <;> rfl
    simp only [split, List.filter_append, List.map_append, performAll_cons]
    refine ⟨Debounce.answers_append.mpr ⟨first, later⟩, ?_, ?_⟩
    · intro x mem
      exact (List.mem_append.mp mem).elim (named x) (named' x)
    · rw [kept'']
      simp only [Debounce.afterAll, List.foldl_append]

/-- **The count of hidden failures** grows by the observations of failures that were hidden. -/
theorem performAll_count (w : World) (deeds : List Deed) (name : String) :
    (w.performAll deeds).metrics.count (.suppressed name) = w.metrics.count (.suppressed name) +
      (w.observations deeds).countP fun x => x.name == name && x.hidden := by
  induction deeds generalizing w with
  | nil => rfl
  | cons deed rest ih =>
    rw [performAll_cons, ih]
    cases deed with
    | startCall | completeCall | tell => rfl
    | observe slot budget there inner =>
      simp only [observations, List.countP_cons, perform, observe_count, Bool.and_eq_true,
        beq_iff_eq]
      have same : (w.observation slot budget there inner).name = there := rfl
      simp only [same, eq_comm (a := name)]
      omega

/-- An observation shows the count grow by one if a failure was hidden, and not otherwise. -/
theorem observations_after {w : World} {deeds : List Deed} :
    ∀ x ∈ w.observations deeds, x.after = x.before + if x.hidden then 1 else 0 := by
  induction deeds generalizing w with
  | nil => nofun
  | cons deed rest ih =>
    cases deed with
    | startCall | completeCall | tell => exact ih
    | observe slot budget name inner =>
      intro x mem
      rcases List.mem_cons.mp mem with rfl | mem
      · have counted := w.observe_count slot budget name inner name
        simp only [true_and] at counted
        exact counted
      · exact ih x mem

end World

/-! ## Steps of jobs -/

/-- Debounced checks keep the same in two worlds, and hid as many failures. -/
structure World.SameDelays (w w' : World) : Prop where
  debounces : w'.debounces = w.debounces
  hidden : ∀ name, w'.metrics.count (.suppressed name) = w.metrics.count (.suppressed name)

namespace World.SameDelays

variable {w w' : World}

theorem of_aside (aside : w.Aside w') : w.SameDelays w' :=
  ⟨aside.debounces, aside.hidden⟩

theorem observation (same : w.SameDelays w') (slot : Nat) (budget : UInt32) (name : String)
    (inner : Outcome) :
    w'.observation slot budget name inner = w.observation slot budget name inner := by
  have answer : (w'.observe slot name budget inner).1 = (w.observe slot name budget inner).1 := by
    simp only [observe, debounce, same.debounces]
  have hidden : (w'.observation slot budget name inner).hidden =
      (w.observation slot budget name inner).hidden := by
    simp only [Observation.hidden, World.observation, answer]
  have after := w'.observe_count slot budget name inner name
  rw [same.hidden, hidden, ← observe_count] at after
  simp only [World.observation, answer, same.hidden, after]

theorem perform (same : w.SameDelays w') (d : Deed) : (w.perform d).SameDelays (w'.perform d) := by
  cases d with
  | startCall | completeCall | tell => exact ⟨same.debounces, same.hidden⟩
  | observe slot budget name inner =>
    refine ⟨?_, ?_⟩
    · simp only [World.perform, observe, tell, debounce, same.debounces]
    · intro other
      simp only [World.perform]
      rw [observe_count, observe_count, same.observation, same.hidden]

theorem performAll (same : w.SameDelays w') (deeds : List Deed) :
    (w.performAll deeds).SameDelays (w'.performAll deeds) := by
  induction deeds generalizing w w' with
  | nil => exact same
  | cons d rest ih => exact ih (same.perform d)

theorem observations (same : w.SameDelays w') (deeds : List Deed) :
    w'.observations deeds = w.observations deeds := by
  induction deeds generalizing w w' with
  | nil => rfl
  | cons d rest ih =>
    have later := ih (same.perform d)
    cases d with
    | observe => simp only [World.observations, same.observation, later]
    | startCall | completeCall | tell => exact later

end World.SameDelays

namespace Job

/-- **The observations that a step of a job makes**: those of the call that it goes on with. -/
def observations (id : JobId) (w : World) (job : Job) : List Observation :=
  match job.inside id w with
  | some (scope, flight, w) => flight.observations scope w
  | none => []

/-- The world in which a step of a job goes on with a call differs in nothing that a debounced check
sees. -/
theorem inside_aside {id : JobId} {w w₁ : World} {job : Job} {scope : ScopeId} {flight : Flight}
    (made : job.inside id w = some (scope, flight, w₁)) : w.Aside w₁ := by
  cases job with
  | call name scope' flight' =>
    cases made
    exact .refl w
  | refresh slot scope' purpose phase =>
    obtain ⟨c, -, made⟩ := Option.bind_eq_some_iff.mp made
    have before := w.attempt_aside id slot c scope' phase
    cases attempted : w.attempt id slot c scope' phase with
    | refused | waits => simp [attempted] at made
    | calls limit flight' w₂ =>
      rw [attempted] at before
      simp only [attempted] at made
      split at made <;> cases made
      exact before
  | _ => cases made

/-- What a step of a job shows is what its deeds show. -/
theorem observations_eq (id : JobId) (w : World) (job : Job) :
    job.observations id w = w.observations (job.deeds id w) := by
  unfold observations deeds
  cases made : job.inside id w with
  | none => rfl
  | some p =>
    obtain ⟨scope, flight, w₁⟩ := p
    simp only [Flight.observations_eq]
    exact (World.SameDelays.of_aside (inside_aside made)).observations _

/-- A step leaves debounced checks as its deeds do. -/
theorem step_sameDelays (id : JobId) (w : World) (job : Job) :
    (w.performAll (job.deeds id w)).SameDelays (job.step id w).2.2 := by
  obtain ⟨w₁, before, after⟩ := job.step_deeds id w
  obtain ⟨debounces, hidden⟩ := (World.SameDelays.of_aside before).performAll (job.deeds id w)
  exact ⟨after.debounces.trans debounces, fun name => (after.hidden name).trans (hidden name)⟩

/-- The call that a job has under way. -/
def flight? : Job → Option Flight
  | call _ _ flight => some flight
  | refresh _ _ _ (.calling _ flight) => some flight
  | refresh _ _ _ .arriving | refresh _ _ _ .queued | refresh _ _ _ .granted => none
  | loop _ _ | work _ _ | watch _ _ | sleep _ => none

/-- What a step leaves of a call is what is left of the call it goes on with. -/
theorem step_flight {id : JobId} {w : World} {job next : Job} {flight' : Flight}
    (going : (job.step id w).1 = .going next) (calls : next.flight? = some flight') :
    ∃ scope flight w₁, job.inside id w = some (scope, flight, w₁) ∧
      (flight.step scope w₁).1 = .still flight' := by
  cases step_goesOn going with
  | call still =>
    cases calls
    exact ⟨_, _, w, rfl, still⟩
  | @calling _ _ _ limit _ _ flight _ w₁ cached attempted still =>
    cases calls
    obtain ⟨live, still⟩ := World.live_of_still still
    refine ⟨limit, flight, w₁, ?_, still⟩
    simp [inside, cached, attempted, World.goesOn, live]
  | _ => cases calls

/-- **The call that a step goes on with** is the one that the job has under way, or a fresh one of
what its cache is refreshed from. -/
theorem inside_call {id : JobId} {w w₁ : World} {job : Job} {scope : ScopeId} {flight : Flight}
    (made : job.inside id w = some (scope, flight, w₁)) :
    job.flight? = some flight ∨
      ∃ slot c, w.cache? slot = some c ∧ flight = .fresh c.inner := by
  cases job with
  | call name scope' flight' =>
    cases made
    exact .inl rfl
  | refresh slot scope' purpose phase =>
    obtain ⟨c, cached, made⟩ := Option.bind_eq_some_iff.mp made
    cases attempted : w.attempt id slot c scope' phase with
    | refused | waits => simp [attempted] at made
    | calls limit flight' w₂ =>
      simp only [attempted] at made
      split at made <;> cases made
      rcases World.attempt_calls attempted with ⟨rfl, -⟩ | ⟨-, fresh, -⟩
      · exact .inl rfl
      · exact .inr ⟨slot, c, cached, fresh⟩
  | _ => cases made

end Job

/-- **A call that is under way after a step** was under way before, or the step went on with it. -/
theorem Machine.flight_after_turn {m : Machine} {i : Nat} {p : JobId × Job}
    (mem : p ∈ (m.takeTurn i).jobs) {flight' : Flight} (flies : p.2.flight? = some flight') :
    p ∈ m.jobs ∨ ∃ q ∈ m.jobs, ∃ scope flight w₁,
      q.2.inside q.1 m.world = some (scope, flight, w₁) ∧
        (flight.step scope w₁).1 = .still flight' := by
  rcases mem_takeTurn mem with beside | ⟨q, found, ⟨-, going⟩ | spawned⟩
  · exact .inl (List.mem_of_mem_eraseIdx beside)
  · exact .inr ⟨q, List.mem_of_getElem? found, Job.step_flight going flies⟩
  · obtain ⟨new, next⟩ := p
    rcases Job.step_spawned spawned with ⟨_, _, rfl, -⟩ | ⟨_, _, -, rfl⟩ <;> cases flies

/-! ## Every state of every run -/

/-- **The calls of a machine are calls of checks like this**: every cache is refreshed from one, and
every call under way is a call of one. -/
structure Machine.CallsOf (known : Check → Prop) (m : Machine) : Prop where
  caches : ∀ make ∈ m.world.makes, known make.1
  flights : ∀ p ∈ m.jobs, ∀ flight, p.2.flight? = some flight → ∃ c, flight.Of c ∧ known c

namespace Machine.CallsOf

variable {known : Check → Prop} {m : Machine}

/-- What a cache is refreshed from is such a check. -/
theorem cached (calls : m.CallsOf known) {slot : Nat} {c : Cache}
    (cached : m.world.cache? slot = some c) : known c.inner :=
  calls.caches c.make (List.mem_map_of_mem (List.mem_of_getElem? cached))

/-- The call that a step of a job goes on with is a call of such a check. -/
theorem inside (calls : m.CallsOf known) {id : JobId} {job : Job} (mem : (id, job) ∈ m.jobs)
    {scope : ScopeId} {flight : Flight} {w₁ : World}
    (inside : job.inside id m.world = some (scope, flight, w₁)) : ∃ c, flight.Of c ∧ known c := by
  rcases Job.inside_call inside with under | ⟨slot, c, cached, rfl⟩
  · exact calls.flights _ mem flight under
  · exact ⟨c.inner, rfl, calls.cached cached⟩

theorem takeTurn (calls : m.CallsOf known) (i : Nat) : (m.takeTurn i).CallsOf known := by
  refine ⟨(m.takeTurn_later i).makes.symm ▸ calls.caches, ?_⟩
  intro p listed flight flies
  rcases Machine.flight_after_turn listed flies with old | ⟨q, mem, scope, before, w₁, inside, still⟩
  · exact calls.flights p old flight flies
  · obtain ⟨c, of, is⟩ := calls.inside mem inside
    have kept := Flight.step_of scope of w₁
    rw [still] at kept
    exact ⟨c, kept, is⟩

theorem touch {p p' : Machine × List ScopeId} (calls : p.1.CallsOf known)
    (touch : Touch known p p') : p'.1.CallsOf known := by
  refine ⟨touch.kept.makes.symm ▸ calls.caches, ?_⟩
  cases touch with
  | stop m held slot =>
    simp only [Machine.stop]
    split <;> exact calls.flights
  | abort m held id =>
    simp only [Machine.abort]
    split
    · exact fun p mem => calls.flights p (List.mem_filter.mp mem).1
    · exact calls.flights
  | submit m asked =>
    intro p mem flight flies
    rcases List.mem_append.mp mem with mem | mem
    · exact calls.flights p mem flight flies
    · cases List.mem_singleton.mp mem
      cases asked with
      | call handed is =>
        cases flies
        exact ⟨_, rfl, is⟩
      | _ => cases flies
  | _ => exact calls.flights

end Machine.CallsOf

/-- **The calls of a machine are calls of listed checks**: every cache is refreshed from one, and
every call under way is a call of one. -/
structure Machine.Calls (makes : List (Check × Nat)) (plan : Plan) (m : Machine) : Prop where
  same : m.world.makes = makes
  caches : ∀ make ∈ makes, make.1.Listed makes plan
  flights : ∀ p ∈ m.jobs, ∀ flight, p.2.flight? = some flight →
    ∃ c, flight.Of c ∧ c.Listed makes plan

namespace Machine.Calls

variable {makes : List (Check × Nat)} {plan : Plan} {m : Machine}

theorem callsOf (calls : m.Calls makes plan) : m.CallsOf (·.Listed makes plan) :=
  ⟨calls.same.symm ▸ calls.caches, calls.flights⟩

theorem deeds (calls : m.Calls makes plan) {id : JobId} {job : Job} (mem : (id, job) ∈ m.jobs) :
    ∀ d ∈ job.deeds id m.world, d.Planned plan := by
  unfold Job.deeds
  cases inside : job.inside id m.world with
  | none => nofun
  | some p =>
    obtain ⟨scope, flight, w₁⟩ := p
    obtain ⟨c, of, listed⟩ := calls.callsOf.inside mem inside
    exact fun d made => (Flight.observed_of scope of w₁ d made).planned listed

theorem takeTurn (calls : m.Calls makes plan) (i : Nat) : (m.takeTurn i).Calls makes plan :=
  ⟨(m.takeTurn_later i).makes.trans calls.same, calls.caches, (calls.callsOf.takeTurn i).flights⟩

theorem touch {p p' : Machine × List ScopeId} (calls : p.1.Calls makes plan)
    (touch : Touch (·.Listed makes plan) p p') : p'.1.Calls makes plan :=
  ⟨touch.kept.makes.trans calls.same, calls.caches, (calls.callsOf.touch touch).flights⟩

end Machine.Calls

namespace Scenario.Session

/-- The observations that a move makes. -/
def observed (s : Session) : Move → List Observation
  | .turn i =>
    match s.machine.jobs[i]? with
    | some (id, job) => job.observations id s.machine.world
    | none => []
  | .begin _ | .aside _ _ | .pass _ | .grace _ => []

/-- **The observations of a run**, in their order. -/
def observations : Session → List Move → List Observation
  | _, [] => []
  | s, next :: rest => s.observed next ++ observations (s.move next) rest

variable {makes : List (Check × Nat)} {plan : Plan} {s : Session} {held : List ScopeId}

/-- What a move makes of what debounced checks keep is what its observations make of it. -/
theorem move_sameDelays (within : s.Within (·.Listed makes plan) held)
    (calls : s.machine.Calls makes plan) (next : Move) :
    ∃ deeds, s.observed next = s.machine.world.observations deeds ∧ (∀ d ∈ deeds, d.Planned plan) ∧
      (s.machine.world.performAll deeds).SameDelays (s.move next).machine.world := by
  have touches {s' : Session}
      (touched : ∃ held', s.Touched (·.Listed makes plan) held s' held') :
      s.machine.world.SameDelays s'.machine.world := by
    obtain ⟨held', touches, -⟩ := touched
    have kept := Machine.Touches.kept touches
    exact ⟨kept.debounces, fun name => congrArg (Metrics.count · _) kept.metrics⟩
  cases next with
  | begin c => exact ⟨[], rfl, nofun, touches (begin_touches within c)⟩
  | aside name c => exact ⟨[], rfl, nofun, touches (setAside_touches within name c)⟩
  | pass | grace => exact ⟨[], rfl, nofun, ⟨rfl, fun _ => rfl⟩⟩
  | turn i =>
    simp only [observed, move, Machine.takeTurn]
    cases found : s.machine.jobs[i]? with
    | none => exact ⟨[], rfl, nofun, ⟨rfl, fun _ => rfl⟩⟩
    | some p =>
      obtain ⟨id, job⟩ := p
      exact ⟨job.deeds id s.machine.world, job.observations_eq id s.machine.world,
        calls.deeds (List.mem_of_getElem? found), job.step_sameDelays id s.machine.world⟩

/-- Calls go on to be calls of listed checks. -/
theorem move_calls (within : s.Within (·.Listed makes plan) held)
    (calls : s.machine.Calls makes plan) (next : Move) :
    ∃ held', (s.move next).Within (·.Listed makes plan) held' ∧
      (s.move next).machine.Calls makes plan :=
  move_keep (I := fun p => p.1.Calls makes plan) (fun touch calls => calls.touch touch)
    (fun _ _ i calls => calls.takeTurn i)
    (fun _ _ _ _ calls => ⟨calls.same, calls.caches, calls.flights⟩) within calls next

/-- They do so over a run. -/
theorem moves_calls (within : s.Within (·.Listed makes plan) held)
    (calls : s.machine.Calls makes plan) (run : List Move) :
    ∃ held', (s.moves run).Within (·.Listed makes plan) held' ∧
      (s.moves run).machine.Calls makes plan := by
  induction run generalizing s held with
  | nil => exact ⟨held, within, calls⟩
  | cons next rest ih =>
    obtain ⟨held', within', calls'⟩ := move_calls within calls next
    exact ih within' calls'

/-- **Over a run a debounced check answers what it sees**, and keeps what that leaves. -/
theorem moves_answers (within : s.Within (·.Listed makes plan) held)
    (calls : s.machine.Calls makes plan) (run : List Move) {slot : Nat} {budget : UInt32}
    {c : Check} {d : Debounce} (here : plan[slot]? = some (budget, c))
    (kept : s.machine.world.debounces[slot]? = some d) :
    let seen := (s.observations run).filter (·.slot == slot)
    d.Answers budget seen ∧ (∀ x ∈ seen, x.name = c.name) ∧
      (s.moves run).machine.world.debounces[slot]? = some (d.afterAll (seen.map (·.inner))) := by
  induction run generalizing s held d with
  | nil => exact ⟨trivial, nofun, kept⟩
  | cons next rest ih =>
    obtain ⟨deeds, observed, planned, same⟩ := move_sameDelays within calls next
    obtain ⟨held', within', calls'⟩ := move_calls within calls next
    obtain ⟨first, named, kept'⟩ := World.performAll_answers planned here kept
    obtain ⟨later, named', kept''⟩ := ih within' calls' (same.debounces ▸ kept')
    simp only [observations, observed, List.filter_append, List.map_append]
    refine ⟨Debounce.answers_append.mpr ⟨first, later⟩,
      fun x mem => (List.mem_append.mp mem).elim (named x) (named' x), kept''.trans ?_⟩
    simp only [Debounce.afterAll, List.foldl_append]

/-- **What holds of the observations of a run**: those of one debounced check are its answers to
what it saw, each shows whether a failure was hidden, and the count of hidden failures is theirs. -/
theorem moves_observations (within : s.Within (·.Listed makes plan) held)
    (calls : s.machine.Calls makes plan) (run : List Move) :
    (∀ slot budget c d, plan[slot]? = some (budget, c) →
      s.machine.world.debounces[slot]? = some d →
      let seen := (s.observations run).filter (·.slot == slot)
      d.Answers budget seen ∧ ∀ x ∈ seen, x.name = c.name) ∧
    (∀ x ∈ s.observations run, x.after = x.before + if x.hidden then 1 else 0) ∧
    ∀ name, (s.moves run).machine.world.metrics.count (.suppressed name) =
      s.machine.world.metrics.count (.suppressed name) +
        (s.observations run).countP fun x => x.name == name && x.hidden := by
  constructor
  · intro slot budget c d here kept
    obtain ⟨answers, named, -⟩ := moves_answers within calls run here kept
    exact ⟨answers, named⟩
  induction run generalizing s held with
  | nil => exact ⟨nofun, fun _ => rfl⟩
  | cons next rest ih =>
    obtain ⟨deeds, observed, -, same⟩ := move_sameDelays within calls next
    obtain ⟨held', within', calls'⟩ := move_calls within calls next
    obtain ⟨after, count⟩ := ih within' calls'
    simp only [observations, observed, List.countP_append]
    constructor
    · intro x mem
      exact (List.mem_append.mp mem).elim (World.observations_after x) (after x)
    · intro name
      rw [← Nat.add_assoc, ← World.performAll_count, ← same.hidden]
      exact count name

/-- Every call of a session that begins is a call of a listed check. -/
theorem ofTree_calls {t : CheckTree} {plan : Plan} (planned : t.Planned plan)
    (before : List Event) :
    (ofTree (some t) before).machine.Calls (t.caches.map Cache.make) plan := by
  refine ⟨rfl, ?_, nofun⟩
  intro make mem
  obtain ⟨c, listed, rfl⟩ := List.mem_map.mp mem
  exact planned.assembled.caches c listed

/-- A debounced check begins with its budget. -/
theorem ofTree_debounce {t : CheckTree} {plan : Plan} (planned : t.Planned plan)
    (before : List Event) {slot : Nat} {budget : UInt32} {c : Check}
    (here : plan[slot]? = some (budget, c)) :
    (ofTree (some t) before).machine.world.debounces[slot]? = some (.initial budget) := by
  have debounces : (ofTree (some t) before).machine.world.debounces = _ :=
    planned.assembled.debounces
  rw [debounces, List.getElem?_map, here]
  rfl

/-- **A call of a debounced check replies what its last observation shows.** -/
theorem observed_answer {s : Session} {i : Nat} {id : JobId} {name : String} {scope : ScopeId}
    {flight : Flight} (found : s.machine.jobs[i]? = some (id, .call name scope flight))
    {slot : Nat} {budget : UInt32} {inner : Check} (of : flight.Of (.debounced slot budget inner))
    {o : Outcome} (finished : (s.move (.turn i)).machine.finished =
      (id, s.machine.now, .answered name o) :: s.machine.finished) :
    ∃ others x, s.observed (.turn i) = others ++ [x] ∧ x.slot = slot ∧ x.answer = .done o := by
  have done : (flight.step scope s.machine.world).1 = .done o := by
    simp only [move, Machine.takeTurn, found, Job.step] at finished
    cases turn : (flight.step scope s.machine.world).1 <;>
      simp_all [JobTurn.result]
  simp only [observed, found, Job.observations, Job.inside]
  exact Flight.observations_done of done

open CheckTree (ofBlueprint?)

/-- **Failures are hidden up to the budget.** Over every run, of a debounced check of the tree: a
success of the inner check is passed on; after a success the failures that follow in a row are
answered with it up to the budget, and beyond it they are passed on unchanged; and the count of
hidden failures of its name grows by one with each failure that was answered with a success, and
only then. What a call of the debounced check replies is what the last observation of its last step
shows. -/
theorem hides_up_to_budget {b : Blueprint} {t : CheckTree} (built : ofBlueprint? b = some t)
    (before : List Event) (run : List Move) {slot : Nat} {budget : UInt32} {inner : Check}
    (node : t.root.Has (.debounced slot budget inner)) :
    let s := (ofTree (some t) before).moves run
    let all := (ofTree (some t) before).observations run
    let seen := all.filter (·.slot == slot)
    (∀ x ∈ seen, x.name = inner.name ∧ x.budget = budget ∧
        ∀ h, x.inner = .ok h → x.answer = .done (.ok h)) ∧
      (∀ earlier success failures x later h f,
        seen = earlier ++ success :: failures ++ x :: later → success.inner = .ok h →
        (∀ y ∈ failures, y.inner.isOk = false) → x.inner = .error f →
        failures.length + 1 < UInt32.size →
        x.answer = .done (if failures.length + 1 ≤ budget.toNat then .ok h else .error f)) ∧
      (∀ x ∈ all, x.after = x.before + if x.hidden then 1 else 0) ∧
      (∀ name, s.machine.world.metrics.count (.suppressed name) =
        all.countP fun x => x.name == name && x.hidden) ∧
      ∀ i id name scope flight o, s.machine.jobs[i]? = some (id, .call name scope flight) →
        flight.Of (.debounced slot budget inner) →
        (s.move (.turn i)).machine.finished =
          (id, s.machine.now, .answered name o) :: s.machine.finished →
        ∃ others x, s.observed (.turn i) = others ++ [x] ∧ x.slot = slot ∧ x.answer = .done o := by
  intro s all seen
  obtain ⟨plan, planned⟩ := CheckTree.planned_ofBlueprint built
  have here := planned.root.debounced slot budget inner node
  have kept : (ofTree (some t) before).machine.world.debounces[slot]? =
      some (.initial budget) := by
    have debounces : (ofTree (some t) before).machine.world.debounces = _ :=
      planned.assembled.debounces
    rw [debounces, List.getElem?_map, here]
    rfl
  obtain ⟨answers, after, count⟩ :=
    moves_observations (planned.within before) (ofTree_calls planned before) run
  obtain ⟨answers, named⟩ := answers slot budget inner _ here kept
  replace answers : Debounce.Answers budget (.initial budget) seen := answers
  refine ⟨?_, ?_, after, ?_, ?_⟩
  · intro x mem
    obtain ⟨earlier, later, split⟩ := List.append_of_mem mem
    rw [split] at answers
    have answered := (Debounce.answers_append.mp answers).2
    exact ⟨named x mem, answered.1, fun h ok => by rw [answered.2.1, ok]; rfl⟩
  · intro earlier success failures x later h f split ok failed failure small
    rw [split] at answers
    have answered := (Debounce.answers_append.mp answers).2.2.1
    rw [answered, failure, List.map_append, Debounce.afterAll, List.foldl_append, List.map_cons, ok,
      Turn.done.injEq]
    have threshold := Debounce.answer_after_success
      ((Debounce.initial budget).afterAll (earlier.map (·.inner))) budget h f
      (failures.map (·.inner)) ?_ ?_
    · rw [List.length_map] at threshold
      exact threshold
    · intro o mem
      obtain ⟨y, listed, rfl⟩ := List.mem_map.mp mem
      exact failed y listed
    · simpa only [List.length_map] using small
  · intro name
    rw [count name]
    exact Nat.zero_add _
  · intro i id name scope flight o found of finished
    exact observed_answer found of finished

/-- With a budget of one, a success is followed by two failures: the first is answered with the
success and counted, the second is passed on. -/
theorem hides_up_to_budget_of_one :
    let down : Outcome := .error (.ofFault (.probe "down"))
    let p : Probe := ⟨"p", "p", ⟨[], .outcome (.ok .healthy)⟩, [⟨[], .outcome down⟩]⟩
    let b : Blueprint := .debounced 1 (.probe p)
    let run : List Move := [.begin (.check .root {}), .turn 0, .begin (.check .root {}),
      .begin (.check .root {}), .turn 1, .turn 0]
    ∃ t, ofBlueprint? b = some t ∧
      ((ofTree (some t) []).moves run).machine.world.metrics.count (.suppressed "p") = 1 ∧
      ((ofTree (some t) []).moves run).machine.finished = [(1, 0, .answered "p" down),
        (2, 0, .answered "p" (.ok .healthy)), (0, 0, .answered "p" (.ok .healthy))] := by
  intro down p b run
  have hidden : ((ofBlueprint? b).map fun t =>
      ((ofTree (some t) []).observations run).map fun x => (x.name, x.hidden)) =
      some [("p", false), ("p", true), ("p", false)] := by decide +kernel
  have root : ((ofBlueprint? b).map CheckTree.root) =
      some (.debounced 0 1 (.probe p)) := rfl
  have replies : ((ofBlueprint? b).map fun t =>
      ((ofTree (some t) []).moves run).machine.finished) = some [(1, 0, .answered "p" down),
        (2, 0, .answered "p" (.ok .healthy)), (0, 0, .answered "p" (.ok .healthy))] := by
    subst run b p down
    rfl
  cases built : ofBlueprint? b with
  | none => simp [built] at hidden
  | some t =>
    simp only [built, Option.map_some, Option.some.injEq] at hidden root replies
    have node : t.root.Has (.debounced 0 1 (.probe p)) := by
      rw [root]
      exact .self _
    obtain ⟨-, -, -, count, -⟩ := hides_up_to_budget built [] run node
    replace count := count "p"
    have same : (fun x : Observation => x.name == "p" && x.hidden) =
        (fun p : String × Bool => p.1 == "p" && p.2) ∘ fun x => (x.name, x.hidden) := rfl
    rw [same, ← List.countP_map, hidden] at count
    exact ⟨t, rfl, count, replies⟩

end Scenario.Session

end HealthTree
