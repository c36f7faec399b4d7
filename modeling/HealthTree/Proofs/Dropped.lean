import HealthTree.Proofs.Agreement
import HealthTree.Proofs.Underway

/-!
# Calls that are cut short

A call is cut short when the scope of a group that waits has ended, or when a refresh gives up its
call of the inner check: half the interval is over, or the scope of the refresh has ended
(`Job.CutShort`). What the call had still before it is dropped then, however deep it stands. The
inner check of a refresh may be at its turn at that very instant. If it comes to an answer then, it
is not dropped, and what it has not heard from the checks below it is.

The step that drops it finishes no probe, and none of the debounced checks that are dropped
(`Job.Drops`). So of all that the call has opened, what is dropped was not finished and is under way
no more; and since jobs finish only what they have under way or open, it never is. A debounced check
sees an outcome only when it is finished: it goes on as one that the dropped call was never shown to
(`dropped_leaves_no_trace`).
-/

namespace HealthTree

/-- The call is still under way. -/
def Turn.isStill : Turn → Bool
  | .still _ => true
  | .done _ | .panicked => false

theorem Turn.isStill_iff {t : Turn} : t.isStill = true ↔ ∃ flight, t = .still flight := by
  cases t <;> simp [isStill]

/-- A call whose scope has ended is given up before it comes to anything: it gets no turn any more,
or it is still under way after that. -/
def World.givesUp (w : World) (limit : ScopeId) (flight : Flight) : Bool :=
  !w.goesOn limit flight || (flight.step limit w).1.isStill

/-- A call that comes to something after its scope has ended had begun before. -/
theorem World.begun_of_answers {w : World} {limit : ScopeId} {flight : Flight}
    (ended : w.cause? limit ≠ none) (answers : w.givesUp limit flight = false) :
    flight.begun = true := by
  rw [givesUp, Bool.or_eq_false_iff, Bool.not_eq_false'] at answers
  obtain ⟨cause, ended⟩ := Option.ne_none_iff_exists'.mp ended
  have goes := answers.1
  simp only [goesOn, ended, Option.isNone_some, Bool.false_or, Bool.and_eq_true] at goes
  exact goes.2

/-- **A job whose next step cuts its call short**, in this world, and the pieces that it drops. -/
inductive Job.CutShort (w : World) : Job → List Part → Prop
  /-- A group waits for calls, and its scope has ended. -/
  | group {name : String} {scope : ScopeId} {flight : Flight} {waiting : List (String × Flight)}
      (waits : flight.awaited = some waiting) (ended : w.cause? scope ≠ none) :
      CutShort w (.call name scope flight) (Flight.leftAll waiting)
  /-- A refresh has its call under way, and half the interval is over or its scope has ended. -/
  | refresh {slot : Nat} {scope limit : ScopeId} {purpose : Purpose} {flight : Flight}
      (ended : w.cause? limit ≠ none ∨ w.cause? scope ≠ none)
      (givesUp : w.givesUp limit flight = true) :
      CutShort w (.refresh slot scope purpose (.calling limit flight)) flight.underway
  /-- The same, and the call comes to an answer at this instant. It is that of a group, which waits
  for calls. -/
  | inner {slot : Nat} {scope limit : ScopeId} {purpose : Purpose} {flight : Flight}
      {waiting : List (String × Flight)} (ended : w.cause? limit ≠ none ∨ w.cause? scope ≠ none)
      (answers : w.givesUp limit flight = false) (waits : flight.awaited = some waiting) :
      CutShort w (.refresh slot scope purpose (.calling limit flight)) (Flight.leftAll waiting)

/-- The pieces that the next step of a job drops, if it cuts a call short. -/
def Job.cutShort? (w : World) : Job → Option (List Part)
  | .call _ scope flight =>
    if w.cause? scope = none then none else flight.awaited.map Flight.leftAll
  | .refresh _ scope _ (.calling limit flight) =>
    if w.cause? limit = none ∧ w.cause? scope = none then none
    else if w.givesUp limit flight then some flight.underway
    else flight.awaited.map Flight.leftAll
  | .refresh _ _ _ .arriving | .refresh _ _ _ .queued | .refresh _ _ _ .granted => none
  | .loop _ _ | .work _ _ | .watch _ _ | .sleep _ => none

theorem Job.cutShort_iff {w : World} {job : Job} {dropped : List Part} :
    job.CutShort w dropped ↔ job.cutShort? w = some dropped := by
  constructor
  · intro cut
    cases cut with
    | group waits ended => rw [cutShort?, if_neg ended, waits, Option.map_some]
    | refresh ended givesUp =>
      rw [cutShort?, if_neg fun live => ended.elim (· live.1) (· live.2), if_pos givesUp]
    | inner ended answers waits =>
      rw [cutShort?, if_neg fun live => ended.elim (· live.1) (· live.2), answers, waits]
      rfl
  · intro cut
    cases job with
    | call name scope flight =>
      obtain ⟨ended, lost⟩ := Option.ite_none_left_eq_some.mp cut
      obtain ⟨waiting, waits, rfl⟩ := Option.map_eq_some_iff.mp lost
      exact .group waits ended
    | refresh slot scope purpose phase =>
      cases phase with
      | calling limit flight =>
        obtain ⟨ended, cut⟩ := Option.ite_none_left_eq_some.mp cut
        cases givesUp : w.givesUp limit flight with
        | true =>
          rw [givesUp, if_pos rfl] at cut
          cases cut
          exact .refresh (not_and_or.mp ended) givesUp
        | false =>
          rw [givesUp] at cut
          obtain ⟨waiting, waits, rfl⟩ := Option.map_eq_some_iff.mp cut
          exact .inner (not_and_or.mp ended) givesUp waits
      | arriving | queued | granted => cases cut
    | loop | work | watch | sleep => cases cut

/-- **A step that drops these pieces of a call**: it leaves nothing of the call, it finishes no
probe and nothing that it drops, and all that it finishes and drops was under way or opened. -/
structure Job.Drops (id : JobId) (w : World) (job : Job) (dropped : List Part) : Prop where
  gone : (job.step id w).1.underway = []
  probes : ∀ p, .probe p ∉ finishedBy (job.deeds id w)
  apart : ∀ x ∈ dropped, x ∉ finishedBy (job.deeds id w)
  parts : ∀ x, (finishedBy (job.deeds id w)).count x + dropped.count x ≤
    job.underway.count x + (job.opens id w).count x

namespace Job.Drops

variable {id : JobId} {w : World} {job : Job} {dropped : List Part}

/-- A step that finishes nothing. -/
theorem of_idle (gone : (job.step id w).1.underway = []) (none : finishedBy (job.deeds id w) = [])
    (parts : ∀ x, dropped.count x ≤ job.underway.count x) : job.Drops id w dropped := by
  refine ⟨gone, ?_, ?_, fun x => ?_⟩
  · rw [none]
    exact fun _ => List.not_mem_nil
  · rw [none]
    exact fun _ _ => List.not_mem_nil
  · rw [none, List.count_nil, Nat.zero_add]
    exact Nat.le_trans (parts x) (Nat.le_add_right _ _)

/-- A step in which a group drops the calls that it waits for. -/
theorem of_cut {scope : ScopeId} {flight : Flight} {w₁ : World} {waiting : List (String × Flight)}
    (gone : (job.step id w).1.underway = [])
    (inside : job.inside id w = some (scope, flight, w₁))
    (cut : Cut flight.left waiting (flight.step scope w₁).1 (flight.journal scope w₁)) :
    job.Drops id w (Flight.leftAll waiting) := by
  have deeds : job.deeds id w = flight.journal scope w₁ := by rw [deeds, inside]
  refine ⟨gone, fun p finished => ?_, fun x lost finished => ?_, fun x => ?_⟩
  · obtain ⟨slot, same⟩ := cut.debounced _ (deeds ▸ finished)
    cases same
  · exact cut.apart x (deeds ▸ finished) lost
  · rw [deeds]
    exact Nat.le_trans (cut.parts x) (Job.left_le_underway inside x)

end Job.Drops

section

variable {makes : List (Check × Nat)} {plan : Plan} {m : Machine} {held : List ScopeId} {id : JobId}
  {job : Job} {dropped : List Part}

/-- The scope of a call ends with that of its refresh. -/
theorem Job.limit_ended (orderly : m.Orderly held) {slot : Nat} {scope limit : ScopeId}
    {purpose : Purpose} {flight : Flight}
    (mem : (id, .refresh slot scope purpose (.calling limit flight)) ∈ m.jobs)
    (ended : m.world.cause? limit ≠ none ∨ m.world.cause? scope ≠ none) :
    m.world.cause? limit ≠ none :=
  ended.elim (fun limited => limited) fun ended =>
    orderly.sheltered.limit_ended orderly.nested mem ended (c := default) rfl

/-- The step of a refresh whose call is at its end goes on with nothing but that call. -/
theorem Job.inside_of_calling {w w₁ : World} {slot : Nat} {scope limit limit' : ScopeId}
    {purpose : Purpose} {flight flight' : Flight}
    (inside : (Job.refresh slot scope purpose (.calling limit flight)).inside id w =
      some (limit', flight', w₁)) :
    limit' = limit ∧ flight' = flight ∧ w₁ = w ∧ w.goesOn limit flight = true := by
  obtain ⟨c, -, inside⟩ := Option.bind_eq_some_iff.mp inside
  simp only [World.attempt] at inside
  split at inside <;> cases inside
  exact ⟨rfl, rfl, rfl, ‹_›⟩

/-- It leaves nothing of it under way. -/
theorem Job.gone_of_ended {w : World} {slot : Nat} {scope limit : ScopeId} {purpose : Purpose}
    {flight : Flight} (ended : w.cause? limit ≠ none) :
    ((Job.refresh slot scope purpose (.calling limit flight)).step id w).1.underway = [] := by
  cases turn : ((Job.refresh slot scope purpose (.calling limit flight)).step id w).1 with
  | finished | gone => rfl
  | going next =>
    cases step_goesOn turn with
    | calling cached calls still =>
      cases calls
      exact absurd (World.live_of_still still).1 ended
    | next | queued => rfl

/-- **A call that is cut short is dropped** with the next step of its job. -/
theorem Job.CutShort.drops (calls : m.Calls makes plan) (orderly : m.Orderly held)
    (mem : (id, job) ∈ m.jobs) (cut : job.CutShort m.world dropped) :
    job.Drops id m.world dropped := by
  cases cut with
  | @group name scope flight waiting waits ended =>
    obtain ⟨cause, ended⟩ := Option.ne_none_iff_exists'.mp ended
    have inside : (Job.call name scope flight).inside id m.world = some (scope, flight, m.world) :=
      rfl
    obtain ⟨c, of, listed⟩ := calls.callsOf.inside mem inside
    refine .of_cut ?_ inside (Flight.step_drops of listed waits ended)
    obtain ⟨o, done⟩ := (Flight.step_drops of listed waits ended).done
    simp only [Job.step, done]
    rfl
  | @refresh slot scope limit purpose flight ended givesUp =>
    have isOver := Job.limit_ended orderly mem ended
    refine .of_idle (Job.gone_of_ended isOver) ?_ fun x => ?_
    · unfold Job.deeds
      cases inside : (Job.refresh slot scope purpose (.calling limit flight)).inside id m.world with
      | none => rfl
      | some p =>
        obtain ⟨limit', flight', w₁⟩ := p
        obtain ⟨rfl, rfl, rfl, goes⟩ := Job.inside_of_calling inside
        rw [World.givesUp, goes, Bool.not_true, Bool.false_or, Turn.isStill_iff] at givesUp
        obtain ⟨next, still⟩ := givesUp
        exact Flight.finishedBy_of_still isOver still
    · exact Nat.le_of_eq (congrArg (List.count x) (Job.underway_eq rfl).symm)
  | @inner slot scope limit purpose flight waiting ended answers waits =>
    have isOver := Job.limit_ended orderly mem ended
    obtain ⟨cause, limited⟩ := Option.ne_none_iff_exists'.mp isOver
    obtain ⟨c, of, listed⟩ := calls.flights _ mem flight rfl
    cases inside : (Job.refresh slot scope purpose (.calling limit flight)).inside id m.world with
    | none =>
      refine .of_idle (Job.gone_of_ended isOver) (by rw [Job.deeds, inside]; rfl) fun x => ?_
      rw [Job.underway_eq rfl, flight.underway_of_begun (World.begun_of_answers isOver answers)]
      exact Flight.leftAll_awaited waits x
    | some p =>
      obtain ⟨limit', flight', w₁⟩ := p
      obtain ⟨rfl, rfl, rfl, -⟩ := Job.inside_of_calling inside
      exact .of_cut (Job.gone_of_ended isOver) inside (Flight.step_drops of listed waits limited)

/-- What is dropped was left of the call. -/
theorem Job.CutShort.mem_left {w : World} (cut : job.CutShort w dropped) {x : Part}
    (lost : x ∈ dropped) : ∃ flight, job.flight? = some flight ∧ x ∈ flight.left := by
  have some := List.count_pos_iff.mpr lost
  cases cut with
  | group waits | inner _ _ waits =>
    have all := Flight.leftAll_awaited waits x
    exact ⟨_, rfl, List.count_pos_iff.mp (by omega)⟩
  | @refresh _ _ _ _ flight =>
    have split := flight.count_left x
    exact ⟨_, rfl, List.count_pos_iff.mp (by omega)⟩

/-- A debounced check that is dropped is in the plan. -/
theorem Job.CutShort.planned (calls : m.Calls makes plan) (mem : (id, job) ∈ m.jobs)
    (cut : job.CutShort m.world dropped) {slot : Nat} (lost : .debounced slot ∈ dropped) :
    ∃ budget c, plan[slot]? = some (budget, c) := by
  obtain ⟨flight, flies, left⟩ := cut.mem_left lost
  obtain ⟨c, of, listed⟩ := calls.flights _ mem flight flies
  obtain ⟨budget, d, has⟩ := Flight.has_of_left of left
  exact ⟨budget, d, listed.debounced slot budget d has⟩

end

/-! ## What a debounced check sees -/

namespace World

/-- What a debounced check sees is the end of its piece. -/
theorem finished_of_observations {w : World} {deeds : List Deed} :
    ∀ x ∈ w.observations deeds, .debounced x.slot ∈ finishedBy deeds := by
  induction deeds generalizing w with
  | nil => nofun
  | cons d rest ih =>
    intro x mem
    cases d with
    | startCall | tell => exact ih x mem
    | completeCall => exact List.mem_cons_of_mem _ (ih x mem)
    | observe slot budget name inner =>
      rcases List.mem_cons.mp mem with rfl | later
      · exact List.mem_cons_self
      · exact List.mem_cons_of_mem _ (ih x later)

/-- A debounced check keeps what it keeps unless its piece is finished. -/
theorem performAll_debounces {w : World} {deeds : List Deed} {slot : Nat}
    (unseen : .debounced slot ∉ finishedBy deeds) :
    (w.performAll deeds).debounces[slot]? = w.debounces[slot]? := by
  induction deeds generalizing w with
  | nil => rfl
  | cons d rest ih =>
    rw [← List.singleton_append, finishedBy_append, List.mem_append, not_or] at unseen
    obtain ⟨here, later⟩ := unseen
    rw [performAll_cons, ih later]
    cases d with
    | startCall | completeCall | tell => rfl
    | observe there budget name inner =>
      have apart : there ≠ slot := by
        rintro rfl
        exact here List.mem_cons_self
      simp [perform, observe, tell, apart]

end World

theorem JobStep.finished_of_observations (st : JobStep) :
    ∀ x ∈ st.observations, .debounced x.slot ∈ st.finished := by
  rw [observations, Job.observations_eq]
  exact World.finished_of_observations

namespace Scenario.Session

open CheckTree (ofBlueprint?)

theorem observations_append (s : Session) (run later : List Move) :
    s.observations (run ++ later) = s.observations run ++ (s.moves run).observations later := by
  simp only [observations_eq, steps_append, List.flatMap_append]

/-- **These pieces of a call leave no trace.** The job of this number makes the call in the run
`call`, with the last step of which it drops them, and `later` comes after. -/
structure Untraced (s : Session) (id : JobId) (call : List Move) (dropped : List Part)
    (later : List Move) : Prop where
  /-- Counted piece by piece, the call has opened all that it finishes and drops: what it drops is
  not among what it finishes. -/
  unfinished : ∀ x,
    ((s.stepsBy (· == id) call).flatMap JobStep.finished).count x + dropped.count x ≤
      ((s.stepsBy (· == id) call).flatMap JobStep.opened).count x
  /-- The job has nothing under way then. -/
  gone : underwayOf (· == id) (s.moves call).machine.jobs = []
  /-- Whichever jobs finish something later had it under way then, or open it later. -/
  never : ∀ who x, (((s.moves call).stepsBy who later).flatMap JobStep.finished).count x ≤
    (underwayOf who (s.moves call).machine.jobs).count x +
      (((s.moves call).stepsBy who later).flatMap JobStep.opened).count x
  /-- Calls of probes complete as they are finished. -/
  counted : ∀ p, (((s.moves call).moves later).machine.world.callsOf p).completed =
    ((s.moves call).machine.world.callsOf p).completed +
      (((s.moves call).steps later).flatMap JobStep.finished).count (.probe p)
  /-- What a debounced check that is dropped keeps, and what it answers later, comes of what it is
  shown by the steps of jobs. -/
  answers : ∀ slot, .debounced slot ∈ dropped →
    let seen := (s.observations call).filter (·.slot == slot)
    ∃ budget d, s.machine.world.debounces[slot]? = some d ∧
      (s.moves call).machine.world.debounces[slot]? = some (d.afterAll (seen.map (·.inner))) ∧
      d.Answers budget (seen ++ ((s.moves call).observations later).filter (·.slot == slot))
  /-- The failures that are hidden are counted as they are shown. -/
  hidden : ∀ name, (s.moves call).machine.world.metrics.count (.suppressed name) =
    s.machine.world.metrics.count (.suppressed name) +
      (s.observations call).countP fun x => x.name == name && x.hidden
  /-- But what is shown to a debounced check is shown by other jobs, if the call drops all that it
  has opened of it. -/
  unseen : ∀ slot, ((s.stepsBy (· == id) call).flatMap JobStep.opened).count (.debounced slot) ≤
      dropped.count (.debounced slot) →
    (s.observations call).filter (·.slot == slot) =
      ((s.stepsBy (· != id) call).flatMap JobStep.observations).filter (·.slot == slot)

/-- **A call that is dropped never completes**: of a probe of which no other call is under way then,
and none is opened later, none completes later. -/
theorem Untraced.never_completes {s : Session} {id : JobId} {call later : List Move}
    {dropped : List Part} (untraced : s.Untraced id call dropped later) {p : String}
    (alone : .probe p ∉ underwayOf (· != id) (s.moves call).machine.jobs)
    (unopened : .probe p ∉ ((s.moves call).steps later).flatMap JobStep.opened) :
    (((s.moves call).moves later).machine.world.callsOf p).completed =
      ((s.moves call).machine.world.callsOf p).completed := by
  have none : .probe p ∉ underwayOf (fun _ => true) (s.moves call).machine.jobs := by
    intro mem
    obtain ⟨q, listed, flies⟩ := mem_underwayOf.mp mem
    by_cases own : q.1 = id
    · have idle := underwayOf_eq_nil.mp untraced.gone q listed.1 (beq_iff_eq.mpr own)
      rw [idle] at flies
      cases flies
    · exact alone (mem_underwayOf.mpr ⟨q, ⟨listed.1, bne_iff_ne.mpr own⟩, flies⟩)
  have sum := untraced.never (fun _ => true) (.probe p)
  rw [stepsBy, List.filter_true, List.count_eq_zero_of_not_mem none,
    List.count_eq_zero_of_not_mem unopened] at sum
  rw [untraced.counted, Nat.le_zero.mp sum, Nat.add_zero]

/-- Steps that show a debounced check nothing can be left out. -/
theorem observations_of_unseen {steps : List JobStep} {id : JobId} {slot : Nat}
    (unseen : .debounced slot ∉ (steps.filter (·.id == id)).flatMap JobStep.finished) :
    (steps.flatMap JobStep.observations).filter (·.slot == slot) =
      ((steps.filter (·.id != id)).flatMap JobStep.observations).filter (·.slot == slot) := by
  induction steps with
  | nil => rfl
  | cons st rest ih =>
    by_cases own : st.id = id
    · rw [List.filter_cons_of_pos (by simpa using own), List.flatMap_cons, List.mem_append,
        not_or] at unseen
      have none : st.observations.filter (·.slot == slot) = [] := by
        rw [List.filter_eq_nil_iff]
        intro x mem same
        exact unseen.1 (beq_iff_eq.mp same ▸ st.finished_of_observations x mem)
      rw [List.filter_cons_of_neg (by simpa using own), List.flatMap_cons, List.filter_append, none,
        List.nil_append, ih unseen.2]
    · rw [List.filter_cons_of_neg (by simpa using own)] at unseen
      rw [List.filter_cons_of_pos (by simpa using own), List.flatMap_cons, List.flatMap_cons,
        List.filter_append, List.filter_append, ih unseen]

section

variable {makes : List (Check × Nat)} {plan : Plan} {s : Session} {held : List ScopeId} {id : JobId}
  {i : Nat} {job : Job} {dropped : List Part} {call : List Move}

/-- The last step of a run. -/
theorem steps_concat_turn (found : (s.moves call).machine.jobs[i]? = some (id, job)) :
    s.steps (call ++ [.turn i]) = s.steps call ++ [⟨id, job, (s.moves call).machine.world⟩] := by
  rw [steps_append]
  simp only [Session.steps, step?, found, Option.map_some, Option.toList_some, List.append_nil]

/-- **What a call finishes and drops it has opened**, if the job had nothing under way before. -/
theorem unfinished_of_drops {known : Check → Prop} (within : s.Within known held)
    (idle : underwayOf (· == id) s.machine.jobs = [])
    (found : (s.moves call).machine.jobs[i]? = some (id, job))
    (drops : job.Drops id (s.moves call).machine.world dropped) (x : Part) :
    ((s.stepsBy (· == id) (call ++ [.turn i])).flatMap JobStep.finished).count x + dropped.count x ≤
      ((s.stepsBy (· == id) (call ++ [.turn i])).flatMap JobStep.opened).count x := by
  have before := moves_parts within call (· == id) x
  have own : job.underway.count x ≤
      (underwayOf (· == id) (s.moves call).machine.jobs).count x :=
    count_underwayOf_le (List.mem_of_getElem? found) (beq_self_eq_true id)
  have parts := drops.parts x
  have last : [(⟨id, job, (s.moves call).machine.world⟩ : JobStep)].filter (·.id == id) =
      [⟨id, job, (s.moves call).machine.world⟩] := by simp
  rw [idle] at before
  simp only [stepsBy, steps_concat_turn found, List.filter_append, last, List.flatMap_append,
    List.count_append, List.flatMap_singleton, JobStep.finished, JobStep.opened, List.count_nil]
    at before ⊢
  omega

/-- After the step that drops what was left of a call its job has nothing under way. -/
theorem gone_of_drops {m : Machine} (locked : m.Locked) (found : m.jobs[i]? = some (id, job))
    (drops : job.Drops id m.world dropped) : underwayOf (· == id) (m.takeTurn i).jobs = [] := by
  rw [underwayOf_eq_nil]
  intro p there own
  rcases Machine.mem_takeTurn there with beside | ⟨q, found', ⟨-, going⟩ | spawned⟩
  · -- no other job has the number of this one
    have there : p.1 ∈ (m.jobs.eraseIdx i).map Prod.fst := List.mem_map_of_mem beside
    rw [beq_iff_eq.mp own] at there
    exact absurd there (locked.beside found)
  · cases found.symm.trans found'
    have gone := drops.gone
    rwa [going] at gone
  · exact Job.underway_of_spawned spawned

/-- **What a job drops leaves no trace**, if it had nothing under way before and debounced checks
that are dropped are in the plan. -/
theorem untraced_of_drops (within : s.Within (·.Listed makes plan) held)
    (calls : s.machine.Calls makes plan) (locked : (s.moves call).machine.Locked)
    (idle : underwayOf (· == id) s.machine.jobs = [])
    (found : (s.moves call).machine.jobs[i]? = some (id, job))
    (drops : job.Drops id (s.moves call).machine.world dropped)
    (planned : ∀ slot, .debounced slot ∈ dropped → ∃ budget c d,
      plan[slot]? = some (budget, c) ∧ s.machine.world.debounces[slot]? = some d)
    (later : List Move) : s.Untraced id (call ++ [.turn i]) dropped later := by
  obtain ⟨held', within', -⟩ := moves_calls within calls (call ++ [.turn i])
  have unfinished := unfinished_of_drops within idle found drops
  constructor
  case unfinished => exact unfinished
  case gone =>
    rw [moves_append]
    exact gone_of_drops locked found drops
  case never =>
    intro who x
    exact Nat.le_trans (Nat.le_add_right _ _) (moves_parts within' later who x)
  case counted => exact moves_completed within' later
  case answers =>
    intro slot lost seen
    obtain ⟨budget, c, d, here, kept⟩ := planned slot lost
    obtain ⟨-, -, kept'⟩ := moves_answers within calls (call ++ [.turn i]) here kept
    obtain ⟨answers, -⟩ := moves_answers within calls (call ++ [.turn i] ++ later) here kept
    rw [observations_append, List.filter_append] at answers
    exact ⟨budget, d, kept, kept', answers⟩
  case hidden => exact (moves_observations within calls (call ++ [.turn i])).2.2
  case unseen =>
    intro slot all
    have sum := unfinished (.debounced slot)
    have none : ((s.stepsBy (· == id) (call ++ [.turn i])).flatMap JobStep.finished).count
        (.debounced slot) = 0 := by omega
    rw [observations_eq]
    exact observations_of_unseen (List.count_eq_zero.mp none)

end

/-- A probe heeds the scope of a forced refresh that is cancelled, and may be seen first then. If it
is, it has answered, and is not dropped: the debounced check hides its failure. The caller is
answered with the cause either way. -/
example :
    let p : Probe := ⟨"p", "p", ⟨[], .outcome (.ok .healthy)⟩,
      [⟨[⟨some 40, true⟩], .outcome (.ok .healthy)⟩]⟩
    let b : Blueprint := .cached 100 (.debounced 1 (.probe p))
    let run : List Move := [.begin (.force 0 {}), .turn 0, .begin (.derive "c" none none),
      .begin (.force 0 ⟨some "c", none⟩), .turn 0, .pass 5, .begin (.cancel ⟨some "c", none⟩)]
    let ends := fun (given : Bool) => (ofBlueprint? b).map fun t =>
      let m := ((ofTree (some t) []).moves (run ++ [.grace given])).machine
      m.jobs.map fun p => (p.2.cutShort? m.world, (p.2.step p.1 m.world).1.answer?,
        (p.2.step p.1 m.world).2.2.metrics.count (.suppressed "p"))
    ends true = some [(none, some (some .cancelled), 1)] ∧
      ends false = some [(some [.debounced 0, .probe "p"], some (some .cancelled), 0)] :=
  ⟨rfl, rfl⟩

end Scenario.Session

end HealthTree
