import HealthTree.Proofs.Debouncing
import HealthTree.Proofs.Punctual
import HealthTree.Proofs.SteadyState

/-!
# Checks that answer at once

Only probes take time, and only probes panic. A step of a call of a check without probes leaves less
to do and does not panic (`Flight.step_unprobed`), whatever its caches serve, its debounced checks
hide and its scope is. So when a machine whose calls are all of this kind has settled, no job of it is
a call or a refresh (`Still.quiet`, `Quiet.dozes`). What a command asks for has then come to its reply
(`Paced.settle_comes`), and no time has passed (`Unprobed.play_job`).

This says less than what is known of the steady state, that the reply is the ideal one; but it holds
whatever the budgets are, and before the steady state is reached.
-/

namespace HealthTree

/-! ## Calls -/

/-- A debounced check panics as its inner check does. -/
theorem World.debounced_panicked (w : World) (slot : Nat) (budget : UInt32) (name : String)
    (t : Turn) : (w.debounced slot budget name t).1 = .panicked ↔ t = .panicked := by
  cases t <;> simp [debounced]

namespace Check

/-- The checks called together have no probes if the group has none. -/
theorem unprobed_of_mem {children : List Check} (unprobed : probesOf children = []) {c : Check}
    (mem : c ∈ children) : c.probes = [] := by
  induction children with
  | nil => cases mem
  | cons first rest ih =>
    rw [probesOf, List.append_eq_nil_iff] at unprobed
    rcases List.mem_cons.mp mem with rfl | later
    · exact unprobed.1
    · exact ih unprobed.2 later

/-- Below a check without probes there is none. -/
theorem Has.unprobed {c d : Check} (has : c.Has d) (unprobed : c.probes = []) : d.probes = [] := by
  induction has with
  | self => exact unprobed
  | child mem _ ih => exact ih (unprobed_of_mem unprobed mem)
  | cached _ ih | debounced _ ih => exact ih unprobed

/-- What begins without a probe does not panic. -/
theorem begin_unprobed {c : Check} (unprobed : c.probes = []) (scope : ScopeId) (w : World) :
    (c.begin scope w).1 ≠ .panicked := by
  cases c with
  | fixed => simp [Check.begin]
  | probe p => cases unprobed
  | group name children =>
    simp only [Check.begin, World.gather, World.interrupt]
    split
    · simp
    · split <;> simp
  | cached slot interval inner =>
    simp only [Check.begin]
    split <;> simp
  | debounced slot budget inner =>
    rw [Check.begin, ne_eq, World.debounced_panicked]
    exact begin_unprobed (c := inner) unprobed scope w

end Check

namespace Flight

mutual
/-- **A step of a call without probes** leaves less to do, and does not panic. -/
theorem step_unprobed {f : Flight} {c : Check} (of : f.Of c) (unprobed : c.probes = [])
    (scope : ScopeId) (w : World) :
    (f.step scope w).1 ≠ .panicked ∧ (f.step scope w).1.weight < f.weight := by
  cases f with
  | fresh check =>
    cases (of : check = c)
    exact ⟨Check.begin_unprobed unprobed scope w, c.begin_weight scope w⟩
  | pausing p wake heeds act =>
    cases (of : c = .probe p)
    cases unprobed
  | gathering name names g waiting =>
    obtain ⟨children, rfl, -, all⟩ := of
    simp only [step]
    cases w.cause? scope with
    | some cause => exact ⟨by simp [World.interrupt], Nat.succ_pos _⟩
    | none =>
      have less := stepAll_unprobed all (fun d mem => Check.unprobed_of_mem unprobed mem) scope g w
      rcases taken : stepAll scope waiting g w with ⟨left, g', w'⟩
      rw [taken] at less
      cases left with
      | nil => exact ⟨by simp, Nat.succ_pos _⟩
      | cons first rest =>
        refine ⟨by simp, Nat.succ_lt_succ ?_⟩
        rcases less with none | less
        · subst none
          cases taken
        · exact less
  | debouncing slot budget name inner =>
    obtain ⟨d, rfl, -, of⟩ := of
    simp only [step, ne_eq, World.debounced_panicked, World.debounced_weight, weight]
    exact step_unprobed of unprobed scope w
/-- A step of each of several such calls leaves less to do, if there are any. -/
theorem stepAll_unprobed {waiting : List (String × Flight)} {children : List Check}
    (all : AllOf waiting children) (unprobed : ∀ c ∈ children, c.probes = []) (scope : ScopeId)
    (g : Gathered) (w : World) :
    waiting = [] ∨ weightAll (stepAll scope waiting g w).1 < weightAll waiting := by
  cases waiting with
  | nil => exact .inl rfl
  | cons first rest =>
    right
    obtain ⟨name, flight⟩ := first
    obtain ⟨⟨c, mem, -, of⟩, -⟩ := all
    have less := (step_unprobed of (unprobed c mem) scope w).2
    -- the others need not get lighter, for the first has
    simp only [stepAll, weightAll]
    rcases taken : flight.step scope w with ⟨turn, w'⟩
    rw [taken] at less
    cases turn with
    | still next => exact Nat.add_lt_add_of_lt_of_le less (stepAll_weight_le rest scope g w')
    | done | panicked =>
      exact Nat.lt_of_le_of_lt (stepAll_weight_le ..) (Nat.lt_add_of_pos_left less)
end

end Flight

/-- The call of an inner check without probes goes on likewise. -/
theorem World.callInner_unprobed {flight : Flight} {c : Check} (of : flight.Of c)
    (unprobed : c.probes = []) (limit : ScopeId) (w : World) :
    (w.callInner limit flight).1 ≠ .panicked ∧
      (w.callInner limit flight).1.weight < flight.weight := by
  obtain ⟨unpanicked, less⟩ := flight.step_unprobed of unprobed limit w
  have cases := w.callInner_cases limit flight
  generalize w.callInner limit flight = r at cases ⊢
  cases cases with
  | steps => exact ⟨unpanicked, less⟩
  | lastTurn =>
    refine ⟨?_, (Turn.cutOff_weight ..).symm ▸ flight.weight_pos⟩
    cases turn : (flight.step limit w).1 with
    | still | done => simp [Turn.cutOff]
    | panicked => exact absurd turn unpanicked
  | cut => exact ⟨by simp, flight.weight_pos⟩

/-! ## Machines -/

namespace Machine

variable {m : Machine} {held : List ScopeId} {id : JobId} {slot : Nat} {scope : ScopeId}
  {purpose : Purpose} {phase : Phase} {c : Cache}

/-- The call that a refresh makes is one of a check without probes. -/
theorem CallsOf.attempt (calls : m.CallsOf (·.probes = []))
    (mem : (id, .refresh slot scope purpose phase) ∈ m.jobs) (cached : m.world.cache? slot = some c)
    {limit : ScopeId} {flight : Flight} {w₁ : World}
    (attempted : m.world.attempt id slot c scope phase = .calls limit flight w₁) :
    (w₁.callInner limit flight).1 ≠ .panicked ∧
      (w₁.callInner limit flight).1.weight < flight.weight := by
  have of : ∃ c, flight.Of c ∧ c.probes = [] := by
    rcases World.attempt_calls attempted with ⟨rfl, -⟩ | ⟨-, rfl, -⟩
    · exact calls.flights _ mem flight rfl
    · exact ⟨c.inner, rfl, calls.cached cached⟩
  obtain ⟨c, of, unprobed⟩ := of
  exact World.callInner_unprobed of unprobed limit w₁

/-- **Where no step changes anything every job rests**, if no probe is called. -/
theorem Still.quiet (still : m.Still) (calls : m.CallsOf (·.probes = [])) (spaced : m.world.Spaced)
    (onTime : m.world.OnTime) (strict : m.world.grace = false) : m.Quiet := by
  rintro ⟨id, job⟩ mem
  have same := still _ mem
  -- a step that leaves less to do changes something
  have stuck (less : stepWeight (job.step id m.world) < job.weight m.world) : False := by
    rw [same] at less
    exact Nat.lt_irrefl _ less
  cases job with
  | call name scope flight =>
    obtain ⟨c, of, unprobed⟩ := calls.flights _ mem flight rfl
    have less := (flight.step_unprobed of unprobed scope m.world).2
    simp only [Job.step] at same
    cases turn : (flight.step scope m.world).1 with
    | still next =>
      rw [turn] at same less
      cases congrArg Prod.fst same
      exact Nat.lt_irrefl _ less
    | done | panicked =>
      rw [turn] at same
      cases congrArg Prod.fst same
  | refresh slot scope purpose phase =>
    cases cached : m.world.cache? slot with
    | none =>
      simp only [Job.step, cached] at same
      cases same
    | some c =>
      simp only [Job.step, cached, World.stepRefresh_eq] at same stuck
      cases attempted : m.world.attempt id slot c scope phase with
      | refused cause w₁ =>
        rw [attempted] at stuck
        exact (stuck (World.refused_lighter spaced attempted purpose)).elim
      | calls limit flight w₁ =>
        rw [attempted] at stuck
        have less := (calls.attempt mem cached attempted).2
        exact (stuck (World.calls_lighter spaced cached attempted purpose less)).elim
      | waits w₁ =>
        rcases World.attempt_waits attempted with ⟨rfl, -⟩ | ⟨rfl, -, behind⟩
        · rw [attempted] at same
          cases same
        · exact ⟨c, cached, behind⟩
  | loop slot scope =>
    cases cached : m.world.cache? slot with
    | none =>
      simp only [Job.step, cached] at same
      cases same
    | some c =>
      simp only [Job.step, cached] at stuck
      rcases World.stepLoop_lighter spaced strict cached (onTime.prompt slot scope) with
        ⟨early, -⟩ | less
      · exact early
      · exact (stuck less).elim
  | work | watch | sleep => trivial

end Machine

/-- **Jobs like this come to replies like that** where no probe is called: a step leaves such a job or
comes to such a reply, and the job has something to do until then. -/
structure Brings (like : World → Job → Prop) (reply : Reply → Prop) : Prop where
  keep : ∀ {w w' : World} {job}, w'.makes = w.makes → like w job → like w' job
  step : ∀ {m : Machine} {id job}, m.CallsOf (·.probes = []) → (id, job) ∈ m.jobs →
    like m.world job →
      (∃ next, (job.step id m.world).1 = .going next ∧ like (job.step id m.world).2.2 next) ∨
        ∃ r, (job.step id m.world).1 = .finished r ∧ reply r
  busy : ∀ {w : World} {job}, like w job → ¬ job.Dozes

/-- **A call brings an answer.** -/
theorem calls_bring (name : String) :
    Brings (fun _ job => ∃ scope flight, job = .call name scope flight)
      (fun r => ∃ o, r = .answered name o) where
  keep _ is := is
  step := by
    rintro m id _ calls mem ⟨scope, flight, rfl⟩
    obtain ⟨c, of, unprobed⟩ := calls.flights _ mem flight rfl
    obtain ⟨unpanicked, -⟩ := flight.step_unprobed of unprobed scope m.world
    simp only [Job.step]
    cases turn : (flight.step scope m.world).1 with
    | still next => exact .inl ⟨_, rfl, scope, next, rfl⟩
    | done o => exact .inr ⟨_, rfl, o, rfl⟩
    | panicked => exact absurd turn unpanicked
  busy := by
    rintro w _ ⟨scope, flight, rfl⟩ dozes
    exact dozes

/-- **What a step leaves of a start** is a start of the same caches or of fewer of them, or it is
over. -/
theorem start_goes {m : Machine} {id : JobId} {slot : Nat} {scope : ScopeId} {rest : List Nat}
    {phase : Phase} (calls : m.CallsOf (·.probes = []))
    (mem : (id, .refresh slot scope (.start rest) phase) ∈ m.jobs)
    (there : (m.world.cache? slot).isSome) :
    (∃ slot' rest' phase', ((Job.refresh slot scope (.start rest) phase).step id m.world).1 =
        .going (.refresh slot' scope (.start rest') phase') ∧
          ∀ k ∈ slot' :: rest', k ∈ slot :: rest) ∨
      ((Job.refresh slot scope (.start rest) phase).step id m.world).1 = .finished .started := by
  have concludes (w : World) (c : Cache) (fault : Option Fault) :
      (∃ slot' rest' phase', (w.conclude slot c scope fault (.start rest)).1 =
          .going (.refresh slot' scope (.start rest') phase') ∧
            ∀ k ∈ slot' :: rest', k ∈ slot :: rest) ∨
        (w.conclude slot c scope fault (.start rest)).1 = .finished .started := by
    cases rest with
    | nil => exact .inr rfl
    | cons next rest => exact .inl ⟨next, rest, _, rfl, fun k mem => List.mem_cons_of_mem _ mem⟩
  obtain ⟨c, cached⟩ := Option.isSome_iff_exists.mp there
  simp only [Job.step, cached, World.stepRefresh_eq]
  cases attempted : m.world.attempt id slot c scope phase with
  | refused cause w₁ => exact concludes w₁ c _
  | waits w₁ => exact .inl ⟨slot, rest, _, rfl, fun k mem => mem⟩
  | calls limit flight w₁ =>
    have unpanicked := (calls.attempt mem cached attempted).1
    simp only [World.goOnRefresh_eq]
    cases turn : (w₁.callInner limit flight).1 with
    | still next => exact .inl ⟨slot, rest, _, rfl, fun k mem => mem⟩
    | panicked => exact absurd turn unpanicked
    | done o =>
      simp only [World.refreshTurn, World.finishRefresh]
      split
      · exact concludes _ c _
      · exact concludes _ c _

/-- **A start of caches brings them to be started**, if there are such caches. -/
theorem starts_bring :
    Brings (fun w job => ∃ slot scope rest phase, job = .refresh slot scope (.start rest) phase ∧
      ∀ k ∈ slot :: rest, k < w.makes.length) (· = .started) where
  keep := by
    rintro w w' _ makes ⟨slot, scope, rest, phase, same, there⟩
    exact ⟨slot, scope, rest, phase, same, fun k mem => makes ▸ there k mem⟩
  step := by
    rintro m id _ calls mem ⟨slot, scope, rest, phase, rfl, there⟩
    have makes := ((Job.refresh slot scope (.start rest) phase).step_later id m.world).makes
    have here : (m.world.cache? slot).isSome := by
      have lt := there slot List.mem_cons_self
      rw [World.makes, List.length_map] at lt
      rw [World.cache?, List.getElem?_eq_getElem lt]
      rfl
    rcases start_goes calls mem here with ⟨slot', rest', phase', going, fewer⟩ | finishes
    · refine .inl ⟨_, going, slot', scope, rest', phase', rfl, ?_⟩
      intro k mem
      rw [makes]
      exact there k (fewer k mem)
    · exact .inr ⟨_, finishes, rfl⟩
  busy := by
    rintro w _ ⟨slot, scope, rest, phase, rfl, -⟩ dozes
    exact dozes

namespace Machine

variable {m : Machine} {held : List ScopeId} {id : JobId} {like : World → Job → Prop}
  {reply : Reply → Prop}

/-- **When a machine has settled, such a job has come to its reply.** -/
theorem Paced.settle_comes (paced : m.Paced held) (strict : m.world.grace = false)
    (calls : m.CallsOf (·.probes = [])) (brings : Brings like reply)
    (comes : m.Comes id like reply) : ∃ time r, m.settle.result? id = some (time, r) ∧ reply r := by
  have kept : m.settle.CallsOf (·.probes = []) ∧ m.settle.Comes id like reply := by
    refine paced_settles.settle_keeps (J := fun m => m.CallsOf (·.probes = []) ∧
      m.Comes id like reply) (fun m i paced ⟨calls, comes⟩ => ⟨calls.takeTurn i, ?_⟩)
      ⟨paced, strict⟩ ⟨calls, comes⟩
    apply comes.takeTurn paced.1.locked i
    · exact fun job _ => brings.keep (m.takeTurn_later i).makes
    · exact fun job mem => brings.step calls mem
  obtain ⟨calls', comes'⟩ := kept
  obtain ⟨paced', strict'⟩ := paced_settles.settle ⟨paced, strict⟩
  have still := paced_settles.settle_still ⟨paced, strict⟩
  rcases comes' with ⟨job, mem, is⟩ | ⟨-, -, given⟩
  · have quiet := still.quiet calls' paced'.spaced paced'.onTime strict'
    exact absurd (quiet.dozes paced'.locked _ mem) (brings.busy is)
  · exact given

end Machine

/-! ## Sessions -/

namespace Scenario.Session

variable {s s' : Session} {held : List ScopeId} {c : Command} {job : Job}
  {like : World → Job → Prop} {reply : Reply → Prop}

/-- **A session that keeps time and calls no probe**, and cuts off at once what has ended. -/
structure Unprobed (s : Session) (held : List ScopeId) : Prop where
  timely : s.Timely (·.probes = []) held
  calls : s.machine.CallsOf (·.probes = [])
  strict : s.machine.world.grace = false

theorem Unprobed.moves (unprobed : s.Unprobed held) {run : List Move} (punctual : s.Punctual run)
    (strict : (s.moves run).machine.world.grace = false) :
    ∃ held', (s.moves run).Unprobed held' := by
  obtain ⟨held', timely⟩ := unprobed.timely.moves punctual
  obtain ⟨_, -, calls⟩ := moves_keep (I := fun p => p.1.CallsOf (·.probes = []))
    (fun touch calls => calls.touch touch) (fun _ _ i calls => calls.takeTurn i)
    (fun _ _ _ _ calls => ⟨calls.caches, calls.flights⟩) unprobed.timely.within unprobed.calls run
  exact ⟨held', timely, calls, strict⟩

/-- A command is begun. -/
theorem Unprobed.begin (unprobed : s.Unprobed held) (c : Command) :
    ∃ held', (s.begin c).Unprobed held' := by
  obtain ⟨_, touched⟩ := begin_touches unprobed.timely.within c
  have strict := (Machine.Touches.kept touched.touches).grace.trans unprobed.strict
  have punctual : s.Punctual [.begin c] := ⟨trivial, trivial⟩
  exact unprobed.moves punctual strict

/-- What is due is run to its end. -/
theorem Unprobed.settled (unprobed : s.Unprobed held) : ∃ held', s.settled.Unprobed held' := by
  have strict : s.settled.machine.world.grace = false :=
    s.machine.settle_later.grace.trans unprobed.strict
  obtain ⟨turns, taken⟩ := s.machine.settle_turns
  obtain ⟨run, same, patient⟩ := s.turns_patiently turns
  rw [Session.settled, taken, same] at strict ⊢
  exact unprobed.moves (unprobed.timely.punctual patient) strict

/-- **A command that asks for a job is replied to at once**, and nothing is left to do. -/
theorem Unprobed.play_job (unprobed : s.Unprobed held) (is : s.job? c = some (job, s'))
    (brings : Brings like reply) (asked : like s'.machine.world job) :
    (∃ r, (s.play c).1 = .reply r ∧ reply r) ∧ (s.play c).2 = (s.begin c).settled ∧
      ∃ held', (s.play c).2.Unprobed held' := by
  obtain ⟨held', begun⟩ := unprobed.begin c
  have comes : (s.begin c).machine.Comes (s'.machine.submit job).1 like reply := by
    rw [begin_job is]
    refine .inl ⟨job, List.mem_append_right _ (List.mem_singleton.mpr rfl), ?_⟩
    exact brings.keep (w := s'.machine.world) rfl asked
  obtain ⟨time, r, result, given⟩ :=
    begun.timely.paced.settle_comes begun.strict begun.calls brings comes
  have ended : (s.play c).2 = (s.begin c).settled := by
    have there : ((s.begin c).settled.machine.result? (s'.machine.submit job).1).isSome :=
      Option.isSome_iff_exists.mpr ⟨_, result⟩
    rw [Session.play_job is]
    simp only [finish, Machine.await_over there]
  refine ⟨⟨r, play_answer is result, given⟩, ended, ?_⟩
  rw [ended]
  exact begun.settled

end Scenario.Session

end HealthTree
