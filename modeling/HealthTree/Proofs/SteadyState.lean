import HealthTree.Proofs.Configured
import HealthTree.Proofs.Priming

/-!
# The steady state of a configured tree

A session begins with caches that are empty and with no job under way (`Session.Fresh`). A start of
all caches under a live scope brings it to its steady state (`Fresh.start`): every cache has
something to serve, nothing is stale and nothing will be hidden (`Session.Steady`). Every command
keeps it there (`Steady.play`), and a check under a live scope comes to its ideal (`Steady.check`).
The ideal does not see caches and debounced checks. So the tree answers as if it had none
(`steady_after_start`).
-/

namespace HealthTree

namespace Machine

/-- A machine without jobs has settled. -/
theorem settle_idle {m : Machine} (idle : m.jobs = []) : m.settle = m := by
  have round : m.round = m := by
    unfold Machine.round
    rw [idle]
    show ({ m with jobs := [] } : Machine) = m
    rw [← idle]
  rw [settle, round, if_neg (Nat.lt_irrefl _)]

/-- Nobody waits for a job that is over. -/
theorem await_over {m : Machine} {id : JobId} (ended : (m.result? id).isSome) (limit : Nat) :
    m.await id limit = m := by
  rw [await, if_neg]
  rintro ⟨-, going⟩
  rw [Option.isNone_iff_eq_none.mp going] at ended
  cases ended

end Machine

namespace Scenario

/-- The command only makes, cancels or looks at scopes. -/
def Command.onlyScopes : Command → Bool
  | .derive _ _ _ | .scopeState _ | .cancel _ | .trigger | .triggered => true
  | _ => false

namespace Session

/-- **A command would run under a scope that is live.** -/
def Live (s : Session) (under : Under) : Prop :=
  ∃ id s', s.scope? under = some (id, s') ∧ s'.machine.world.cause? id = none

/-- A fresh scope is live. -/
theorem live_fresh (s : Session) : s.Live {} := by
  refine ⟨_, _, rfl, ?_⟩
  simp [withScopes, World.cause?, Scopes.cause?, Scopes.isCancelled, Scopes.deadline?, Scopes.node?,
    Scopes.next]

variable {s s' : Session} {scope : ScopeId}

/-- What a command does to scopes sets nothing off. -/
theorem instant_jobs {c : Command} (scopes : c.onlyScopes = true) :
    (s.instant c).2.machine.jobs = s.machine.jobs := by
  cases c with
  | derive name source timeout =>
    simp only [instant]
    cases found : s.scopeNamed? source with
    | none => rfl
    | some p =>
      obtain ⟨id, s₁⟩ := p
      obtain ⟨_, rfl⟩ := scopeNamed_withScopes found
      rfl
  | scopeState under =>
    simp only [instant]
    cases found : s.scope? under with
    | none => rfl
    | some p =>
      obtain ⟨id, s₁⟩ := p
      obtain ⟨_, rfl⟩ := scope_withScopes found
      rfl
  | cancel under =>
    simp only [instant]
    cases found : s.scope? under with
    | none => rfl
    | some p =>
      obtain ⟨id, s₁⟩ := p
      obtain ⟨_, rfl⟩ := scope_withScopes found
      rfl
  | trigger | triggered => rfl
  | _ => cases scopes

/-- A job that is over once everything due is run is what the command answers. -/
theorem play_answer {c : Command} {job : Job} (is : s.job? c = some (job, s')) {time : Nat}
    {reply : Reply}
    (result : (s.begin c).machine.settle.result? (s'.machine.submit job).1 = some (time, reply)) :
    (s.play c).1 = .reply reply := by
  have finished :
      ((s.begin c).settled.finish (s'.machine.submit job).1).1 = some (time, reply) := by
    show ((s.begin c).machine.settle.await _ _).result? _ = _
    rw [Machine.await_over (by rw [result]; rfl), result]
  rw [begin_job is] at finished
  cases c with
  | spawn | join => cases is
  | _ =>
    unfold play
    simp only [is]
    split <;> rename_i came
    · cases (congrArg Prod.fst came).symm.trans finished
      rfl
    · cases (congrArg Prod.fst came).symm.trans finished

/-! ## Before the start -/

section

variable (makes : List (Check × Nat)) (plan : Plan) (root : Check) (s : Session)
  (held : List ScopeId)

/-- **A session before anything of its tree is set off.** -/
structure Fresh : Prop where
  root : s.root = some root
  within : s.Within (·.Known makes plan) held
  locked : s.machine.Locked
  sheltered : s.machine.Sheltered held
  fair : s.machine.world.Fair makes plan
  idle : s.machine.jobs = []
  strict : s.machine.world.grace = false

/-- **The steady state of a session.** -/
structure Steady : Prop where
  root : s.root = some root
  within : s.Within (·.Known makes plan) held
  ready : s.machine.Ready makes plan held
  quiet : s.machine.Quiet

end

variable {makes : List (Check × Nat)} {plan : Plan} {root : Check} {held held' : List ScopeId}

/-- What commands change of a fresh session. -/
theorem Fresh.keep (fresh : s.Fresh makes plan root held)
    (touched : s.Touched (·.Known makes plan) held s' held') :
    s'.machine.Locked ∧ s'.machine.Sheltered held' ∧ s'.machine.world.Fair makes plan ∧
      s'.machine.world.grace = false := by
  have kept := Machine.Touches.kept touched.touches
  refine ⟨?_, ?_, fresh.fair.of_same kept.makes kept.states kept.debounces,
    kept.grace.trans fresh.strict⟩
  · exact touched.touches.keep (I := fun p => p.1.Locked) (fun touch locked => locked.touch touch)
      fresh.locked
  · exact touched.touches.keep (I := fun p => p.1.Sheltered p.2)
      (fun touch sheltered => sheltered.touch touch) fresh.sheltered

/-- **Commands about scopes leave a session fresh.** -/
theorem Fresh.play (fresh : s.Fresh makes plan root held) {c : Command}
    (scopes : c.onlyScopes = true) : ∃ held', (s.play c).2.Fresh makes plan root held' := by
  obtain ⟨held', touched⟩ := instant_touches fresh.within c
  have idle : (s.instant c).2.machine.jobs = [] := (instant_jobs scopes).trans fresh.idle
  have played : (s.play c).2 = (s.instant c).2.settled := by
    cases c with
    | derive | scopeState | cancel | trigger | triggered => rfl
    | _ => cases scopes
  refine ⟨held', ?_⟩
  rw [played, settled, Machine.settle_idle idle]
  obtain ⟨locked, sheltered, fair, strict⟩ := fresh.keep touched
  exact ⟨touched.root.trans fresh.root, touched.within, locked, sheltered, fair, idle, strict⟩

theorem Fresh.playAll {cs : List Command} (fresh : ∃ held, s.Fresh makes plan root held)
    (scopes : ∀ c ∈ cs, c.onlyScopes = true) :
    ∃ held, (playAll cs s).2.Fresh makes plan root held := by
  induction cs generalizing s with
  | nil => exact fresh
  | cons c rest ih =>
    obtain ⟨held, fresh⟩ := fresh
    exact ih (fresh.play (scopes c List.mem_cons_self))
      fun d mem => scopes d (List.mem_cons_of_mem _ mem)

/-- Without caches a session is steady from the first. -/
theorem Fresh.steady (fresh : s.Fresh [] plan root held) : s.Steady [] plan root held := by
  have none (p : JobId × Job) : p ∉ s.machine.jobs := by
    rw [fresh.idle]
    exact List.not_mem_nil
  refine ⟨fresh.root, fresh.within, ⟨fresh.locked, fresh.sheltered, fresh.fair, ?_,
    fun p mem => absurd mem (none p), fresh.strict⟩, fun p mem => absurd mem (none p)⟩
  intro k
  have empty : s.machine.world.caches = [] := List.map_eq_nil_iff.mp fresh.fair.same
  unfold World.Primed World.states
  rw [empty]
  intro there
  cases there

/-! ## In the steady state -/

/-- **A machine that becomes ready and quiet again leaves its session steady.** -/
theorem Steady.machine (steady : s.Steady makes plan root held) {m : Machine}
    (next : m.Ready makes plan held ∧ m.Quiet) :
    ({ s with machine := m } : Session).Steady makes plan root held where
  root := steady.root
  within := steady.within.machine (next.1.fair.same.trans steady.ready.fair.same.symm)
    (List.Subset.refl _)
  ready := next.1
  quiet := next.2

/-- What commands change leaves a session steady once everything due is run. -/
theorem Steady.touched (layout : Layout makes plan) (steady : s.Steady makes plan root held)
    (touched : s.Touched (·.Known makes plan) held s' held') :
    s'.settled.Steady makes plan root held' := by
  have ready : s'.machine.Ready makes plan held' :=
    Machine.Ready.touches (p := (s.machine, held)) steady.ready touched.touches
  obtain ⟨ready', quiet'⟩ := ready.settle layout
  exact ⟨touched.root.trans steady.root,
    touched.within.machine (ready'.fair.same.trans ready.fair.same.symm) (List.Subset.refl _),
    ready', quiet'⟩

/-- **Every command leaves a session steady**, under whatever scope. -/
theorem Steady.play (layout : Layout makes plan) (steady : ∃ held, s.Steady makes plan root held)
    (c : Command) : ∃ held, (s.play c).2.Steady makes plan root held := by
  obtain ⟨held, steady⟩ := steady
  refine play_keep (I := fun s => ∃ held, s.Steady makes plan root held) ⟨held, steady⟩ ?_ ?_ ?_ c
  · intro c
    obtain ⟨held', touched⟩ := begin_touches steady.within c
    exact ⟨held', steady.touched layout touched⟩
  · intro name c
    obtain ⟨held', touched⟩ := setAside_touches steady.within name c
    exact ⟨held', steady.touched layout touched⟩
  · intro s id kept
    obtain ⟨held', kept⟩ := kept
    exact ⟨held', kept.machine (kept.ready.await layout kept.quiet id _)⟩

/-! ## The start -/

/-- **A start of all caches promises each of them**, and none comes before one that it needs. -/
theorem Fresh.begin (fresh : s.Fresh makes plan root held) {under : Under} {slot : Nat}
    {rest : List Nat} (all : List.range makes.length = slot :: rest)
    (is : s.job? (.startAll under) = some (.refresh slot scope (.start rest) .arriving, s'))
    (live : s'.machine.world.cause? scope = none)
    (touched : s.Touched (·.Known makes plan) held (s.begin (.startAll under)) held')
    (idle : s'.machine.jobs = []) :
    (s.begin (.startAll under)).machine.Working makes plan held' ∧
      (s.begin (.startAll under)).machine.Priming := by
  obtain ⟨locked, sheltered, fair, strict⟩ := fresh.keep touched
  have begun := begin_job is
  have jobs : (s.begin (.startAll under)).machine.jobs =
      [(s'.machine.world.nextJob, .refresh slot scope (.start rest) .arriving)] := by
    rw [begun]
    show s'.machine.jobs ++ [_] = _
    rw [idle]
    rfl
  have live' : (s.begin (.startAll under)).machine.world.cause? scope = none := by
    rw [begun]
    exact live
  refine ⟨⟨locked, sheltered, fair, ?_, strict⟩, ?_⟩
  · intro p mem
    rw [jobs] at mem
    cases List.mem_singleton.mp mem
    refine ⟨fun _ => ?_, trivial⟩
    show InOrder _ (slot :: rest)
    rw [← all, List.range_eq_range']
    exact InOrder.range' (fun k lt => absurd lt (Nat.not_lt_zero k)) _
  · intro k
    by_cases there : k < makes.length
    · refine .inr ⟨(s'.machine.world.nextJob, .refresh slot scope (.start rest) .arriving),
        ?_, live', ?_, ?_⟩
      · rw [jobs]
        exact List.mem_singleton.mpr rfl
      · rw [← all]
        exact List.mem_range.mpr there
      · intro j mem
        rw [fair.same]
        exact List.mem_range.mp (all ▸ mem)
    · left
      have outside : (s.begin (.startAll under)).machine.world.states[k]? = none := by
        apply List.getElem?_eq_none
        rw [← fair.same, World.makes, List.length_map] at there
        rw [World.states, List.length_map]
        exact Nat.le_of_not_lt there
      unfold World.Primed
      rw [outside]
      intro there
      cases there

/-- **A start of all caches under a live scope brings a fresh session to its steady state.** -/
theorem Fresh.start (layout : Layout makes plan) (fresh : s.Fresh makes plan root held)
    {under : Under} (live : s.Live under) :
    ∃ held, (s.play (.startAll under)).2.Steady makes plan root held := by
  obtain ⟨scope, s₁, found, live⟩ := live
  obtain ⟨scopes, rfl⟩ := scope_withScopes found
  have length : (s.withScopes scopes).machine.world.caches.length = makes.length := by
    rw [← fresh.fair.same]
    exact (List.length_map _).symm
  cases all : List.range makes.length with
  | nil =>
    cases List.length_eq_zero_iff.mp (List.range_eq_nil.mp all)
    have played : (s.play (.startAll under)).2 = s.settled := by
      have none : s.job? (.startAll under) = none := by
        unfold job?
        simp only [found, Option.bind_eq_bind, Option.bind_some, length, all]
      unfold Session.play
      simp only [none]
      rfl
    rw [played, settled, Machine.settle_idle fresh.idle]
    exact ⟨held, fresh.steady⟩
  | cons slot rest =>
    have is : s.job? (.startAll under) =
        some (.refresh slot scope (.start rest) .arriving, s.withScopes scopes) := by
      unfold job?
      simp only [found, Option.bind_eq_bind, Option.bind_some, length, all]
      rfl
    obtain ⟨held', touched⟩ := begin_touches fresh.within (.startAll under)
    obtain ⟨working, priming⟩ := fresh.begin all is live touched fresh.idle
    have quiet := working.settle_quiet layout
    have ready := (working.settle layout).ready quiet (working.primed layout priming)
    have steady : (s.begin (.startAll under)).settled.Steady makes plan root held' := by
      refine ⟨touched.root.trans fresh.root, ?_, ready, quiet⟩
      have same := ready.fair.same.trans working.fair.same.symm
      exact touched.within.machine same (List.Subset.refl _)
    refine ⟨held', ?_⟩
    rw [play_job is]
    exact steady.machine (steady.ready.await layout steady.quiet _ _)

/-- **In the steady state a check under a live scope comes to its ideal.** -/
theorem Steady.check (layout : Layout makes plan) (steady : s.Steady makes plan root held)
    {under : Under} (live : s.Live under) :
    ∃ o, (s.play (.check .root under)).1 = .reply (.answered root.name o) ∧
      Outcome.surface o = Outcome.surface root.ideal := by
  obtain ⟨scope, s₁, found, live⟩ := live
  have known : root.Known makes plan := steady.within.root root steady.root
  have is : s.job? (.check .root under) = some (.call root.name scope (.fresh root), s₁) := by
    unfold job? target?
    simp only [steady.root, found, Option.bind_eq_bind, Option.bind_some]
    rfl
  obtain ⟨held', touched⟩ := begin_touches steady.within (.check .root under)
  have ready : (s.begin (.check .root under)).machine.Ready makes plan held' :=
    Machine.Ready.touches (p := (s.machine, held)) steady.ready touched.touches
  have answers : (s.begin (.check .root under)).machine.Answers s₁.machine.world.nextJob root := by
    have primes : (s.begin (.check .root under)).machine.world.Primes root :=
      fun slot _ _ _ => ready.primed slot
    rw [begin_job is] at primes ⊢
    refine .inl ⟨_, List.mem_append_right _ (List.mem_singleton.mpr rfl), rfl, live, rfl, primes⟩
  obtain ⟨time, o, result, ideal⟩ := ready.working.answered layout known answers
  exact ⟨o, play_answer is result, ideal⟩

/-- A session with a tree that is laid out begins fresh. -/
theorem fresh_ofTree {t : CheckTree} (planned : t.Planned plan) (labels : t.labels = [])
    (layout : Layout (t.caches.map Cache.make) plan)
    (known : t.root.Known (t.caches.map Cache.make) plan) (before : List Event) :
    ∃ held, (ofTree (some t) before).Fresh (t.caches.map Cache.make) plan t.root held := by
  have within := planned.within before
  refine ⟨_, rfl, ⟨within.shutdown, within.scopes, ?_, ?_, ?_⟩,
    planned.locked before, planned.sheltered before, planned.fair before, rfl, rfl⟩
  · rintro _ ⟨⟩
    exact known
  · intro label c found
    have found : t.labels.lookup label = some c := found
    rw [labels] at found
    cases found
  · intro slot make found
    exact ⟨within.caches slot make found, .cached (layout.known slot make found).steady⟩

/-- **A configured tree is steady after its start**: after a start of all caches under a live scope,
whatever commands come next, a check of the root under a live scope answers as it does for the tree
without its refreshed and debounced nodes, except that a group may wrap the fault of another child.
That fault comes from a check itself, never from a cache that had nothing to serve. -/
theorem steady_after_start {spec : CheckSpec} (valid : spec.problems = [])
    (bounded : spec.bounded = true) :
    ∃ t e, spec.tree? = some t ∧ spec.erased.tree? = some e ∧
      ∀ (events events' : List Event) (prepare later : List Command) (begun asked asked' : Under),
        let fresh := (playAll prepare (ofTree (some t) events)).2
        let s := (playAll later (fresh.play (.startAll begun)).2).2
        let bare := ofTree (some e) events'
        (∀ c ∈ prepare, c.onlyScopes = true) → fresh.Live begun → s.Live asked → bare.Live asked' →
        ∃ o o', (s.play (.check .root asked)).1 = .reply (.answered spec.name o) ∧
          (bare.play (.check .root asked')).1 = .reply (.answered spec.name o') ∧
          o.health = o'.health ∧ o.isOk = o'.isOk ∧
          o.fault?.map Fault.surface = o'.fault?.map Fault.surface ∧ o.own = true := by
  have fit := spec.fit_of_problems valid bounded
  obtain ⟨t, plan, tree, planned, labels, named, layout, known⟩ := fit.tree
  obtain ⟨e, plan', tree', planned', labels', named', layout', known'⟩ := fit.erased.tree
  have erased := CheckSpec.tree_erased tree
  refine ⟨t, e, tree, tree', ?_⟩
  intro events events' prepare later begun asked asked' fresh s bare scopes live live' live''
  -- the tree is brought to its steady state, and stays there
  obtain ⟨held, started⟩ := Fresh.playAll (fresh_ofTree planned labels layout known events) scopes
  obtain ⟨held, steady⟩ :=
    playAll_keep (I := fun s => ∃ held, s.Steady (t.caches.map Cache.make) plan t.root held)
      (fun s c steady => Steady.play layout steady c) later (started.start layout live)
  obtain ⟨o, answer, ideal⟩ := steady.check layout live'
  -- without caches it is there from the first
  cases tree'.symm.trans erased
  obtain ⟨held', began⟩ := fresh_ofTree planned' labels' layout' known' events'
  obtain ⟨o', answer', ideal'⟩ := began.steady.check layout' live''
  rw [named] at answer
  rw [named', CheckSpec.erased_name] at answer'
  have same : o.surface = o'.surface := by
    rw [ideal, ideal']
    exact congrArg Outcome.surface (Check.bare_ideal t.root).symm
  refine ⟨o, o', answer, answer', ?_, Outcome.isOk_of_surface same, ?_, ?_⟩
  · rw [← Outcome.surface_health, same, Outcome.surface_health]
  · rw [← Outcome.surface_fault?, same, Outcome.surface_fault?]
  · rw [Outcome.own_of_surface ideal]
    exact t.root.ideal_own

/-- A failure behind two caches and a debounced group shows through a stop, a refresh that is out of
time and the passing of many intervals. -/
theorem steady_after_start_nested :
    let spec : CheckSpec := .cached 10 (.debounced 1 (.group "outer"
      [.cached 5 (.fixed "bad" .unhealthy "down"), .fixed "good" .healthy ""]))
    let later : List Command :=
      [.check .root {}, .stop 0, .force 1 { timeout := some 0 }, .advance 100, .startAll {}]
    ∃ t e o o', spec.tree? = some t ∧ spec.erased.tree? = some e ∧
      ((playAll later ((ofTree (some t) []).play (.startAll {})).2).2.play (.check .root {})).1 =
        .reply (.answered "outer" o) ∧
      ((ofTree (some e) []).play (.check .root {})).1 = .reply (.answered "outer" o') ∧
      o.health = o'.health ∧ o.own = true := by
  intro spec later
  obtain ⟨t, e, tree, tree', same⟩ := @steady_after_start spec (by decide +kernel) rfl
  obtain ⟨o, o', answer, answer', health, -, -, own⟩ :=
    same [] [] [] later {} {} {} (List.forall_mem_nil _) (live_fresh _) (live_fresh _)
      (live_fresh _)
  exact ⟨t, e, o, o', tree, tree', answer, answer', health, own⟩

end Session

end Scenario

end HealthTree
