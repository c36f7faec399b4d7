import HealthTree.Daemon.CommandLine
import HealthTree.Proofs.AtOnce
import HealthTree.Proofs.Contract

/-!
# One report

A daemon that is asked for one report starts its tree, checks the root under a timeout, prints what
the root says, and exits as the check went. A configured tree has no probes, so nothing of this takes
time, and nothing of it can break the daemon off but the timeout: the instant at which it ends has to
be one that there is (`Daemon.hasDeadline`), and of this the validation of configurations knows
nothing. `reports_once` says so of every configuration that is accepted.

What is printed says its status outright, and the exit is that of the status, unless a budget is the
largest there is. A debounced check of this budget hides failures before it has seen a success, and
what it then says is nothing.
-/

namespace HealthTree

/-! ## A report is a line -/

namespace Json

theorem escapeChar_oneLine (c : Char) : '\n' ∉ escapeChar c := by
  have digits : ∀ n < 16, Nat.digitChar n ≠ '\n' := by decide
  have digit (n : Nat) : '\n' ≠ hexDigit n := (digits _ (Nat.mod_lt _ (by decide))).symm
  unfold escapeChar
  split_ifs with _ _ _ _ newline
  iterate 7 decide
  · simp [digit]
  · exact fun mem => newline (List.mem_singleton.mp mem).symm

theorem stringChars_oneLine (s : String) : '\n' ∉ stringChars s := by
  simp only [stringChars, List.cons_append, List.mem_cons, List.mem_append, List.mem_flatMap,
    not_or, not_exists, not_and]
  exact ⟨by decide, fun c _ => escapeChar_oneLine c, by decide, List.not_mem_nil⟩

theorem mapChars_oneLine {entries : List (String × Data)}
    (inside : ∀ e ∈ entries, '\n' ∉ chars e.2) : '\n' ∉ mapChars entries := by
  induction entries with
  | nil => decide
  | cons e rest ih =>
    obtain ⟨key, d⟩ := e
    have here := inside _ List.mem_cons_self
    have later := ih fun e mem => inside e (List.mem_cons_of_mem _ mem)
    have name := stringChars_oneLine key
    cases rest with
    | nil => simp [mapChars, here, name]
    | cons next rest => simp [mapChars, here, name, later]

end Json

namespace Health

mutual
theorem chars_oneLine (h : Health) : '\n' ∉ Json.chars h.toData := by
  obtain ⟨status, message, services⟩ := h
  have below := servicesChars_oneLine services
  unfold toData
  rw [Json.chars, List.mem_cons, not_or]
  refine ⟨by decide, Json.mapChars_oneLine ?_⟩
  intro e mem
  rcases List.mem_append.mp mem with mem | mem
  · rcases List.mem_append.mp mem with mem | mem
    · cases status with
      | none => cases mem
      | some s =>
        cases List.mem_singleton.mp mem
        exact Json.stringChars_oneLine _
    · split at mem
      · cases mem
      · cases List.mem_singleton.mp mem
        exact Json.stringChars_oneLine _
  · split at mem
    · cases mem
    · cases List.mem_singleton.mp mem
      rw [Json.chars, List.mem_cons, not_or]
      exact ⟨by decide, Json.mapChars_oneLine below⟩
theorem servicesChars_oneLine (services : List (String × Health)) :
    ∀ e ∈ servicesToData services, '\n' ∉ Json.chars e.2 := by
  cases services with
  | nil => exact List.forall_mem_nil _
  | cons service rest =>
    intro e mem
    rcases List.mem_cons.mp mem with rfl | later
    · exact chars_oneLine service.2
    · exact servicesChars_oneLine rest e later
end

/-- **The line of a report is one line.** -/
theorem line_oneLine (h : Health) : '\n' ∉ h.line.toList := by
  rw [line, Json.write, String.toList_ofList]
  exact h.chars_oneLine

end Health

/-! ## Configured trees -/

namespace CheckSpec

mutual
/-- **Every configured tree is assembled**, under its own name and without probes. No interval is
raised if nothing is wrong with it. -/
theorem assembles (c : CheckSpec) (a : Assembly) :
    ∃ d a', c.blueprint.assemble a = some (d, a') ∧ d.name = c.name ∧ d.probes = [] ∧
      a'.labels = a.labels ∧ (c.problems = [] → a'.events = a.events) := by
  cases c with
  | fixed name status message => exact ⟨_, a, rfl, rfl, rfl, rfl, fun _ => rfl⟩
  | cached interval check =>
    obtain ⟨d, a', built, named, unprobed, labels, quiet⟩ := assembles check a
    refine ⟨.cached a'.caches.length (max interval.toNat 1) d, (a'.addCache interval.toNat d).2, ?_,
      named, unprobed, labels, fun valid => ?_⟩
    · rw [blueprint, Blueprint.assemble, built]
      rfl
    · rw [problems, List.append_eq_nil_iff, List.append_eq_nil_iff, List.map_eq_nil_iff] at valid
      have positive : interval.toNat ≠ 0 := by
        intro zero
        have same : interval = 0 := UInt64.toNat_inj.mp zero
        simp [same] at valid
      rw [Assembly.addCache, if_neg positive]
      exact quiet valid.2
  | debounced budget check =>
    obtain ⟨d, a', built, named, unprobed, labels, quiet⟩ := assembles check a
    refine ⟨.debounced a'.debounces.length budget d, (a'.addDebounce budget d).2, ?_, named,
      unprobed, labels, fun valid => ?_⟩
    · rw [blueprint, Blueprint.assemble, built]
      rfl
    · rw [problems, List.append_eq_nil_iff, List.map_eq_nil_iff] at valid
      exact quiet valid.2
  | group name checks =>
    obtain ⟨ds, a', built, unprobed, labels, quiet⟩ := assemblesAll checks a
    refine ⟨.group name ds, a', ?_, rfl, unprobed, labels, fun valid => ?_⟩
    · rw [blueprint, Blueprint.assemble, built]
      rfl
    · rw [problems, List.append_eq_nil_iff] at valid
      exact quiet (childProblems_nil valid.2).2.2
theorem assemblesAll (checks : List CheckSpec) (a : Assembly) :
    ∃ ds a', Blueprint.assembleAll (blueprints checks) a = some (ds, a') ∧ Check.probesOf ds = [] ∧
      a'.labels = a.labels ∧ ((∀ c ∈ checks, c.problems = []) → a'.events = a.events) := by
  cases checks with
  | nil => exact ⟨[], a, rfl, rfl, rfl, fun _ => rfl⟩
  | cons c rest =>
    obtain ⟨d, a₁, built, -, unprobed, labels, quiet⟩ := assembles c a
    obtain ⟨ds, a₂, built', unprobed', labels', quiet'⟩ := assemblesAll rest a₁
    refine ⟨d :: ds, a₂, ?_, ?_, labels'.trans labels, fun valid => ?_⟩
    · rw [blueprints, Blueprint.assembleAll, built]
      simp only [Option.bind_eq_bind, Option.bind_some, built']
      rfl
    · rw [Check.probesOf, unprobed, unprobed']
      rfl
    · rw [quiet' fun d mem => valid d (List.mem_cons_of_mem _ mem)]
      exact quiet (valid c List.mem_cons_self)
end

/-- **The tree of a configuration** has its name, no probes and no labels, and if nothing is wrong
with it there is nothing to tell. -/
theorem tree_unprobed (c : CheckSpec) :
    ∃ t, c.tree? = some t ∧ t.root.name = c.name ∧ t.root.probes = [] ∧ t.labels = [] ∧
      (c.problems = [] → t.events = []) := by
  obtain ⟨d, a, built, named, unprobed, labels, quiet⟩ := c.assembles {}
  refine ⟨⟨d, a.caches, a.debounces, a.labels, a.events⟩, ?_, named, unprobed, labels, quiet⟩
  unfold tree? CheckTree.ofBlueprint?
  rw [built]
  rfl

end CheckSpec

namespace Outcome

/-- Whether an outcome fits is a matter of its side and of the health that it shows. -/
theorem fits_iff (o : Outcome) :
    o.Fits ↔ if o.isOk then o.health.Passing else o.health.Failing := by
  cases o <;> rfl

/-- An outcome fits if one of the same surface does. -/
theorem fits_of_surface {o o' : Outcome} (same : o.surface = o'.surface) (fits : o'.Fits) :
    o.Fits := by
  have health : o.health = o'.health := by
    rw [← surface_health, same, surface_health]
  rwa [fits_iff, isOk_of_surface same, health, ← fits_iff]

end Outcome

/-- **What a steady check comes to says its status outright**, and the status is that of the side. -/
theorem Check.Steady.ideal_fits {c : Check} (steady : c.Steady) : c.ideal.Fits := by
  cases c with
  | fixed name status message => exact Check.fixedOutcome_fits name status message
  | probe p => exact absurd (.self _) (steady.fixed p)
  | cached slot interval inner =>
    exact ideal_fits (c := inner) (steady.below (.cached (.self _)))
  | debounced slot budget inner =>
    exact ideal_fits (c := inner) (steady.below (.debounced (.self _)))
  | group name children =>
    cases children with
    | nil => exact .inl rfl
    | cons first rest =>
      have distinct := steady.names name _ (.self _)
      have names : (Check.ideals (first :: rest)).map Prod.fst = (first :: rest).map Check.name := by
        rw [Check.ideals_eq, List.map_map]
        rfl
      have contract := Gathered.outcome_contract distinct (List.cons_ne_nil _ _)
        (List.Perm.of_eq names) (Gathered.last_ofAnswers _)
      rw [List.length_map] at contract
      exact contract.fits

/-! ## The start of a daemon -/

namespace Scenario.Session

open CheckTree (ofBlueprint?)

/-- A session calls no probe if its tree has none. -/
theorem unprobed_ofTree {b : Blueprint} {t : CheckTree} (built : ofBlueprint? b = some t)
    (unprobed : t.root.probes = []) (before : List Event) :
    ∃ held, (ofTree (some t) before).Unprobed held := by
  obtain ⟨⟨held, timely⟩, -⟩ := rested_ofTree built before
  obtain ⟨caches, labels⟩ := CheckTree.nodes_ofBlueprint built
  have cached (slot : Nat) (make : Check × Nat)
      (found : (t.caches.map Cache.make)[slot]? = some make) : make.1.probes = [] := by
    rw [List.getElem?_map] at found
    obtain ⟨c, there, rfl⟩ := Option.map_eq_some_iff.mp found
    exact (caches slot c there).unprobed unprobed
  refine ⟨held, ⟨⟨timely.within.shutdown, timely.within.scopes, ?_, ?_, cached⟩, timely.paced,
    timely.crewed⟩, ⟨?_, nofun⟩, rfl⟩
  · rintro _ ⟨⟩
    exact unprobed
  · exact fun label c found => (labels label c found).unprobed unprobed
  · intro make mem
    obtain ⟨slot, found⟩ := List.getElem?_of_mem mem
    exact cached slot make found

/-- **A session in which a daemon is ready to report**: it has come so far in no time, and its scope
is live. -/
structure Serves (s : Session) (root : Check) : Prop where
  root : s.root = some root
  now : s.machine.now = 0
  scope : ∃ id, s.scopes.lookup Daemon.scope = some id ∧ s.machine.world.cause? id = none
  unprobed : ∃ held, s.Unprobed held

end Scenario.Session

namespace Daemon

open Scenario Scenario.Session

/-- The scope that all checks run under is derived from that of the shutdown. -/
def derive : Command :=
  .derive scope (some shutdownName) none

/-- What a daemon does before its first report: it derives a scope, and starts all caches under
it. -/
def opening : List Command :=
  [derive, .startAll ⟨scope, none⟩]

/-- **A daemon starts as a session of its tree**, and has reported nothing yet. -/
theorem start_opens {c : Config} {t : CheckTree} (tree : c.tree.tree? = some t)
    (quiet : t.events = []) :
    ∃ before, start c = ⟨c, (playAll opening (ofTree (some t) before)).2, []⟩ := by
  let before : List Event := .daemonStarting version ::
    if c.observability.metricsEnabled then [.metricsServed c.observability.metricsAddress] else []
  let built : List Event := [.treeBuilt c.tree.name t.caches.length]
  refine ⟨before ++ built, ?_⟩
  let s := ofTree (some t) before
  -- what is told next might as well have been told before
  have told : { s with machine := { s.machine with world := s.machine.world.tell built } } =
      ofTree (some t) (before ++ built) := by
    simp [s, ofTree, World.tell, CheckTree.world, quiet]
  rw [← told, start, tree]
  rfl

theorem play_derive (t : CheckTree) (before : List Event) :
    ((ofTree (some t) before).play derive).2 = (ofTree (some t) before).begin derive := by
  show ((ofTree (some t) before).begin derive).settled = _
  rw [settled, Machine.settle_idle rfl]

/-- It is the third scope that there is, and it is live. -/
theorem scope_derive (t : CheckTree) (before : List Event) :
    let s := (ofTree (some t) before).begin derive
    s.scope? ⟨scope, none⟩ = some (2, s) ∧ s.machine.world.cause? 2 = none :=
  ⟨rfl, rfl⟩

/-- **After its opening a daemon is ready to report**, if its tree has no probes. -/
theorem opening_serves {b : Blueprint} {t : CheckTree} (built : CheckTree.ofBlueprint? b = some t)
    (unprobed : t.root.probes = []) (before : List Event) :
    (playAll opening (ofTree (some t) before)).2.Serves t.root := by
  obtain ⟨_, fresh⟩ := unprobed_ofTree built unprobed before
  obtain ⟨_, calm⟩ := fresh.begin derive
  obtain ⟨found, alive⟩ := scope_derive t before
  have idle := play_derive t before
  let s := (ofTree (some t) before).begin derive
  have calm : s.Unprobed _ := calm
  have played : (playAll opening (ofTree (some t) before)).2 =
      (s.play (.startAll ⟨scope, none⟩)).2 :=
    congrArg (fun s : Session => (s.play (.startAll ⟨scope, none⟩)).2) idle
  rw [played]
  cases all : List.range s.machine.world.caches.length with
  | nil =>
    have started : (s.play (.startAll ⟨scope, none⟩)).2 = s := by
      have none : s.job? (.startAll ⟨scope, none⟩) = none := by
        unfold job?
        simp only [s, found, Option.bind_eq_bind, Option.bind_some, all]
      unfold Session.play
      simp only [none]
      exact idle
    rw [started]
    exact ⟨rfl, rfl, ⟨2, rfl, alive⟩, _, calm⟩
  | cons slot rest =>
    have is : s.job? (.startAll ⟨scope, none⟩) =
        some (.refresh slot 2 (.start rest) .arriving, s) := by
      unfold job?
      simp only [s, found, Option.bind_eq_bind, Option.bind_some, all]
      rfl
    have there (k : Nat) (mem : k ∈ slot :: rest) : k < s.machine.world.makes.length := by
      rw [World.makes, List.length_map]
      exact List.mem_range.mp (all ▸ mem)
    obtain ⟨-, ended, unprobed'⟩ :=
      calm.play_job is starts_bring ⟨slot, 2, rest, .arriving, rfl, there⟩
    have later := (s.begin (.startAll ⟨scope, none⟩)).machine.settle_later
    have old : 2 < s.machine.world.scopes.next := Nat.lt_succ_self 2
    rw [ended]
    rw [ended, begin_job is] at unprobed'
    rw [begin_job is] at later ⊢
    exact ⟨rfl, later.now, ⟨2, rfl, (later.cause? old).trans alive⟩, unprobed'⟩

end Daemon

/-! ## The report -/

namespace Scenario.Session.Serves

variable {s : Session} {root : Check}

/-- The root is called under a scope of its own, which is live. -/
theorem live (serves : s.Serves root) {timeout : Nat} (positive : 0 < timeout) :
    s.Live ⟨Daemon.scope, some timeout⟩ := by
  obtain ⟨id, named, alive⟩ := serves.scope
  refine ⟨_, _, by simp only [scope?, scopeNamed?, named]; rfl, ?_⟩
  refine Scopes.derive_cause?_eq_none.mpr ⟨alive, ?_⟩
  rintro _ ⟨⟩
  exact Nat.lt_add_of_pos_right positive

/-- **A check of the root is answered.** -/
theorem answered (serves : s.Serves root) {timeout : Nat} (positive : 0 < timeout) :
    ∃ o, (s.play (.check .root ⟨Daemon.scope, some timeout⟩)).1 = .reply (.answered root.name o) := by
  obtain ⟨id, s', found, -⟩ := serves.live positive
  obtain ⟨_, unprobed⟩ := serves.unprobed
  have is : s.job? (.check .root ⟨Daemon.scope, some timeout⟩) =
      some (.call root.name id (.fresh root), s') := by
    unfold job? target?
    simp only [serves.root, found, Option.bind_eq_bind, Option.bind_some]
    rfl
  obtain ⟨⟨_, answer, o, rfl⟩, -⟩ := unprobed.play_job is (calls_bring root.name) ⟨id, _, rfl⟩
  exact ⟨o, answer⟩

end Scenario.Session.Serves

namespace Config

open Scenario Scenario.Session

variable {c : Config} {uptime : Nat}

/-- Nothing is wrong with the tree, and the timeout is positive. -/
theorem parts_of_problems (valid : c.problems = []) :
    c.tree.problems = [] ∧ 0 < c.reporting.timeout.toNat * 1000 := by
  rw [problems, List.append_eq_nil_iff, List.append_eq_nil_iff] at valid
  obtain ⟨⟨-, reporting⟩, tree⟩ := valid
  refine ⟨tree, Nat.mul_pos (Nat.pos_of_ne_zero ?_) (by decide)⟩
  intro zero
  have same : c.reporting.timeout = 0 := UInt64.toNat_inj.mp zero
  simp [Reporting.problems, same] at reporting

/-- **A daemon with nothing wrong in its configuration is ready to report.** -/
theorem start_serves (valid : c.problems = []) :
    ∃ t before, c.tree.tree? = some t ∧
      Daemon.start c = ⟨c, (playAll Daemon.opening (ofTree (some t) before)).2, []⟩ ∧
      (playAll Daemon.opening (ofTree (some t) before)).2.Serves t.root := by
  obtain ⟨t, tree, -, unprobed, -, quiet⟩ := c.tree.tree_unprobed
  obtain ⟨before, started⟩ := Daemon.start_opens tree (quiet (parts_of_problems valid).1)
  exact ⟨t, before, tree, started, Daemon.opening_serves tree unprobed before⟩

/-- **Without a deadline nothing is reported**: the daemon breaks off. -/
theorem reportOnce_late (valid : c.problems = [])
    (late : Daemon.hasDeadline uptime c.reporting.timeout = false) :
    (c.reportOnce uptime).exit = .crashed ∧ (c.reportOnce uptime).reports = [] := by
  obtain ⟨t, before, -, started, serves⟩ := start_serves valid
  simp [reportOnce, started, Daemon.report, serves.now, late, Daemon.run]

/-- What the check of the root comes to fits, if no budget is the largest: the tree is in its steady
state then. -/
theorem answer_fits {t : CheckTree} {before : List Event} {timeout : Nat} {name : String}
    {o : Outcome} (valid : c.tree.problems = []) (bounded : c.tree.bounded = true)
    (tree : c.tree.tree? = some t)
    (live : (playAll Daemon.opening (ofTree (some t) before)).2.Live ⟨Daemon.scope, some timeout⟩)
    (answer : ((playAll Daemon.opening (ofTree (some t) before)).2.play
      (.check .root ⟨Daemon.scope, some timeout⟩)).1 = .reply (.answered name o)) : o.Fits := by
  obtain ⟨t', plan, tree', planned, labels, -, layout, known⟩ :=
    (c.tree.fit_of_problems valid bounded).tree
  cases tree.symm.trans tree'
  obtain ⟨_, fresh⟩ := fresh_ofTree planned labels layout known before
  obtain ⟨_, derived⟩ := fresh.play (c := Daemon.derive) rfl
  have alive : ((ofTree (some t) before).play Daemon.derive).2.Live ⟨Daemon.scope, none⟩ := by
    rw [Daemon.play_derive]
    exact ⟨2, _, Daemon.scope_derive t before⟩
  obtain ⟨_, steady⟩ := derived.start layout alive
  obtain ⟨o', answer', ideal⟩ := steady.check layout live
  cases answer.symm.trans answer'
  exact Outcome.fits_of_surface ideal known.steady.ideal_fits

/-- **With a deadline the root is reported**, and the exit is as the check went. What is reported
fits, if no budget is the largest. -/
theorem reportOnce_timely (valid : c.problems = [])
    (timely : Daemon.hasDeadline uptime c.reporting.timeout = true) :
    ∃ o : Outcome, (c.reportOnce uptime).reports = [o.health] ∧
      (c.reportOnce uptime).exit = (if o.isOk then .passed else .failed) ∧
      (c.tree.bounded = true → o.Fits) := by
  obtain ⟨t, before, tree, started, serves⟩ := start_serves valid
  obtain ⟨valid', positive⟩ := parts_of_problems valid
  obtain ⟨o, answer⟩ := serves.answered positive
  rcases played : (playAll Daemon.opening (ofTree (some t) before)).2.play
    (.check .root ⟨Daemon.scope, some (c.reporting.timeout.toNat * 1000)⟩) with ⟨a, s⟩
  have fits (bounded : c.tree.bounded = true) : o.Fits :=
    answer_fits valid' bounded tree (serves.live positive) answer
  rw [played] at answer
  cases (answer : a = _)
  refine ⟨o, ?_, ?_, fits⟩
  all_goals
    simp only [reportOnce, started, Daemon.report, serves.now, Nat.zero_div, Nat.add_zero, timely,
      if_true, played]
    cases o <;> rfl

end Config

namespace Daemon

/-- A configuration that is accepted has nothing wrong with it. -/
theorem configuration_valid {file : String → Option ByteArray} {name : Option String} {c : Config}
    (accepted : configuration file name = .ok c) : c.problems = [] := by
  have validated {c' : Config} (accepted : c'.validated = .ok c) : c.problems = [] := by
    unfold Config.validated at accepted
    split at accepted
    · next none =>
      cases accepted
      exact none
    · cases accepted
  cases name with
  | none =>
    cases accepted
    decide +kernel
  | some name =>
    simp only [configuration, Config.load] at accepted
    split at accepted
    · cases accepted
    · split at accepted
      · cases accepted
      · unfold Config.parse at accepted
        split at accepted
        · cases accepted
        · split at accepted
          · cases accepted
          · exact validated accepted

/-- **One report, and an exit that goes with it.** Of every configuration that is accepted: where the
timeout has a deadline one line is printed, which shows the health of the root, and the exit is as the
check of the root went. If no budget is the largest, the health says its status outright and the
exit is that of the status. Where the timeout has none the daemon breaks off and prints nothing. -/
theorem reports_once {s : Surroundings} {args : List String} {file : Option String} {c : Config}
    (asked : Request.parse? args = some (.run file true))
    (accepted : configuration s.file file = .ok c) :
    let i := invoke s args
    (hasDeadline s.uptime c.reporting.timeout = false → i.exit.code = 101 ∧ i.output = "") ∧
    (hasDeadline s.uptime c.reporting.timeout = true → ∃ h : Health,
      i.output = h.line ++ "\n" ∧ '\n' ∉ h.line.toList ∧ (i.exit.code = 0 ∨ i.exit.code = 1) ∧
      (c.tree.bounded = true → ∃ status, h.status = some status ∧
        i.exit.code = if status = .healthy ∨ status = .degraded then 0 else 1)) := by
  intro i
  have valid := configuration_valid accepted
  have exit : i.exit = (c.reportOnce s.uptime).exit := by
    simp only [i, invoke, asked, Request.answer, accepted, if_true]
  have output : i.output = (c.reportOnce s.uptime).output := by
    simp only [i, invoke, asked, Request.answer, accepted, if_true]
  constructor
  · intro late
    obtain ⟨crashed, nothing⟩ := Config.reportOnce_late valid late
    constructor
    · rw [exit, crashed]
      rfl
    · rw [output, Run.output, nothing]
      rfl
  · intro timely
    obtain ⟨o, reported, went, fits⟩ := Config.reportOnce_timely valid timely
    refine ⟨o.health, ?_, o.health.line_oneLine, ?_, ?_⟩
    · simp [output, Run.output, reported, String.join]
    · rw [exit, went]
      cases o.isOk with
      | true => exact .inl rfl
      | false => exact .inr rfl
    · intro bounded
      rw [exit, went]
      cases o with
      | ok h => rcases fits bounded with status | status <;> exact ⟨_, status, rfl⟩
      | error f => rcases fits bounded with status | status <;> exact ⟨_, status, rfl⟩

/-- The last timeout with a deadline, on a machine that was started a second ago. -/
theorem reports_once_at_the_end :
    let text := "[report]\ntimeout_secs=9223372036854775806\n[tree]\nkind=\"async\"\n" ++
      "interval_ms=10\ncheck=\x7bkind=\"static\",name=\"db\",status=\"unhealthy\"\x7d\n"
    let s : Surroundings := { file := fun _ => some text.toUTF8, uptime := 1 }
    let i := invoke s ["--config", "health.toml", "--once"]
    ∃ (c : Config) (h : Health) (status : Status),
      configuration s.file (some "health.toml") = .ok c ∧
      i.output = h.line ++ "\n" ∧ '\n' ∉ h.line.toList ∧ h.status = some status ∧
      i.exit.code = if status = .healthy ∨ status = .degraded then 0 else 1 := by
  intro text s i
  have loads : (configuration s.file (some "health.toml")).toOption.map (fun c =>
      (hasDeadline 1 c.reporting.timeout, c.tree.bounded)) = some (true, true) := by decide +kernel
  cases accepted : configuration s.file (some "health.toml") with
  | error e => simp [accepted, Except.toOption] at loads
  | ok c =>
    simp only [accepted, Except.toOption, Option.map_some, Option.some.injEq, Prod.mk.injEq] at loads
    obtain ⟨timely, bounded⟩ := loads
    have asked : Request.parse? ["--config", "health.toml", "--once"] =
        some (.run (some "health.toml") true) := by decide +kernel
    obtain ⟨-, reports⟩ := reports_once (s := s) asked accepted
    obtain ⟨h, output, line, -, agrees⟩ := reports timely
    obtain ⟨status, explicit, exit⟩ := agrees bounded
    exact ⟨c, h, status, rfl, output, line, explicit, exit⟩

/-- **One second more is accepted too**, and breaks the daemon off. -/
theorem breaks_off_past_the_end :
    let text := "[report]\ntimeout_secs = 9223372036854775807\n"
    let s : Surroundings := { file := fun _ => some text.toUTF8, uptime := 1 }
    let args := ["--config", "health.toml", "--once"]
    Request.parse? args = some (.run (some "health.toml") true) ∧
      (∃ c, configuration s.file (some "health.toml") = .ok c) ∧
      (invoke s args).exit.code = 101 ∧ (invoke s args).output = "" := by
  intro text s args
  have asked : Request.parse? args = some (.run (some "health.toml") true) := by decide +kernel
  have loads : (configuration s.file (some "health.toml")).toOption.map (fun c =>
      hasDeadline 1 c.reporting.timeout) = some false := by decide +kernel
  cases accepted : configuration s.file (some "health.toml") with
  | error e => simp [accepted, Except.toOption] at loads
  | ok c =>
    have late : hasDeadline s.uptime c.reporting.timeout = false := by
      simpa [accepted, Except.toOption] using loads
    obtain ⟨crashed, nothing⟩ := Config.reportOnce_late (configuration_valid accepted) late
    refine ⟨asked, ⟨c, rfl⟩, ?_, ?_⟩
    · simp [invoke, asked, Request.answer, accepted, crashed, Exit.code]
    · simp [invoke, asked, Request.answer, accepted, Run.output, nothing]

end Daemon

end HealthTree
