import HealthTree.Proofs.Assembly
import HealthTree.Proofs.Frame
import HealthTree.Proofs.Ideal

/-!
# Worlds in which nothing is stale and nothing will be hidden

A world is fair (`World.Fair`) if every cache that has a state has the ideal of its inner check, and
every debounced check whose inner check ideally fails has counted up to its budget. Then a primed
cache serves the ideal, and a failure that the ideal shows is never hidden.

A call under a live scope is on course (`Flight.OnCourse`) while the answers that its groups have
gathered are ideal. A step of it leaves the world fair, and either brings it to the ideal or leaves
it on course with less to do (`step_nears`). A call under a scope that has ended is over in its
first step. It may fail where the ideal passes, but it passes only where the ideal does
(`begin_cut`), so it too leaves the world fair.
-/

namespace HealthTree

/-- A check of the tree: it is listed, and when it is called makes no difference to it. -/
structure Check.Known (c : Check) (makes : List (Check × Nat)) (plan : Plan) : Prop where
  listed : c.Listed makes plan
  steady : c.Steady

theorem Check.Known.below {c d : Check} {makes : List (Check × Nat)} {plan : Plan}
    (known : c.Known makes plan) (has : c.Has d) : d.Known makes plan :=
  ⟨known.listed.below has, known.steady.below has⟩

namespace World

/-- **Nothing is stale, and nothing will be hidden.** -/
structure Fair (w : World) (makes : List (Check × Nat)) (plan : Plan) : Prop where
  same : w.makes = makes
  states : ∀ (slot : Nat) (make : Check × Nat) (s : Snapshot), makes[slot]? = some make →
    w.states[slot]? = some (some s) → Outcome.surface s.replay = Outcome.surface make.1.ideal
  counts : ∀ (slot : Nat) (budget : UInt32) (inner : Check), plan[slot]? = some (budget, inner) →
    inner.ideal.isOk = false → budget.toNat ≤ (w.debounce slot budget).failures

/-- The cache of this number, if there is one, has something to serve. -/
def Primed (w : World) (slot : Nat) : Prop :=
  w.states[slot]? ≠ some none

/-- Every cache in the check has something to serve. -/
def Primes (w : World) (c : Check) : Prop :=
  ∀ slot interval inner, c.Has (.cached slot interval inner) → w.Primed slot

theorem Primes.below {w : World} {c d : Check} (primes : w.Primes c) (has : c.Has d) : w.Primes d :=
  fun slot interval inner below => primes slot interval inner (has.trans below)

namespace Fair

variable {w w' : World} {makes : List (Check × Nat)} {plan : Plan} {slot : Nat}

/-- Fairness is about caches and debounced checks only. -/
theorem of_same (fair : w.Fair makes plan) (sameMakes : w'.makes = w.makes)
    (states : w'.states = w.states) (debounces : w'.debounces = w.debounces) :
    w'.Fair makes plan where
  same := sameMakes.trans fair.same
  states slot make s found state := fair.states slot make s found (states ▸ state)
  counts slot budget inner found fails := by
    show budget.toNat ≤ ((w'.debounces[slot]?).getD (.initial budget)).failures
    rw [debounces]
    exact fair.counts slot budget inner found fails

/-- A cache that is listed is there. -/
theorem cached (fair : w.Fair makes plan) {make : Check × Nat} (found : makes[slot]? = some make) :
    ∃ c, w.cache? slot = some c ∧ c.make = make := by
  rw [← fair.same] at found
  exact Option.map_eq_some_iff.mp (List.getElem?_map ▸ found)

/-- A cache that is there is listed. -/
theorem listed (fair : w.Fair makes plan) {c : Cache} (cached : w.cache? slot = some c) :
    makes[slot]? = some (c.inner, c.interval) := by
  rw [← fair.same]
  show (w.caches.map Cache.make)[slot]? = _
  rw [List.getElem?_map, show w.caches[slot]? = some c from cached]
  rfl

/-- **A cache never serves a success that the ideal is not**, and if it is primed it serves the
ideal. -/
theorem serve (fair : w.Fair makes plan) {c : Cache} (cached : w.cache? slot = some c) :
    (c.serve.isOk = true → c.inner.ideal.isOk = true) ∧
      (w.Primed slot → Outcome.surface c.serve = Outcome.surface c.inner.ideal) := by
  have state : w.states[slot]? = some c.state := by
    show (w.caches.map (·.state))[slot]? = _
    rw [List.getElem?_map, show w.caches[slot]? = some c from cached]
    rfl
  unfold Cache.serve
  cases kept : c.state with
  | none =>
    refine ⟨?_, ?_⟩
    · intro ok
      cases ok
    · intro primed
      rw [Primed, state, kept] at primed
      exact absurd rfl primed
  | some s =>
    rw [kept] at state
    have same := fair.states slot _ s (fair.listed cached) state
    exact ⟨fun ok => Outcome.isOk_of_surface same ▸ ok, fun _ => same⟩

/-- **What a debounced check sees leaves the world fair**, if it is no success where the ideal
fails. The answer is no success then either, and a failure that the ideal shows is passed on. -/
theorem observe (fair : w.Fair makes plan) {budget : UInt32} {inner : Check}
    (here : plan[slot]? = some (budget, inner)) (small : budget.toNat < Debounce.countLimit)
    (name : String) {o : Outcome} (fits : o.isOk = true → inner.ideal.isOk = true) :
    (w.observe slot name budget o).2.Fair makes plan ∧
      ((w.observe slot name budget o).1.isOk = true → inner.ideal.isOk = true) ∧
      (o.isOk = inner.ideal.isOk → (w.observe slot name budget o).1 = o) := by
  -- where the ideal fails the count has passed the budget before and after
  have counted (fails : inner.ideal.isOk = false) :
      budget.toNat ≤ (w.debounce slot budget).failures := fair.counts slot budget inner here fails
  have shown (fails : inner.ideal.isOk = false) :
      (w.debounce slot budget).hides budget = false := by
    have enough := counted fails
    apply decide_eq_false
    show ¬ min ((w.debounce slot budget).failures + 1) Debounce.countLimit ≤ budget.toNat
    omega
  refine ⟨⟨fair.same, fair.states, ?_⟩, ?_, ?_⟩
  · intro there budget' inner' found fails
    have kept := fair.counts there budget' inner' found fails
    by_cases same : slot = there
    · subst same
      rw [here] at found
      cases found
      cases o with
      | ok h =>
        rw [fits rfl] at fails
        cases fails
      | error f =>
        show budget.toNat ≤ ((w.debounces.set slot _)[slot]?.getD (.initial budget)).failures
        rw [List.getElem?_set_self']
        cases w.debounces[slot]? with
        | none => exact Nat.le_refl _
        | some d =>
          show budget.toNat ≤ min ((w.debounce slot budget).failures + 1) Debounce.countLimit
          omega
    · show budget'.toNat ≤ ((w.debounces.set slot _)[there]?.getD (.initial budget')).failures
      rw [List.getElem?_set_ne same]
      exact kept
  · intro ok
    cases o with
    | ok h => exact fits rfl
    | error f =>
      cases ideal : inner.ideal.isOk with
      | true => rfl
      | false =>
        simp only [World.observe, Debounce.answer, shown ideal] at ok
        cases ok
  · intro same
    cases o with
    | ok h => rfl
    | error f => simp only [World.observe, Debounce.answer, shown same.symm]; rfl

end Fair

end World

/-! ## A call under a scope that has ended -/

namespace Check

variable {makes : List (Check × Nat)} {plan : Plan}

/-- **Under a scope that has ended a call is over in its first step**, leaves the world fair, and
passes only where the ideal does. -/
theorem begin_cut {scope : ScopeId} {w : World} (c : Check) (known : c.Known makes plan)
    (fair : w.Fair makes plan) (ended : w.cause? scope ≠ none) :
    (c.begin scope w).2.Fair makes plan ∧
      ∃ o, (c.begin scope w).1 = .done o ∧ (o.isOk = true → c.ideal.isOk = true) := by
  cases c with
  | fixed name status message => exact ⟨fair, _, rfl, fun ok => ok⟩
  | probe p => exact absurd (.self _) (known.steady.fixed p)
  | group name children =>
    simp only [Check.begin, World.gather]
    by_cases empty : children.isEmpty
    · rw [if_pos empty, List.isEmpty_iff.mp empty]
      exact ⟨fair, _, rfl, fun _ => rfl⟩
    · obtain ⟨cause, cut⟩ := Option.ne_none_iff_exists'.mp ended
      rw [if_neg empty, cut]
      refine ⟨fair.of_same rfl rfl rfl, _, rfl, ?_⟩
      intro ok
      cases ok
  | cached slot interval inner =>
    obtain ⟨cache, cached, make⟩ := fair.cached (known.listed.cached slot interval inner (.self _))
    cases make
    simp only [Check.begin, cached]
    exact ⟨fair, _, rfl, (fair.serve cached).1⟩
  | debounced slot budget inner =>
    obtain ⟨fair', o, answered, fits⟩ :=
      begin_cut inner (known.below (.debounced (.self _))) fair ended
    have here := known.listed.debounced slot budget inner (.self _)
    have small := known.steady.budgets slot budget inner (.self _)
    obtain ⟨fair'', fits', -⟩ := fair'.observe here small inner.name fits
    simp only [Check.begin, answered, World.debounced]
    exact ⟨fair'', _, rfl, fits'⟩

end Check

/-! ## A call under a live scope -/

namespace Flight

/-- The surface of an answer, under the name it came with. -/
def shown (a : String × Outcome) : String × Outcome :=
  (a.1, Outcome.surface a.2)

/-- The answer that a check should give, under its name. -/
def goal (c : Check) : String × Outcome :=
  shown (c.name, c.ideal)

mutual
/-- **The call is on course to the ideal of the check**: the answers that its groups have gathered
are ideal, and the calls that they wait for are on course. -/
def OnCourse : Flight → Check → Prop
  | fresh check, c => check = c
  | pausing _ _ _ _, _ => False
  | gathering _ names g waiting, c => ∃ name children pending answers,
      c = .group name children ∧ names = children.map Check.name ∧ g = .ofAnswers answers ∧
      waiting ≠ [] ∧ AllOnCourse waiting pending ∧ pending ⊆ children ∧
      (answers.map shown ++ pending.map goal).Perm (children.map goal)
  | debouncing slot budget name inner, c =>
    ∃ d, c = .debounced slot budget d ∧ name = d.name ∧ inner.OnCourse d
/-- Each call is on course to the ideal of the check at its place. -/
def AllOnCourse : List (String × Flight) → List Check → Prop
  | [], pending => pending = []
  | (name, flight) :: rest, pending => ∃ c others, pending = c :: others ∧ name = c.name ∧
      flight.OnCourse c ∧ AllOnCourse rest others
end

mutual
theorem weightOfCheck_pos (c : Check) : 0 < weightOfCheck c := by
  cases c with
  | fixed | cached => exact Nat.one_pos
  | probe | group => exact Nat.succ_pos _
  | debounced slot budget inner =>
    rw [weightOfCheck]
    exact weightOfCheck_pos inner
end

theorem weight_pos (f : Flight) : 0 < f.weight := by
  cases f with
  | fresh check =>
    rw [weight]
    exact weightOfCheck_pos check
  | pausing | gathering => exact Nat.succ_pos _
  | debouncing slot budget name inner =>
    rw [weight]
    exact weight_pos inner

/-- Children that are set out weigh what they are. -/
theorem weightAll_fresh (children : List Check) :
    weightAll (children.map fun c => (c.name, fresh c)) = weightOfChecks children := by
  induction children with
  | nil => rfl
  | cons c rest ih => rw [List.map_cons, weightAll, weightOfChecks, ih, weight]

theorem allOnCourse_fresh (children : List Check) :
    AllOnCourse (children.map fun c => (c.name, fresh c)) children := by
  induction children with
  | nil => rfl
  | cons c rest ih => exact ⟨c, rest, rfl, rfl, rfl, ih⟩

end Flight

/-- **A turn brings a call nearer to the ideal of the check**: it is there, or it stays on course
with less to do than before. -/
def Turn.Nears (t : Turn) (c : Check) (before : Nat) : Prop :=
  match t with
  | .still flight => flight.OnCourse c ∧ flight.weight < before
  | .done o => Outcome.surface o = Outcome.surface c.ideal
  | .panicked => False

/-- A group whose children have all given the answer they should comes to its own ideal. -/
theorem Gathered.outcome_ideal {children : List Check} {answers : List (String × Outcome)}
    (distinct : (children.map Check.name).Nodup)
    (perm : (answers.map Flight.shown).Perm (children.map Flight.goal)) :
    Outcome.surface ((ofAnswers answers).outcome children.length) =
      Outcome.surface ((ofAnswers (Check.ideals children)).outcome children.length) := by
  have entered : (fun a => entry (Flight.shown a)) = entry := by
    funext a
    unfold entry Flight.shown
    rw [Outcome.judged_surface]
  -- an answer comes from a probe because the ideal that it shows does
  have own (a : String × Outcome) (mem : a ∈ answers) : a.2.own = true := by
    obtain ⟨c, -, same⟩ := List.mem_map.mp (perm.mem_iff.mp (List.mem_map_of_mem mem))
    have surfaces : c.ideal.surface = a.2.surface := congrArg Prod.snd same
    rw [← Outcome.own_of_surface surfaces]
    exact c.ideal_own
  refine outcome_surface ?_ own (Check.ideals_own children) ?_ children.length
  · have names := perm.map Prod.fst
    rw [List.map_map, List.map_map] at names
    exact names.nodup_iff.mpr distinct
  · have entries := perm.map entry
    rw [List.map_map, List.map_map] at entries
    rw [Check.ideals_eq, List.map_map, ← entered]
    exact entries

variable {makes : List (Check × Nat)} {plan : Plan} {scope : ScopeId}

/-- A debounced check passes on what its inner check comes to. -/
theorem World.debounced_nears {w : World} {slot : Nat} {budget : UInt32} {d : Check} {t : Turn}
    {before : Nat} (known : (Check.debounced slot budget d).Known makes plan)
    (fair : w.Fair makes plan) (nears : t.Nears d before) :
    (w.debounced slot budget d.name t).2.Fair makes plan ∧
      (w.debounced slot budget d.name t).1.Nears (.debounced slot budget d) before := by
  cases t with
  | still flight => exact ⟨fair, ⟨d, rfl, rfl, nears.1⟩, nears.2⟩
  | panicked => exact nears.elim
  | done o =>
    have here := known.listed.debounced slot budget d (.self _)
    have small := known.steady.budgets slot budget d (.self _)
    have side : o.isOk = d.ideal.isOk := Outcome.isOk_of_surface nears
    obtain ⟨fair', -, passed⟩ := fair.observe here small d.name fun ok => side ▸ ok
    refine ⟨fair', ?_⟩
    show Outcome.surface (w.observe slot d.name budget o).1 = _
    rw [passed side]
    exact nears

/-- **A call that begins is brought nearer to its ideal.** -/
theorem Check.begin_nears {w : World} (c : Check) (known : c.Known makes plan)
    (fair : w.Fair makes plan) (primes : w.Primes c) (live : w.cause? scope = none) :
    (c.begin scope w).2.Fair makes plan ∧
      (c.begin scope w).1.Nears c (Flight.weightOfCheck c) := by
  cases c with
  | fixed name status message => exact ⟨fair, rfl⟩
  | probe p => exact absurd (.self _) (known.steady.fixed p)
  | group name children =>
    simp only [Check.begin, World.gather]
    by_cases empty : children.isEmpty
    · rw [if_pos empty, List.isEmpty_iff.mp empty]
      exact ⟨fair, rfl⟩
    · rw [if_neg empty, live]
      refine ⟨fair,
        ⟨name, children, children, [], rfl, rfl, rfl, ?_, ?_, List.Subset.refl _, ?_⟩, ?_⟩
      · simpa using empty
      · exact Flight.allOnCourse_fresh children
      · exact List.Perm.refl _
      · rw [Flight.weight, Flight.weightAll_fresh, Flight.weightOfCheck]
        exact Nat.lt_succ_self _
  | cached slot interval inner =>
    obtain ⟨cache, cached, make⟩ := fair.cached (known.listed.cached slot interval inner (.self _))
    cases make
    simp only [Check.begin, cached]
    exact ⟨fair, (fair.serve cached).2 (primes slot _ _ (.self _))⟩
  | debounced slot budget inner =>
    have has : (debounced slot budget inner).Has inner := .debounced (.self _)
    obtain ⟨fair', nears⟩ := begin_nears inner (known.below has) fair (primes.below has) live
    exact World.debounced_nears known fair' nears

namespace Flight

/-- A step of a call leaves the caches as they are. -/
theorem step_primes {w : World} {c : Check} (f : Flight) (scope : ScopeId) (primes : w.Primes c) :
    (f.step scope w).2.Primes c := by
  intro slot interval inner has
  show ((f.step scope w).2.caches.map (·.state))[slot]? ≠ some none
  rw [step_caches]
  exact primes slot interval inner has

mutual
/-- **A step under a live scope leaves the world fair and brings the call nearer to its ideal.** -/
theorem step_nears {f : Flight} {c : Check} {w : World} (on : f.OnCourse c)
    (known : c.Known makes plan) (fair : w.Fair makes plan) (primes : w.Primes c)
    (live : w.cause? scope = none) :
    (f.step scope w).2.Fair makes plan ∧ (f.step scope w).1.Nears c f.weight := by
  cases f with
  | fresh check =>
    cases (on : check = c)
    rw [Flight.step, weight]
    exact c.begin_nears known fair primes live
  | pausing => exact on.elim
  | debouncing slot budget name inner =>
    obtain ⟨d, rfl, rfl, on⟩ := on
    have has : (Check.debounced slot budget d).Has d := .debounced (.self _)
    obtain ⟨fair', nears⟩ := step_nears on (known.below has) fair (primes.below has) live
    rw [Flight.step, weight]
    exact World.debounced_nears known fair' nears
  | gathering key names g waiting =>
    obtain ⟨name, children, pending, answers, rfl, rfl, rfl, some, all, sub, perm⟩ := on
    have child {d : Check} (mem : d ∈ pending) : (Check.group name children).Has d :=
      .child (sub mem) (.self _)
    obtain ⟨fair', answers', pending', gathered, all', sub', perm', lighter⟩ :=
      stepAll_nears all (fun d mem => known.below (child mem)) fair
        (fun d mem => primes.below (child mem)) live answers
    have goes : 0 < waiting.length := List.length_pos_iff.mpr some
    simp only [Flight.step, live]
    rcases taken : stepAll scope waiting (.ofAnswers answers) w with ⟨waiting', g', w'⟩
    rw [taken] at fair' gathered all' lighter
    simp only at fair' gathered all' lighter ⊢
    subst gathered
    cases waiting' with
    | nil =>
      cases (all' : pending' = [])
      rw [List.map_nil, List.append_nil] at perm'
      refine ⟨fair', ?_⟩
      show Outcome.surface
        ((Gathered.ofAnswers answers').outcome (children.map Check.name).length) = _
      rw [List.length_map]
      exact Gathered.outcome_ideal (known.steady.names name children (.self _)) (perm'.trans perm)
    | cons next rest =>
      refine ⟨fair', ⟨name, children, pending', answers', rfl, rfl, rfl, List.cons_ne_nil _ _, all',
        List.Subset.trans sub' sub, perm'.trans perm⟩, ?_⟩
      show weightAll (next :: rest) + 1 < weightAll waiting + 1
      omega
theorem stepAll_nears {waiting : List (String × Flight)} {pending : List Check} {w : World}
    (all : AllOnCourse waiting pending) (known : ∀ d ∈ pending, d.Known makes plan)
    (fair : w.Fair makes plan) (primes : ∀ d ∈ pending, w.Primes d) (live : w.cause? scope = none)
    (answers : List (String × Outcome)) :
    (stepAll scope waiting (.ofAnswers answers) w).2.2.Fair makes plan ∧ ∃ answers' pending',
      (stepAll scope waiting (.ofAnswers answers) w).2.1 = .ofAnswers answers' ∧
      AllOnCourse (stepAll scope waiting (.ofAnswers answers) w).1 pending' ∧ pending' ⊆ pending ∧
      (answers'.map shown ++ pending'.map goal).Perm (answers.map shown ++ pending.map goal) ∧
      weightAll (stepAll scope waiting (.ofAnswers answers) w).1 + waiting.length ≤
        weightAll waiting := by
  cases waiting with
  | nil =>
    cases (all : pending = [])
    exact ⟨fair, answers, [], rfl, rfl, List.Subset.refl _, .refl _, Nat.le_refl _⟩
  | cons first rest =>
    obtain ⟨key, flight⟩ := first
    obtain ⟨c, others, rfl, rfl, on, all⟩ := all
    obtain ⟨fair', nears⟩ := step_nears on (known c List.mem_cons_self) fair
      (primes c List.mem_cons_self) live
    have live' := (flight.step_cause? scope scope w).trans live
    have later (d : Check) (mem : d ∈ others) : d ∈ c :: others := List.mem_cons_of_mem _ mem
    have primes' (d : Check) (mem : d ∈ others) := flight.step_primes scope (primes d (later d mem))
    have heavy := flight.weight_pos
    simp only [stepAll, weightAll, List.length_cons]
    rcases taken : flight.step scope w with ⟨turn, w'⟩
    simp only [taken] at fair' nears live' primes'
    cases turn with
    | panicked => exact nears.elim
    | still next =>
      obtain ⟨fair'', answers', pending', gathered, all', sub', perm', lighter⟩ :=
        stepAll_nears all (fun d mem => known d (later d mem)) fair' primes' live' answers
      refine ⟨fair'', answers', c :: pending', gathered, ⟨c, pending', rfl, rfl, nears.1, all'⟩,
        List.cons_subset_cons c sub', ?_, ?_⟩
      · rw [List.map_cons, List.map_cons]
        exact List.perm_middle.trans ((perm'.cons _).trans List.perm_middle.symm)
      · have := nears.2
        simp only [World.gathered, weightAll]
        omega
    | done o =>
      have told : (w'.tell (Gathered.eventsOf c.name o)).Fair makes plan :=
        fair'.of_same rfl rfl rfl
      obtain ⟨fair'', answers', pending', gathered, all', sub', perm', lighter⟩ :=
        stepAll_nears all (fun d mem => known d (later d mem)) told primes' live'
          (answers ++ [(c.name, o)])
      simp only [Gathered.ofAnswers_concat] at fair'' gathered all' lighter
      refine ⟨fair'', answers', pending', gathered, all', fun d mem => later d (sub' mem), ?_, ?_⟩
      · have same : shown (c.name, o) = goal c := congrArg (Prod.mk c.name) nears
        rw [List.map_append, List.map_singleton, same, List.append_assoc] at perm'
        exact perm'
      · simp only [World.gathered]
        omega
end

end Flight

/-- **A session begins with a world that is fair**: no cache has a state yet, and every count is at
its budget. -/
theorem CheckTree.Planned.fair {t : CheckTree} {plan : Plan} (planned : t.Planned plan)
    (before : List Event) :
    (Scenario.Session.ofTree (some t) before).machine.world.Fair (t.caches.map Cache.make)
      plan where
  same := rfl
  states slot make s found state := by
    obtain ⟨c, there, state⟩ := Option.map_eq_some_iff.mp (List.getElem?_map ▸ state)
    rw [planned.assembled.empty c (List.mem_of_getElem? there)] at state
    cases state
  counts slot budget inner found fails := by
    have initial : t.debounces[slot]? = some (.initial budget) := by
      rw [show t.debounces = plan.map fun p => .initial p.1 from planned.assembled.debounces,
        List.getElem?_map, found]
      rfl
    show budget.toNat ≤ ((t.debounces[slot]?).getD (.initial budget)).failures
    rw [initial]
    exact Nat.le_refl _

end HealthTree
