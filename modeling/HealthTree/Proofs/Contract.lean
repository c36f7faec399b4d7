import HealthTree.Proofs.Assembly
import HealthTree.Proofs.CacheHistory
import HealthTree.Proofs.Debouncing
import HealthTree.Proofs.GroupRun

/-!
# The contract of every check

An outcome fits if its status is said outright and is that of its side (`Outcome.Fits`). A tree is
lawful (`Check.Lawful`) if its leaves answer what fits or panic, the children of each of its groups
have names of their own, and no budget is the largest count.

Of a lawful tree every outcome fits, of every node and in every run (`outcomes_fit`). Two things
that outlive a call carry this from one call to the next: the state of a cache, and the success that
a debounced check remembers (`World.Upholds`). The remembered success is blank at first and would
not fit, but it is not answered before the count of failures has come below the budget, which takes
a success. Of the calls under way it is enough that the answers gathered are those of the children
no longer waited for, whatever these answered, and that a probe will answer what fits
(`Flight.Sound`).

`Session.returned` lists the outcomes of all calls that a run completes, those below a call too.
-/

namespace HealthTree

/-- A group that keeps its contract has an outcome that fits. -/
theorem GroupContract.fits {names : List String} {o : Outcome} (contract : GroupContract names o) :
    o.Fits := by
  cases o with
  | ok h => exact contract.passes.mp rfl
  | error f =>
    have fails : ¬ f.health.Passing := fun passing => nomatch contract.passes.mpr passing
    by_cases one : ∃ e ∈ f.health.services, e.2.Failing
    · by_cases sound : ∃ e ∈ f.health.services, ¬ e.2.Failing
      · exact .inr (contract.partiallyUnhealthy.mpr ⟨one, sound⟩)
      · refine .inl (contract.unhealthy.mpr fun e mem => ?_)
        by_contra passing
        exact sound ⟨e, mem, passing⟩
    · have sound : ∀ e ∈ f.health.services, ¬ e.2.Failing :=
        fun e mem failing => one ⟨e, mem, failing⟩
      refine absurd ?_ fails
      by_cases worn : ∃ e ∈ f.health.services, e.2.status = some .degraded
      · exact .inr (contract.degraded.mpr ⟨sound, worn⟩)
      · exact .inl (contract.healthy.mpr ⟨sound, worn⟩)

/-- A failure without a health of its own fits. -/
theorem Outcome.ofFault_fits (fault : Fault) : Outcome.Fits (.error (.ofFault fault)) :=
  .inl rfl

/-- **Fixed leaves fit**: they pass exactly if their status does. -/
theorem Check.fixedOutcome_fits (name : String) (status : Status) (message : String) :
    (fixedOutcome name status message).Fits := by
  cases status <;> simp [fixedOutcome, Outcome.Fits, Health.Passing, Health.Failing, Health.leaf,
    Status.passing]

/-- What a probe answers fits, if it does not panic. -/
def Answer.Fits : Answer → Prop
  | .outcome o => o.Fits
  | .tally | .scope | .panic => True

namespace Check

mutual
/-- **A lawful check**: its leaves answer what fits or panic, siblings have names of their own, and
no budget is the largest count. -/
def Lawful : Check → Prop
  | fixed _ _ _ => True
  | probe p => ∀ a ∈ p.first :: p.rest, a.answer.Fits
  | group _ children => (children.map name).Nodup ∧ AllLawful children
  | cached _ _ inner => inner.Lawful
  | debounced _ budget inner => budget.toNat < Debounce.countLimit ∧ inner.Lawful
/-- All of several checks are lawful. -/
def AllLawful : List Check → Prop
  | [] => True
  | c :: rest => c.Lawful ∧ AllLawful rest
end

theorem AllLawful.of_mem {children : List Check} (all : AllLawful children) {c : Check}
    (mem : c ∈ children) : c.Lawful := by
  induction children with
  | nil => cases mem
  | cons first rest ih =>
    rcases List.mem_cons.mp mem with rfl | mem
    · exact all.1
    · exact ih all.2 mem

/-- Every node of a lawful check is lawful. -/
theorem Lawful.below {c d : Check} (lawful : c.Lawful) (has : c.Has d) : d.Lawful := by
  induction has with
  | self => exact lawful
  | child mem _ ih => exact ih (lawful.2.of_mem mem)
  | cached _ ih => exact ih lawful
  | debounced _ ih => exact ih lawful.2

end Check

/-! ## What calls come to -/

/-- **The outcomes of all calls that the first step of a call completes**, its own last. -/
def Check.returned (scope : ScopeId) : Check → World → List Outcome
  | debounced slot budget inner, w => inner.returned scope w ++
      ((debounced slot budget inner).begin scope w).1.outcome?.toList
  | c, w => (c.begin scope w).1.outcome?.toList

namespace Flight

mutual
/-- **The outcomes of all calls that one step of a call completes**, its own last. -/
def returned (scope : ScopeId) : Flight → World → List Outcome
  | fresh check, w => check.returned scope w
  | pausing p wake heeds act, w => ((pausing p wake heeds act).step scope w).1.outcome?.toList
  | gathering name names g waiting, w =>
    (if (w.cause? scope).isSome then [] else returnedAll scope waiting g w) ++
      ((gathering name names g waiting).step scope w).1.outcome?.toList
  | debouncing slot budget name inner, w => inner.returned scope w ++
      ((debouncing slot budget name inner).step scope w).1.outcome?.toList
/-- Those that one step of each child a group waits for completes. -/
def returnedAll (scope : ScopeId) :
    List (String × Flight) → Gathered → World → List Outcome
  | [], _, _ => []
  | (name, flight) :: rest, g, w =>
    let (turn, after) := flight.step scope w
    let (_, g, after) := after.gathered name g turn
    flight.returned scope w ++ returnedAll scope rest g after
end

mutual
/-- **A call that will come to what fits**: its probes are going to answer what fits, and its groups
have gathered the answers of the children they do not wait for. -/
def Sound : Flight → Prop
  | fresh _ => True
  | pausing _ _ _ act => act.answer.Fits
  | gathering name names g waiting =>
    Gathers names (gathering name names g waiting) ∧ AllSound waiting
  | debouncing _ _ _ inner => inner.Sound
/-- So do all of several calls. -/
def AllSound : List (String × Flight) → Prop
  | [] => True
  | (_, flight) :: rest => flight.Sound ∧ AllSound rest
end

theorem allSound_fresh (children : List Check) :
    AllSound (children.map fun c => (c.name, fresh c)) := by
  induction children with
  | nil => trivial
  | cons c rest ih => exact ⟨trivial, ih⟩

end Flight

/-- What a call comes to fits, or will. -/
def Turn.Sound : Turn → Prop
  | .still flight => flight.Sound
  | .done o => o.Fits
  | .panicked => True

/-- A call that is cut off fails as is fit, unless it was over. -/
theorem Turn.Sound.cutOff {t : Turn} (sound : t.Sound) (cause : Fault) :
    (t.cutOff (some cause)).Sound := by
  cases t with
  | still flight => exact Outcome.ofFault_fits cause
  | done | panicked => exact sound

theorem Turn.Sound.outcome {t : Turn} (sound : t.Sound) : ∀ o ∈ t.outcome?.toList, o.Fits := by
  cases t with
  | done o => exact fun o' mem => List.mem_singleton.mp mem ▸ sound
  | still | panicked => nofun

namespace World

/-- **What outlives a call fits**: the states of caches, and the successes that debounced checks
remember once their counts are below the budget. -/
structure Upholds (w : World) (plan : Plan) : Prop where
  states : ∀ s, some s ∈ w.states → s.replay.Fits
  successes : ∀ (slot : Nat) (budget : UInt32) (inner : Check),
    plan[slot]? = some (budget, inner) → budget.toNat ≤ (w.debounce slot budget).failures ∨
      (w.debounce slot budget).success.Passing

namespace Upholds

variable {w w' : World} {plan : Plan}

/-- Only states and debounced checks matter. -/
theorem of_same (upholds : w.Upholds plan) (states : w'.states = w.states)
    (debounces : w'.debounces = w.debounces) : w'.Upholds plan where
  states s mem := upholds.states s (states ▸ mem)
  successes slot budget inner here := by
    simp only [debounce, debounces]
    exact upholds.successes slot budget inner here

theorem of_aside (upholds : w.Upholds plan) (aside : w.Aside w') (states : w'.states = w.states) :
    w'.Upholds plan :=
  upholds.of_same states aside.debounces

/-- What a cache serves fits. -/
theorem serve (upholds : w.Upholds plan) {slot : Nat} {c : Cache}
    (cached : w.cache? slot = some c) : c.serve.Fits := by
  unfold Cache.serve
  cases kept : c.state with
  | none => exact Outcome.ofFault_fits _
  | some s => exact upholds.states s (List.mem_map.mpr ⟨c, List.mem_of_getElem? cached, kept⟩)

/-- An outcome that fits may become the state of a cache. -/
theorem statesAfter (upholds : w.Upholds plan) {slot : Nat} {o : Outcome} (fits : o.Fits)
    (states : w'.states = w.statesAfter (some (slot, o))) (debounces : w'.debounces = w.debounces) :
    w'.Upholds plan where
  states s mem := by
    rw [states] at mem
    obtain ⟨i, found⟩ := List.mem_iff_getElem?.mp mem
    rw [World.statesAfter, List.getElem?_modify] at found
    obtain ⟨old, there, new⟩ := Option.map_eq_some_iff.mp found
    by_cases same : slot = i
    · rw [if_pos same] at new
      cases new
      rwa [Snapshot.replay_ofOutcome]
    · rw [if_neg same] at new
      exact upholds.states s (new ▸ List.mem_of_getElem? there)
  successes slot budget inner here := by
    simp only [debounce, debounces]
    exact upholds.successes slot budget inner here

/-- **A debounced check that sees what fits answers what fits**, and goes on to. -/
theorem observe (upholds : w.Upholds plan) {slot : Nat} {budget : UInt32} {inner : Check}
    (here : plan[slot]? = some (budget, inner)) (small : budget.toNat < Debounce.countLimit)
    (name : String) {o : Outcome} (fits : o.Fits) :
    (w.observe slot name budget o).2.Upholds plan ∧ (w.observe slot name budget o).1.Fits := by
  have kept := upholds.successes slot budget inner here
  refine ⟨⟨upholds.states, ?_⟩, ?_⟩
  · intro there budget' inner' found
    by_cases same : slot = there
    · subst same
      rw [here] at found
      cases found
      show _ ≤ ((w.debounces.set slot _)[slot]?.getD (.initial budget)).failures ∨
        ((w.debounces.set slot _)[slot]?.getD (.initial budget)).success.Passing
      rw [List.getElem?_set_self']
      cases w.debounces[slot]? with
      | none => exact .inl (Nat.le_refl _)
      | some d =>
        cases o with
        | ok h => exact .inr fits
        | error f =>
          refine kept.imp_left fun counted => ?_
          show _ ≤ min ((w.debounce slot budget).failures + 1) Debounce.countLimit
          omega
    · show _ ≤ ((w.debounces.set slot _)[there]?.getD (.initial budget')).failures ∨
        ((w.debounces.set slot _)[there]?.getD (.initial budget')).success.Passing
      rw [List.getElem?_set_ne same]
      exact upholds.successes there budget' inner' found
  · cases o with
    | ok h => exact fits
    | error f =>
      simp only [World.observe, Debounce.answer]
      split
      case isFalse => exact fits
      case isTrue hidden =>
        refine kept.resolve_left fun counted => ?_
        have within : min ((w.debounce slot budget).failures + 1) Debounce.countLimit ≤
            budget.toNat := of_decide_eq_true hidden
        omega

end Upholds

end World

/-! ## One step of a call -/

variable {plan : Plan} {makes : List (Check × Nat)} {scope : ScopeId}

namespace World.Upholds

variable {w : World}

/-- A probe that goes on answers what fits, if it does not panic. -/
theorem goOn (upholds : w.Upholds plan) (p : Probe) {a : Answer} (fits : a.Fits)
    (pauses : List Pause) :
    (w.goOn p scope a pauses).2.Upholds plan ∧ (w.goOn p scope a pauses).1.Sound := by
  have completed : (w.completeCall p.id).Upholds plan := upholds.of_same rfl rfl
  induction pauses with
  | nil =>
    cases a with
    | outcome o => exact ⟨completed, fits⟩
    | tally => exact ⟨completed, .inr rfl⟩
    | panic => exact ⟨completed, trivial⟩
    | scope =>
      simp only [World.goOn, World.answer]
      cases (w.completeCall p.id).cause? scope with
      | some cause => exact ⟨completed, Outcome.ofFault_fits cause⟩
      | none => exact ⟨completed, .inl rfl⟩
  | cons pause rest ih =>
    simp only [World.goOn]
    cases (if pause.heeds then w.cause? scope else none) with
    | some cause => exact ⟨upholds, Outcome.ofFault_fits cause⟩
    | none =>
      by_cases unwaited : pause.length = some 0
      · simpa only [if_pos unwaited] using ih
      · simp only [if_neg unwaited]
        exact ⟨upholds, fits⟩

/-- A debounced check answers what fits, if its inner check does. -/
theorem debounced (upholds : w.Upholds plan) {slot : Nat} {budget : UInt32} {d : Check}
    (here : plan[slot]? = some (budget, d)) (small : budget.toNat < Debounce.countLimit) {t : Turn}
    (sound : t.Sound) :
    (w.debounced slot budget d.name t).2.Upholds plan ∧
      (w.debounced slot budget d.name t).1.Sound := by
  cases t with
  | still flight => exact ⟨upholds, sound⟩
  | panicked => exact ⟨upholds, trivial⟩
  | done o => exact upholds.observe here small d.name sound

end World.Upholds

theorem Flight.Gathers.inhabited {names : List String} {f : Flight} (gathers : Gathers names f) :
    names ≠ [] := by
  obtain ⟨given, _, waiting, perm, some⟩ := gathers
  rintro rfl
  have none := List.append_eq_nil_iff.mp perm.eq_nil
  exact some (List.map_eq_nil_iff.mp none.2)

/-- **What a group that waits comes to fits**, whatever its children answered. -/
theorem Flight.Gathers.fits {names : List String} {f : Flight} {w : World} {o : Outcome}
    (distinct : names.Nodup) (gathers : Gathers names f) (came : (f.step scope w).1 = .done o) :
    o.Fits := by
  rcases @Gathers.step scope names f distinct gathers.inhabited gathers w with
    ⟨_, still, -⟩ | ⟨o', came', contract⟩
  · rw [came] at still
    cases still
  · rw [came] at came'
    cases came'
    exact contract.fits

/-- A group that waits stays sound if the children it waits for do. -/
theorem Flight.Gathers.sound {name : String} {names : List String} {g : Gathered}
    {waiting : List (String × Flight)} {w : World} (distinct : names.Nodup)
    (gathers : Gathers names (.gathering name names g waiting))
    (sounds : AllSound (stepAll scope waiting g w).1) :
    ((gathering name names g waiting).step scope w).1.Sound := by
  cases turn : ((gathering name names g waiting).step scope w).1 with
  | done o => exact gathers.fits distinct turn
  | panicked => trivial
  | still next =>
    rcases @Gathers.step scope _ _ distinct gathers.inhabited gathers w with
      ⟨next', still, gathers'⟩ | ⟨o, came, -⟩
    · cases turn.symm.trans still
      simp only [Flight.step] at turn
      cases ended : w.cause? scope with
      | some cause => simp [ended, World.interrupt] at turn
      | none =>
        simp only [ended] at turn
        split at turn <;> cases turn
        exact ⟨gathers', sounds⟩
    · cases turn.symm.trans came

/-- **A call that begins comes to what fits, or will**, and so does every call below it. -/
theorem Check.begin_sound {c : Check} {w : World} (listed : c.Listed makes plan)
    (lawful : c.Lawful) (upholds : w.Upholds plan) :
    (c.begin scope w).2.Upholds plan ∧ (c.begin scope w).1.Sound ∧
      ∀ o ∈ c.returned scope w, o.Fits := by
  -- but for a debounced check, no call below is over with the first step
  have alone (same : c.returned scope w = (c.begin scope w).1.outcome?.toList)
      (kept : (c.begin scope w).2.Upholds plan ∧ (c.begin scope w).1.Sound) :
      (c.begin scope w).2.Upholds plan ∧ (c.begin scope w).1.Sound ∧
        ∀ o ∈ c.returned scope w, o.Fits :=
    ⟨kept.1, kept.2, same ▸ kept.2.outcome⟩
  cases c with
  | fixed name status message =>
    exact alone rfl ⟨upholds, fixedOutcome_fits name status message⟩
  | probe p =>
    have begun : (w.startCall p.id).Upholds plan := upholds.of_same rfl rfl
    exact alone rfl (begun.goOn p (lawful _ (p.act_mem _)) _)
  | group name children =>
    refine alone rfl ?_
    simp only [begin, World.gather]
    by_cases empty : children.isEmpty
    · rw [if_pos empty]
      exact ⟨upholds, .inl rfl⟩
    · rw [if_neg empty]
      have gathers : Flight.Gathers _ (Flight.setOut name children) :=
        Flight.setOut_gathers (by simpa using empty)
      cases ended : w.cause? scope with
      | some cause =>
        refine ⟨upholds.of_same rfl rfl, ?_⟩
        have cut : (Flight.setOut name children).step scope w =
            w.interrupt name (children.map Check.name) {} cause := by
          simp only [Flight.setOut, Flight.step, ended]
        exact gathers.fits lawful.1 (congrArg Prod.fst cut)
      | none => exact ⟨upholds, gathers, Flight.allSound_fresh children⟩
  | cached slot interval inner =>
    refine alone rfl ?_
    simp only [begin]
    cases cached : w.cache? slot with
    | some cache => exact ⟨upholds, upholds.serve cached⟩
    | none => exact ⟨upholds, Outcome.ofFault_fits _⟩
  | debounced slot budget inner =>
    obtain ⟨upholds', sound, fits⟩ :=
      begin_sound (listed.below (.debounced (.self _))) lawful.2 upholds
    have here := listed.debounced slot budget inner (.self _)
    obtain ⟨upholds'', sound'⟩ := upholds'.debounced here lawful.1 sound
    refine ⟨upholds'', sound', fun o mem => ?_⟩
    rcases List.mem_append.mp mem with mem | mem
    · exact fits o mem
    · exact sound'.outcome o mem

namespace Flight

mutual
/-- **One step of a call leaves it sound**, and the calls that it completes come to what fits. -/
theorem step_sound {f : Flight} {c : Check} {w : World} (of : f.Of c) (sound : f.Sound)
    (listed : c.Listed makes plan) (lawful : c.Lawful) (upholds : w.Upholds plan) :
    (f.step scope w).2.Upholds plan ∧ (f.step scope w).1.Sound ∧
      ∀ o ∈ f.returned scope w, o.Fits := by
  cases f with
  | fresh check =>
    cases (of : check = c)
    exact Check.begin_sound listed lawful upholds
  | pausing p wake heeds act =>
    have kept : ((pausing p wake heeds act).step scope w).2.Upholds plan ∧
        ((pausing p wake heeds act).step scope w).1.Sound := by
      simp only [Flight.step]
      cases (if heeds then w.cause? scope else none) with
      | some cause => exact ⟨upholds, Outcome.ofFault_fits cause⟩
      | none =>
        by_cases due : wake.any (· ≤ w.now)
        · simpa only [if_pos due] using upholds.goOn p sound act.pauses
        · simp only [if_neg due]
          exact ⟨upholds, sound⟩
    exact ⟨kept.1, kept.2, kept.2.outcome⟩
  | gathering name names g waiting =>
    obtain ⟨children, rfl, rfl, all⟩ := of
    obtain ⟨gathers, sounds⟩ := sound
    have known : ∀ d ∈ children, d.Listed makes plan ∧ d.Lawful := fun d mem =>
      ⟨listed.below (.child mem (.self _)), lawful.2.of_mem mem⟩
    obtain ⟨upholds', sounds', fits⟩ := stepAll_sound all sounds known upholds g
    have sound := gathers.sound lawful.1 sounds'
    refine ⟨?_, sound, fun o mem => ?_⟩
    · simp only [Flight.step]
      cases w.cause? scope with
      | some cause => exact upholds.of_same rfl rfl
      | none =>
        simp only
        split <;> exact upholds'
    · rcases List.mem_append.mp mem with mem | mem
      · split at mem
        · cases mem
        · exact fits o mem
      · exact sound.outcome o mem
  | debouncing slot budget name inner =>
    obtain ⟨d, rfl, rfl, of⟩ := of
    have has : (Check.debounced slot budget d).Has d := .debounced (.self _)
    obtain ⟨upholds', sound', fits⟩ := step_sound of sound (listed.below has) lawful.2 upholds
    have here := listed.debounced slot budget d (.self _)
    obtain ⟨upholds'', sound''⟩ := upholds'.debounced here lawful.1 sound'
    refine ⟨upholds'', sound'', fun o mem => ?_⟩
    rcases List.mem_append.mp mem with mem | mem
    · exact fits o mem
    · exact sound''.outcome o mem
theorem stepAll_sound {waiting : List (String × Flight)} {children : List Check} {w : World}
    (all : AllOf waiting children) (sounds : AllSound waiting)
    (known : ∀ c ∈ children, c.Listed makes plan ∧ c.Lawful) (upholds : w.Upholds plan)
    (g : Gathered) :
    (stepAll scope waiting g w).2.2.Upholds plan ∧ AllSound (stepAll scope waiting g w).1 ∧
      ∀ o ∈ returnedAll scope waiting g w, o.Fits := by
  cases waiting with
  | nil => exact ⟨upholds, trivial, nofun⟩
  | cons child rest =>
    obtain ⟨name, flight⟩ := child
    obtain ⟨⟨c, mem, -, of⟩, all⟩ := all
    obtain ⟨listed, lawful⟩ := known c mem
    obtain ⟨upholds', sound, fits⟩ := step_sound of sounds.1 listed lawful upholds
    rcases taken : flight.step scope w with ⟨turn, w₁⟩
    rw [taken] at upholds' sound
    simp only [stepAll, returnedAll, taken]
    -- whatever becomes of the first child, the others go on in a world that upholds as much
    have others {w₂ : World} (g : Gathered) (after : w₂.Upholds plan) :=
      stepAll_sound all sounds.2 known after g
    have both (g : Gathered) (w₂ : World) (fits' : ∀ o ∈ returnedAll scope rest g w₂, o.Fits) :
        ∀ o ∈ flight.returned scope w ++ returnedAll scope rest g w₂, o.Fits :=
      fun o mem => (List.mem_append.mp mem).elim (fits o) (fits' o)
    cases turn with
    | still next =>
      obtain ⟨upholds'', sounds', fits'⟩ := others g upholds'
      exact ⟨upholds'', ⟨sound, sounds'⟩, both g w₁ fits'⟩
    | done o =>
      obtain ⟨upholds'', sounds', fits'⟩ := others (g.add name o)
        (upholds'.of_same rfl rfl : (w₁.tell (Gathered.eventsOf name o)).Upholds plan)
      exact ⟨upholds'', sounds', both _ _ fits'⟩
    | panicked =>
      obtain ⟨upholds'', sounds', fits'⟩ := others (g.add name (.error (.ofFault (.panicked name))))
        (upholds'.of_same rfl rfl : (w₁.tell (.childPanicked name ::
          Gathered.eventsOf name (.error (.ofFault (.panicked name))))).Upholds plan)
      exact ⟨upholds'', sounds', both _ _ fits'⟩
end

end Flight

/-! ## One step of a job -/

namespace World.Upholds

variable {w : World} {slot : Nat} {c : Cache} {limit : ScopeId} {purpose : Purpose}

/-- Nothing is committed but what the inner check came to. -/
theorem refreshTurn (upholds : w.Upholds plan) {t : Turn} (sound : t.Sound) :
    (w.refreshTurn slot c scope purpose limit t).2.2.Upholds plan := by
  have aside := w.refreshTurn_aside slot c scope limit purpose t
  cases t with
  | still flight => exact upholds
  | panicked => exact upholds.of_aside aside (states_unlock w slot)
  | done o =>
    have states : (w.refreshTurn slot c scope purpose limit (.done o)).2.2.states =
        w.statesAfter (if (w.cause? scope).isSome then none else some (slot, o)) :=
      finishRefresh_states o
    cases ended : w.cause? scope with
    | some cause =>
      rw [ended] at states
      exact upholds.of_aside aside states
    | none =>
      rw [ended] at states
      exact upholds.statesAfter sound states aside.debounces

end World.Upholds

namespace Flight

/-- The outcome of a call is among those of the calls that its step completes. -/
theorem done_returned {f : Flight} {w : World} {o : Outcome}
    (came : (f.step scope w).1 = .done o) : o ∈ f.returned scope w := by
  have own : o ∈ (f.step scope w).1.outcome?.toList := came ▸ List.mem_singleton.mpr rfl
  cases f with
  | pausing => exact own
  | gathering | debouncing => exact List.mem_append_right _ own
  | fresh check =>
    cases check with
    | debounced => exact List.mem_append_right _ own
    | _ => exact own

end Flight

namespace Job

variable {id : JobId} {w : World} {job : Job}

/-- **The outcomes of all calls that a step of a job completes.** -/
def returned (id : JobId) (w : World) (job : Job) : List Outcome :=
  match job.inside id w with
  | some (scope, flight, w) => flight.returned scope w
  | none => []

/-- What a call answers is among the outcomes of the calls that its last step completes. -/
theorem answered_returned {name : String} {o : Outcome}
    (came : (job.step id w).1 = .finished (.answered name o)) : o ∈ job.returned id w := by
  cases job with
  | call called scope flight =>
    simp only [Job.step] at came
    cases turn : (flight.step scope w).1 with
    | done o' =>
      rw [turn] at came
      cases came
      exact Flight.done_returned turn
    | still | panicked =>
      rw [turn] at came
      cases came
  | refresh slot scope purpose phase =>
    -- a refresh tells of its fault at most
    have concluded (w : World) (c : Cache) (fault : Option Fault) :
        (w.conclude slot c scope fault purpose).1 ≠ .finished (.answered name o) := by
      intro came
      cases purpose with
      | force | tick => cases came
      | start rest => cases rest <;> cases came
    simp only [Job.step] at came
    cases cached : w.cache? slot with
    | none => simp [cached] at came
    | some c =>
      simp only [cached, World.stepRefresh_eq] at came
      cases attempted : w.attempt id slot c scope phase with
      | refused cause w₁ =>
        rw [attempted] at came
        exact absurd came (concluded w₁ c _)
      | waits w₁ => simp [attempted] at came
      | calls limit flight w₁ =>
        simp only [attempted, World.goOnRefresh_eq] at came
        cases turn : (w₁.callInner limit flight).1 with
        | still next => simp [turn, World.refreshTurn] at came
        | panicked => cases purpose <;> simp [turn, World.refreshTurn] at came
        | done o' =>
          simp only [turn, World.refreshTurn, World.finishRefresh] at came
          split at came <;> exact absurd came (concluded _ c _)
  | loop slot scope =>
    simp only [Job.step, World.stepLoop] at came
    split at came
    · split at came
      · cases came
      · split at came <;> cases came
    · cases came
  | work | watch =>
    simp only [Job.step] at came
    split at came
    · cases came
    · split at came <;> cases came
  | sleep =>
    simp only [Job.step] at came
    split at came <;> cases came

/-- What comes before a call leaves what outlives calls as it was. -/
theorem inside_upholds {flight : Flight} {w₁ : World} (upholds : w.Upholds plan)
    (inside : job.inside id w = some (scope, flight, w₁)) : w₁.Upholds plan := by
  cases job with
  | call =>
    cases inside
    exact upholds
  | refresh slot scope' purpose phase =>
    obtain ⟨c, -, inside⟩ := Option.bind_eq_some_iff.mp inside
    have before := w.attempt_aside id slot c scope' phase
    have states := w.attempt_states id slot c scope' phase
    cases attempted : w.attempt id slot c scope' phase with
    | refused | waits => simp [attempted] at inside
    | calls limit flight' w₂ =>
      simp only [attempted] at inside before states
      split at inside <;> cases inside
      exact upholds.of_aside before states
  | _ => cases inside

/-- **A step of a job upholds what outlives calls**, if the call it goes on with does. -/
theorem step_upholds (upholds : w.Upholds plan)
    (calls : ∀ scope flight w₁, job.inside id w = some (scope, flight, w₁) →
      (flight.step scope w₁).2.Upholds plan ∧ (flight.step scope w₁).1.Sound) :
    (job.step id w).2.2.Upholds plan := by
  cases job with
  | call name scope flight => exact (calls scope flight w rfl).1
  | refresh slot scope purpose phase =>
    simp only [Job.step]
    simp only [inside] at calls
    cases cached : w.cache? slot with
    | none => exact upholds
    | some c =>
      have before := w.attempt_aside id slot c scope phase
      have states := w.attempt_states id slot c scope phase
      simp only [cached, Option.bind_some] at calls
      simp only [World.stepRefresh_eq]
      cases attempted : w.attempt id slot c scope phase with
      | refused cause w₁ =>
        rw [attempted] at before states
        exact (upholds.of_aside before states).of_aside (w₁.conclude_aside slot c scope purpose _)
          (w₁.conclude_states ..)
      | waits w₁ =>
        rw [attempted] at before states
        exact upholds.of_aside before states
      | calls limit flight w₁ =>
        rw [attempted] at before states
        simp only [attempted] at calls
        simp only [World.goOnRefresh_eq]
        have stepped (goes : w₁.goesOn limit flight = true) := calls limit flight w₁ (if_pos goes)
        have cases := w₁.callInner_cases limit flight
        generalize w₁.callInner limit flight = r at cases ⊢
        cases cases with
        | steps live =>
          obtain ⟨upholds', sound⟩ := stepped (by simp [World.goesOn, live])
          exact upholds'.refreshTurn sound
        | lastTurn ended grace begun =>
          obtain ⟨upholds', sound⟩ := stepped (by simp [World.goesOn, grace, begun])
          exact upholds'.refreshTurn (sound.cutOff _)
        | @cut cause =>
          exact (upholds.of_aside before states).refreshTurn (Outcome.ofFault_fits cause)
  | loop slot scope =>
    simp only [Job.step]
    cases w.cache? slot with
    | none => exact upholds
    | some c => exact upholds.of_aside (w.stepLoop_aside slot c scope) (w.stepLoop_states ..)
  | work | watch | sleep => exact upholds

end Job

/-! ## Every state of every run -/

/-- **A machine upholds the contract**: its caches and calls are those of lawful checks, what
outlives calls fits, and every call under way is sound. -/
structure Machine.Upholds (makes : List (Check × Nat)) (plan : Plan) (m : Machine) : Prop where
  same : m.world.makes = makes
  caches : ∀ make ∈ makes, make.1.Listed makes plan ∧ make.1.Lawful
  world : m.world.Upholds plan
  flights : ∀ p ∈ m.jobs, ∀ flight, p.2.flight? = some flight →
    (∃ c, flight.Of c ∧ c.Listed makes plan ∧ c.Lawful) ∧ flight.Sound

namespace Machine.Upholds

variable {m : Machine}

/-- The call that a step of a job goes on with is a sound call of a lawful check. -/
theorem inside (upholds : m.Upholds makes plan) {id : JobId} {job : Job}
    (mem : (id, job) ∈ m.jobs) {flight : Flight} {w₁ : World}
    (inside : job.inside id m.world = some (scope, flight, w₁)) :
    (∃ c, flight.Of c ∧ c.Listed makes plan ∧ c.Lawful) ∧ flight.Sound := by
  rcases Job.inside_call inside with under | ⟨slot, c, cached, rfl⟩
  · exact upholds.flights _ mem flight under
  · refine ⟨⟨c.inner, rfl, upholds.caches c.make ?_⟩, trivial⟩
    rw [← upholds.same]
    exact List.mem_map_of_mem (List.mem_of_getElem? cached)

/-- **A step of a call goes on as it should.** -/
theorem stepped (upholds : m.Upholds makes plan) {id : JobId} {job : Job}
    (mem : (id, job) ∈ m.jobs) {flight : Flight} {w₁ : World}
    (made : job.inside id m.world = some (scope, flight, w₁)) :
    (flight.step scope w₁).2.Upholds plan ∧ (flight.step scope w₁).1.Sound ∧
      ∀ o ∈ flight.returned scope w₁, o.Fits := by
  obtain ⟨⟨c, of, listed, lawful⟩, sound⟩ := upholds.inside mem made
  exact Flight.step_sound of sound listed lawful (Job.inside_upholds upholds.world made)

/-- The calls that a step of a job completes come to what fits. -/
theorem returned (upholds : m.Upholds makes plan) {id : JobId} {job : Job}
    (mem : (id, job) ∈ m.jobs) : ∀ o ∈ job.returned id m.world, o.Fits := by
  unfold Job.returned
  cases made : job.inside id m.world with
  | none => nofun
  | some p => exact (upholds.stepped mem made).2.2

/-- **A step of a job upholds the contract.** -/
theorem takeTurn (upholds : m.Upholds makes plan) (i : Nat) :
    (m.takeTurn i).Upholds makes plan := by
  refine ⟨(m.takeTurn_later i).makes.trans upholds.same, upholds.caches, ?_, ?_⟩
  · unfold Machine.takeTurn
    cases found : m.jobs[i]? with
    | none => exact upholds.world
    | some p =>
      refine Job.step_upholds upholds.world fun scope flight w₁ made => ?_
      obtain ⟨upholds', sound, -⟩ := upholds.stepped (List.mem_of_getElem? found) made
      exact ⟨upholds', sound⟩
  · intro p listed flight flies
    rcases Machine.flight_after_turn listed flies with old | ⟨q, mem, scope, before, w₁, made, still⟩
    · exact upholds.flights p old flight flies
    · obtain ⟨⟨c, of, known⟩, -⟩ := upholds.inside mem made
      have of' := Flight.step_of scope of w₁
      have sound := (upholds.stepped mem made).2.1
      rw [still] at of' sound
      exact ⟨⟨c, of', known⟩, sound⟩

/-- **What a command changes upholds the contract**, if the checks that it can name are lawful. -/
theorem touch {p p' : Machine × List ScopeId} (upholds : p.1.Upholds makes plan)
    (touch : Touch (fun c => c.Listed makes plan ∧ c.Lawful) p p') :
    p'.1.Upholds makes plan := by
  have kept := touch.kept
  refine ⟨kept.makes.trans upholds.same, upholds.caches,
    upholds.world.of_same kept.states kept.debounces, ?_⟩
  cases touch with
  | stop m held slot =>
    simp only [Machine.stop]
    split <;> exact upholds.flights
  | abort m held id =>
    simp only [Machine.abort]
    split
    · exact fun p mem => upholds.flights p (List.mem_filter.mp mem).1
    · exact upholds.flights
  | submit m asked =>
    intro p mem flight flies
    rcases List.mem_append.mp mem with mem | mem
    · exact upholds.flights p mem flight flies
    · cases List.mem_singleton.mp mem
      cases asked with
      | call handed is =>
        cases flies
        exact ⟨⟨_, rfl, is⟩, trivial⟩
      | _ => cases flies
  | _ => exact upholds.flights

end Machine.Upholds

namespace CheckTree.Planned

variable {t : CheckTree}

/-- What a session knows by name at first are checks of the tree, so they are lawful if it is. -/
theorem within_lawful {b : Blueprint} (built : ofBlueprint? b = some t) (planned : t.Planned plan)
    (lawful : t.root.Lawful) (before : List Event) :
    let s := Scenario.Session.ofTree (some t) before
    s.Within (fun c => c.Listed (t.caches.map Cache.make) plan ∧ c.Lawful) [s.shutdown] := by
  obtain ⟨caches, labels⟩ := nodes_ofBlueprint built
  have within := planned.within before
  refine ⟨within.shutdown, within.scopes, ?_, ?_, ?_⟩
  · intro c found
    cases found
    exact ⟨planned.root, lawful⟩
  · intro label c found
    exact ⟨within.labels label c found, lawful.below (labels label c found)⟩
  · intro slot make found
    refine ⟨within.caches slot make found, ?_⟩
    obtain ⟨c, there, rfl⟩ := Option.map_eq_some_iff.mp (List.getElem?_map ▸ found)
    exact lawful.below (caches slot c there)

/-- A session begins with nothing kept but budgets. -/
theorem upholds {b : Blueprint} (built : ofBlueprint? b = some t) (planned : t.Planned plan)
    (lawful : t.root.Lawful) (before : List Event) :
    (Scenario.Session.ofTree (some t) before).machine.Upholds (t.caches.map Cache.make) plan where
  same := rfl
  caches make mem := by
    obtain ⟨c, there, rfl⟩ := List.mem_map.mp mem
    obtain ⟨k, found⟩ := List.mem_iff_getElem?.mp there
    have lawful' := lawful.below ((nodes_ofBlueprint built).1 k c found)
    exact ⟨planned.assembled.caches c there, lawful'⟩
  world := by
    refine ⟨fun s mem => ?_, fun slot budget inner here => ?_⟩
    · obtain ⟨c, there, state⟩ := List.mem_map.mp mem
      rw [planned.assembled.empty c there] at state
      cases state
    · left
      show budget.toNat ≤ ((t.debounces[slot]?).getD (.initial budget)).failures
      rw [show t.debounces = plan.map fun p => .initial p.1 from planned.assembled.debounces,
        List.getElem?_map, here]
      exact Nat.le_refl _
  flights := nofun

end CheckTree.Planned

namespace Scenario.Session

/-- The outcomes of the calls that a move completes. -/
def returnedBy (s : Session) : Move → List Outcome
  | .turn i =>
    match s.machine.jobs[i]? with
    | some (id, job) => job.returned id s.machine.world
    | none => []
  | .begin _ | .aside _ _ | .pass _ | .grace _ => []

/-- **The outcomes of all calls that a run completes**, calls below calls included, in their
order. -/
def returned : Session → List Move → List Outcome
  | _, [] => []
  | s, next :: rest => s.returnedBy next ++ returned (s.move next) rest

variable {s : Session} {known : Check → Prop} {held : List ScopeId}

/-- What a command changes makes no answer of a call. -/
private theorem touch_answered {p p' : Machine × List ScopeId} (touch : Machine.Touch known p p')
    {id : JobId} {time : Nat} {name : String} {o : Outcome}
    (came : (id, time, .answered name o) ∈ p'.1.finished) :
    (id, time, .answered name o) ∈ p.1.finished := by
  cases touch with
  | stop m held slot =>
    simp only [Machine.stop] at came
    split at came <;> exact came
  | abort m held aborted =>
    simp only [Machine.abort] at came
    split at came
    · rcases List.mem_cons.mp came with same | old
      · cases same
      · exact old
    · exact came
  | _ => exact came

/-- **What a move answers to a command** is the outcome of a call that it completes. -/
theorem move_answered (within : s.Within known held) (next : Move) {id : JobId} {time : Nat}
    {name : String} {o : Outcome}
    (came : (id, time, .answered name o) ∈ (s.move next).machine.finished) :
    (id, time, .answered name o) ∈ s.machine.finished ∨ o ∈ s.returnedBy next := by
  have touches {s' : Session} (touched : ∃ held', s.Touched known held s' held')
      (came : (id, time, .answered name o) ∈ s'.machine.finished) :
      (id, time, .answered name o) ∈ s.machine.finished := by
    obtain ⟨held', touches, -⟩ := touched
    exact touches.keep (I := fun q => (id, time, Reply.answered name o) ∈ q.1.finished →
      (id, time, Reply.answered name o) ∈ s.machine.finished)
      (fun touch kept came => kept (touch_answered touch came)) (fun came => came) came
  cases next with
  | begin c => exact .inl (touches (begin_touches within c) came)
  | aside other c => exact .inl (touches (setAside_touches within other c) came)
  | pass | grace => exact .inl came
  | turn i =>
    simp only [move, Machine.takeTurn] at came
    simp only [returnedBy]
    cases found : s.machine.jobs[i]? with
    | none =>
      rw [found] at came
      exact .inl came
    | some p =>
      obtain ⟨called, job⟩ := p
      rw [found] at came
      rcases List.mem_append.mp came with new | old
      · cases turn : (job.step called s.machine.world).1 with
        | going | gone =>
          rw [turn] at new
          cases new
        | finished r =>
          rw [turn] at new
          cases List.mem_singleton.mp new
          exact .inr (Job.answered_returned turn)
      · exact .inl old

/-- **A run that upholds the contract completes no call with an outcome that does not fit.** -/
theorem moves_uphold (within : s.Within (fun c => c.Listed makes plan ∧ c.Lawful) held)
    (upholds : s.machine.Upholds makes plan) (run : List Move) :
    (∀ o ∈ s.returned run, o.Fits) ∧
      (∀ id time name o, (id, time, .answered name o) ∈ (s.moves run).machine.finished →
        (id, time, .answered name o) ∈ s.machine.finished ∨ o ∈ s.returned run) ∧
      (s.moves run).machine.Upholds makes plan := by
  induction run generalizing s held with
  | nil => exact ⟨nofun, fun _ _ _ _ came => .inl came, upholds⟩
  | cons next rest ih =>
    have fits : ∀ o ∈ s.returnedBy next, o.Fits := by
      cases next with
      | begin | aside | pass | grace => nofun
      | turn i =>
        simp only [returnedBy]
        cases found : s.machine.jobs[i]? with
        | none => nofun
        | some p => exact upholds.returned (List.mem_of_getElem? found)
    obtain ⟨held', within', upholds'⟩ := move_keep (I := fun p => p.1.Upholds makes plan)
      (fun touch upholds => upholds.touch touch) (fun _ _ i upholds => upholds.takeTurn i)
      (fun _ _ _ _ upholds => ⟨upholds.same, upholds.caches, upholds.world.of_same rfl rfl,
        upholds.flights⟩) within upholds next
    obtain ⟨fits', answered, upheld⟩ := ih within' upholds'
    refine ⟨fun o mem => (List.mem_append.mp mem).elim (fits o) (fits' o), ?_, upheld⟩
    intro id time name o came
    rcases answered id time name o came with before | later
    · exact (move_answered within next before).imp_right (List.mem_append_left _)
    · exact .inr (List.mem_append_right _ later)

open CheckTree (ofBlueprint?)

/-- **The contract of every check of a lawful tree.** Over every run, every call that is completed,
of any node and at any depth, passes with a status that is healthy or degraded, or fails with one
that is unhealthy-class; the answers to commands are among these, and every cache would keep the
contract if it were asked now. -/
theorem outcomes_fit {b : Blueprint} {t : CheckTree} (built : ofBlueprint? b = some t)
    (lawful : t.root.Lawful) (before : List Event) (run : List Move) :
    let s := ofTree (some t) before
    (∀ o ∈ s.returned run, o.Fits) ∧
      (∀ id time name o, (id, time, .answered name o) ∈ (s.moves run).machine.finished →
        o ∈ s.returned run) ∧
      ∀ slot c, (s.moves run).machine.world.cache? slot = some c → c.serve.Fits := by
  intro s
  obtain ⟨plan, planned⟩ := CheckTree.planned_ofBlueprint built
  obtain ⟨fits, answered, upheld⟩ := moves_uphold (planned.within_lawful built lawful before)
    (planned.upholds built lawful before) run
  refine ⟨fits, ?_, fun slot c cached => upheld.world.serve cached⟩
  intro id time name o came
  exact (answered id time name o came).resolve_left nofun

/-- A cached group of a debounced probe and a degraded leaf. It is asked before its first refresh,
refreshed while the probe panics, then passes, then fails and is hidden, and asked again: the
outcomes of all these calls, and that they fit. -/
theorem outcomes_fit_nested :
    let p : Probe := ⟨"p", "p", ⟨[], .panic⟩, [⟨[], .outcome (.ok .healthy)⟩,
      ⟨[], .outcome (.error (.ofFault (.probe "down")))⟩]⟩
    let b : Blueprint := .cached 10
      (.group "g" [.debounced 1 (.probe p), .fixed "f" .degraded "slow"])
    let refresh : List Move := [.begin (.force 0 {}), .turn 0, .turn 0]
    let ask : List Move := [.begin (.check .root {}), .turn 0]
    ∃ t, ofBlueprint? b = some t ∧
      let returned := (ofTree (some t) []).returned (ask ++ refresh ++ refresh ++ refresh ++ ask)
      returned.map (fun o => (o.isOk, o.health.status)) =
        [(false, some .unhealthy),
          (true, some .degraded), (false, some .partiallyUnhealthy),
          (true, some .healthy), (true, some .healthy), (true, some .degraded),
          (true, some .degraded),
          (false, some .unhealthy), (true, some .healthy), (true, some .degraded),
          (true, some .degraded),
          (true, some .degraded)] ∧
      ∀ o ∈ returned, o.Fits := by
  intro p b refresh ask
  refine ⟨_, rfl, by decide +kernel, ?_⟩
  have leaf : (Check.probe p).Lawful := by
    simp [Check.Lawful, p, Answer.Fits, Outcome.Fits, Health.Passing, Health.Failing,
      Health.healthy, Failure.ofFault, Health.unhealthy, Health.leaf]
  exact (outcomes_fit (b := b) rfl ⟨by decide, ⟨by decide, leaf⟩, trivial, trivial⟩ [] _).1

end Scenario.Session

end HealthTree
