import HealthTree.Proofs.Durations
import HealthTree.Proofs.Nesting

/-!
# What is run under a scope ends with it

A scope is looked at in three ways: somebody asks why it has ended (`World.cause?`), waits for its
end (`Job.watch`), or has something run until then. What is run is work, a group that waits for its
children, the call of an inner check under its limit, or a forced refresh as a whole, which may
stand in a line for its lock (`Job.Runs`). Each of them looks at the scope and goes on only while it
is live. But the call of an inner check that is under way may have its turn first when the scope
ends.

**They agree on the instant and on the cause.** Once the scope has ended, what is run under it is
over with its next step (`Runs.ends`). It is broken off for the cause for which the scope has ended,
unless the inner check comes to something in the turn that it has left: then this is its own
instant, or it heeds the scope by itself. Where no turn is left nothing goes on inside by the step
(`Runs.idle`). While the scope is live a step keeps the instant at which it is over by itself
(`Runs.step`), and so does time (`Runs.pass`), which does not pass the deadline since what is run
wakes then. So over a patient run it is over by itself at its own instant, or broken off at the one
at which the scope ends, whichever comes first (`Regular.fares`).

The cause is the same for all who look if the scope is not cancelled just when its deadline comes
(`Session.Untied`): a cancellation is told before a deadline, so who looks a moment later would be
told another cause.
-/

namespace HealthTree

/-! ## Two ways to be over -/

/-- **It was broken off** for this cause: a wait, work and a refresh give it as it is, and a group
with what it says of its children. -/
def Reply.BreaksOff (cause : Fault) : Reply → Prop
  | .ended cut | .worked cut | .refreshed cut => cut = some cause
  | .answered _ o => ∃ health failed total, o = .error ⟨health, .aggregate failed total cause⟩
  | .callPanicked _ | .started | .refreshPanicked | .slept | .aborted => False

/-- **It came to its end by itself**: a wait was given up, work is done, a group has an answer, and
a refresh the outcome of its inner check. -/
def Reply.Completes : Reply → Prop
  | .ended cut | .worked cut => cut = none
  | .answered _ _ | .refreshed _ | .refreshPanicked => True
  | .callPanicked _ | .started | .slept | .aborted => False

/-- **What is run under a scope**, the instant at which it is over if left to itself, where that is
told, and whether it heeds the scope by itself: a wait that is given up then, work that is done
then, a group that has its answer then, and the call of an inner check under its limit, which may
heed that. A refresh as a whole is run under the scope it was asked under, however far it has come.
-/
inductive Job.Runs (delay : Probe → Nat) (w : World) (scope : ScopeId) :
    Option Nat → Bool → Job → Prop
  | watch {wake : Nat} (ahead : w.now ≤ wake) :
    Runs delay w scope (some wake) false (.watch scope wake)
  | work {wake : Nat} (ahead : w.now ≤ wake) :
    Runs delay w scope (some wake) false (.work scope wake)
  | group {f : Option Nat} {name : String} {flight : Flight} (grouped : flight.Grouped)
    (due : ∀ e, f = some e → flight.AnswersAt delay w.now e) :
    Runs delay w scope f false (.call name scope flight)
  | inner {f : Option Nat} {heeds : Bool} {slot : Nat} {under : ScopeId} {flight : Flight}
    (cached : (w.cache? slot).isSome) (due : ∀ e, f = some e → flight.AnswersAt delay w.now e)
    (free : heeds = false → flight.heedless = true) :
    Runs delay w scope f heeds (.refresh slot under .force (.calling scope flight))
  | refresh {slot : Nat} {phase : Phase} (cached : (w.cache? slot).isSome) :
    Runs delay w scope none false (.refresh slot scope .force phase)

/-- A call that is under way in the job may get one more turn when its scope has ended. -/
def Job.turnLeft (w : World) : Job → Bool
  | .refresh _ _ _ (.calling _ flight) => w.grace && flight.begun
  | .refresh _ _ _ .arriving | .refresh _ _ _ .queued | .refresh _ _ _ .granted => false
  | .call _ _ _ | .loop _ _ | .work _ _ | .watch _ _ | .sleep _ => false

/-- What a step of a job that is run comes to: it is run on, or over by itself now. -/
def JobTurn.Runs (delay : Probe → Nat) (w : World) (scope : ScopeId) (f : Option Nat)
    (heeds : Bool) : JobTurn → Prop
  | .going job => job.Runs delay w scope f heeds
  | .finished r => r.Completes ∧ ∀ e, f = some e → e = w.now
  | .gone => False

variable {delay : Probe → Nat} {w w' : World} {id : JobId} {job : Job} {scope : ScopeId}
  {f : Option Nat} {heeds : Bool} {slot : Nat} {c : Cache} {cause : Fault}

/-! ## Scopes and their limits -/

namespace Scopes

variable {s : Scopes} {now : Nat} {limit : ScopeId} {above : Fault}

/-- A scope that was not cancelled ends with its deadline. -/
theorem cause_of_uncancelled (uncancelled : s.isCancelled scope = false)
    (ended : s.cause? now scope = some cause) : cause = .deadlineExceeded := by
  unfold cause? at ended
  rw [uncancelled, if_neg Bool.false_ne_true] at ended
  split at ended
  · split at ended <;> cases ended
    rfl
  · cases ended

/-- **A limit ends for the cause for which the scope has that it comes from**, if that has ended. -/
theorem Below.cause_eq (below : s.Below scope limit) (nested : s.Nested)
    (ended : s.cause? now limit = some cause) (isOver : s.cause? now scope = some above) :
    above = cause := by
  obtain ⟨n, found, parent⟩ := below.comes
  have comes : s.parent? limit = some scope := by rw [parent?, found]; exact parent
  cases cancelled : s.isCancelled scope with
  | true =>
    have cancelled' := nested.cancelled scope limit comes cancelled
    unfold cause? at ended isOver
    rw [if_pos cancelled'] at ended
    rw [if_pos cancelled] at isOver
    exact Option.some.inj (isOver.symm.trans ended)
  | false =>
    have uncancelled : s.isCancelled limit = false :=
      Bool.eq_false_iff.mpr fun isCancelled => by simp [below.cancelled isCancelled] at cancelled
    rw [cause_of_uncancelled cancelled isOver, cause_of_uncancelled uncancelled ended]

end Scopes

/-! ## Steps under a scope that has ended -/

/-- **A group whose scope has ended is interrupted**, for the cause for which it has. -/
theorem Flight.Grouped.interrupted {flight : Flight} (grouped : flight.Grouped)
    (ended : w.cause? scope = some cause) :
    ∃ name names g, flight.step scope w = w.interrupt name names g cause := by
  cases flight with
  | pausing | debouncing => exact grouped.elim
  | fresh check =>
    cases check with
    | fixed | probe | cached | debounced => exact grouped.elim
    | group name children =>
      have some : ¬ children.isEmpty = true := fun none => grouped (List.isEmpty_iff.mp none)
      simp only [Flight.step, Check.begin, World.gather, if_neg some, ended]
      exact ⟨_, _, _, rfl⟩
  | gathering name names g waiting =>
    simp only [Flight.step, ended]
    exact ⟨_, _, _, rfl⟩

/-- A forced refresh comes to the cause for which its scope has ended, and if it has not, to the
fault of the outcome. -/
theorem World.finishRefresh_force {o : Outcome} : (w.finishRefresh slot c scope .force o).1 =
    .finished (.refreshed ((w.cause? scope).or o.fault?)) := by
  unfold finishRefresh
  cases w.cause? scope <;> rfl

/-- **A refresh is over once the scope of its call has ended.** It comes to the cause of that,
unless the call has one more turn and comes to something by it. -/
theorem World.goOnRefresh_ends (slot : Nat) (c : Cache) (under : ScopeId) (flight : Flight)
    (ended : w.cause? scope = some cause) :
    ∃ r, (w.goOnRefresh slot c under .force scope flight).1 = .finished r ∧
      (r = .refreshed ((w.cause? under).or (some cause)) ∨
        w.goesOn scope flight = true ∧ (∀ next, (flight.step scope w).1 ≠ .still next) ∧
          r.Completes) := by
  have cases := w.callInner_cases scope flight
  rw [goOnRefresh_eq]
  generalize w.callInner scope flight = called at cases ⊢
  cases cases with
  | steps live => cases live.symm.trans ended
  | cut ended' =>
    cases ended.symm.trans ended'
    exact ⟨_, finishRefresh_force, .inl rfl⟩
  | lastTurn ended' grace begun =>
    cases ended.symm.trans ended'
    have goes : w.goesOn scope flight = true := by simp [goesOn, grace, begun]
    cases turn : (flight.step scope w).1 with
    | still next =>
      refine ⟨_, finishRefresh_force, .inl ?_⟩
      rw [Flight.step_cause?]
      rfl
    | done o => exact ⟨_, finishRefresh_force, .inr ⟨goes, by simp, trivial⟩⟩
    | panicked => exact ⟨_, rfl, .inr ⟨goes, by simp, trivial⟩⟩

namespace Job

/-- A step that goes on with no call does nothing but what is done aside. -/
theorem step_aside (idle : job.inside id w = none) : w.Aside (job.step id w).2.2 := by
  obtain ⟨w₁, before, after⟩ := step_deeds id w job
  rw [deeds, idle] at after
  exact before.trans after

/-- The step of a refresh that has called its inner check. -/
theorem step_calling {under : ScopeId} {flight : Flight} (cached : w.cache? slot = some c) :
    (refresh slot under .force (.calling scope flight)).step id w =
      w.goOnRefresh slot c under .force scope flight := by
  simp only [step, cached, World.stepRefresh]

variable {jobs : List (JobId × Job)} {held : List ScopeId}

/-- **A refresh is over once its scope has ended**, however far it has come. Only a panic is told
instead of the cause. -/
theorem refresh_ends (nested : w.scopes.Nested) (sheltered : w.Sheltered jobs held) {phase : Phase}
    (cached : w.cache? slot = some c) (mem : (id, .refresh slot scope .force phase) ∈ jobs)
    (ended : w.cause? scope = some cause) :
    ∃ r, ((refresh slot scope .force phase).step id w).1 = .finished r ∧
      (r.BreaksOff cause ∨ (refresh slot scope .force phase).turnLeft w = true ∧ r.Completes) := by
  have isOver : w.cause? scope ≠ none := by simp [ended]
  have known := sheltered.scopes _ mem scope rfl
  have later := (w.attempt_aside id slot c scope phase).toLater
  simp only [step, cached, World.stepRefresh_eq]
  cases attempted : w.attempt id slot c scope phase with
  | refused cause' w₁ =>
    obtain ⟨-, ended'⟩ := World.attempt_refused attempted
    cases ended.symm.trans ended'
    exact ⟨_, rfl, .inl rfl⟩
  | waits w₁ => exact absurd (World.live_of_waits attempted) isOver
  | calls limit flight w₁ =>
    rw [attempted] at later
    have later : w.Later w₁ := later
    have ended' : w₁.cause? scope = some cause := (later.cause? known).trans ended
    obtain ⟨above, limited⟩ :=
      Option.ne_none_iff_exists'.mp (sheltered.limit_ended nested mem isOver attempted)
    obtain ⟨r, finishes, cut | ⟨goes, -, completes⟩⟩ :=
      World.goOnRefresh_ends slot c scope flight limited
    · rw [ended', Option.some_or] at cut
      exact ⟨r, finishes, .inl (cut ▸ rfl)⟩
    · refine ⟨r, finishes, ?_⟩
      -- the call goes on, so it is the one that was under way
      have inside : (refresh slot scope .force phase).inside id w = some (limit, flight, w₁) := by
        simp only [inside, cached, Option.bind_some, attempted, goes, if_true]
      obtain ⟨rfl, -, begun, grace, -⟩ := inside_of_ended nested sheltered mem isOver inside
      exact .inr ⟨by simp [turnLeft, grace, begun], completes⟩

/-- **Once its scope has ended what is run is over with its next step.** It is broken off for the
cause for which the scope has ended, unless its call has one more turn and comes to something by
that: then it is its own instant, or it has heeded the scope by itself. -/
theorem Runs.ends (runs : job.Runs delay w scope f heeds) (nested : w.scopes.Nested)
    (sheltered : w.Sheltered jobs held) (mem : (id, job) ∈ jobs)
    (ended : w.cause? scope = some cause) :
    ∃ r, (job.step id w).1 = .finished r ∧ (r.BreaksOff cause ∨
      job.turnLeft w = true ∧ r.Completes ∧ ∀ e, f = some e → e = w.now ∨ heeds = true) := by
  cases runs with
  | watch | work =>
    simp only [step, ended]
    exact ⟨_, rfl, .inl rfl⟩
  | group grouped =>
    obtain ⟨own, names, g, interrupted⟩ := grouped.interrupted ended
    simp only [step, interrupted]
    exact ⟨_, rfl, .inl ⟨_, _, _, rfl⟩⟩
  | @inner _ _ slot under flight cached due free =>
    obtain ⟨c, cached⟩ := Option.isSome_iff_exists.mp cached
    obtain ⟨below, -⟩ := sheltered.limits _ mem _ scope rfl
    rw [step_calling cached]
    obtain ⟨r, finishes, cut | ⟨goes, ends, completes⟩⟩ :=
      World.goOnRefresh_ends slot c under flight ended
    · refine ⟨r, finishes, .inl ?_⟩
      cases above : w.cause? under with
      | none =>
        rw [above] at cut
        exact cut ▸ rfl
      | some cause' =>
        rw [above, below.cause_eq nested ended above] at cut
        exact cut ▸ rfl
    · refine ⟨r, finishes, .inr ⟨?_, completes, fun e same => ?_⟩⟩
      · rwa [World.goesOn, ended, Option.isNone_some, Bool.false_or] at goes
      · cases heeds with
        | true => exact .inr rfl
        | false =>
          have due : (flight.step scope w).1.AnswersAt delay w.now e :=
            Flight.step_answersAt (.inr (free rfl)) (due e same)
          cases turn : (flight.step scope w).1 with
          | still next => exact absurd turn (ends next)
          | done | panicked =>
            rw [turn] at due
            exact .inl due
  | refresh cached =>
    obtain ⟨c, cached⟩ := Option.isSome_iff_exists.mp cached
    obtain ⟨r, finishes, breaks | ⟨left, completes⟩⟩ :=
      refresh_ends nested sheltered cached mem ended
    · exact ⟨r, finishes, .inl breaks⟩
    · exact ⟨r, finishes, .inr ⟨left, completes, by simp⟩⟩

/-- **Nothing goes on inside by that step**, unless a call is under way that has one more turn. -/
theorem Runs.idle (runs : job.Runs delay w scope f heeds) (nested : w.scopes.Nested)
    (sheltered : w.Sheltered jobs held) (mem : (id, job) ∈ jobs)
    (ended : w.cause? scope = some cause) (turnless : job.turnLeft w = false) :
    w.Aside (job.step id w).2.2 := by
  cases runs with
  | watch | work => exact .refl w
  | group grouped =>
    obtain ⟨own, names, g, interrupted⟩ := grouped.interrupted ended
    simp only [step, interrupted]
    exact .tell w _
  | @inner _ _ _ under flight =>
    refine step_aside ?_
    simp only [turnLeft] at turnless
    simp [inside, World.attempt, World.goesOn, ended, turnless]
  | @refresh _ phase =>
    refine step_aside (Option.eq_none_iff_forall_ne_some.mpr fun p made => ?_)
    obtain ⟨limit, flight, w₁⟩ := p
    obtain ⟨rfl, -, begun, grace, -⟩ :=
      inside_of_ended nested sheltered mem (by simp [ended]) made
    simp [turnLeft, grace, begun] at turnless

end Job

/-! ## Steps under a scope that is live -/

/-- Caches that are there stay there. -/
theorem World.cached_of_makes (cached : (w.cache? slot).isSome) (makes : w'.makes = w.makes) :
    (w'.cache? slot).isSome := by
  have there := congrArg (·[slot]?.isSome) makes
  simp only [World.makes, List.getElem?_map, Option.isSome_map] at there
  exact there.trans cached

namespace Job

/-- Nothing that is run was over before. -/
theorem Runs.ahead (runs : job.Runs delay w scope f heeds) {e : Nat} (told : f = some e) :
    w.now ≤ e := by
  cases runs with
  | watch ahead | work ahead => exact Option.some.inj told ▸ ahead
  | group _ due | inner _ due => exact (due e told).le
  | refresh => cases told

/-- At the same instant it does not matter what else goes on. -/
theorem Runs.keep (runs : job.Runs delay w scope f heeds) (now : w'.now = w.now)
    (makes : w'.makes = w.makes) : job.Runs delay w' scope f heeds := by
  cases runs with
  | watch ahead => exact .watch (now ▸ ahead)
  | work ahead => exact .work (now ▸ ahead)
  | group grouped due => exact .group grouped (now ▸ due)
  | inner cached due free => exact .inner (World.cached_of_makes cached makes) (now ▸ due) free
  | refresh cached => exact .refresh (World.cached_of_makes cached makes)

/-- A forced refresh goes on as one, or is over. -/
theorem refresh_step (cached : w.cache? slot = some c) (phase : Phase) :
    ((refresh slot scope .force phase).step id w).1.Runs delay w scope none false := by
  have there : (w.cache? slot).isSome := by rw [cached]; rfl
  simp only [step, cached, World.stepRefresh_eq]
  cases w.attempt id slot c scope phase with
  | refused => exact ⟨trivial, by simp⟩
  | waits => exact .refresh there
  | calls limit flight w₁ =>
    simp only [World.goOnRefresh_eq]
    cases (w₁.callInner limit flight).1 with
    | still => exact .refresh there
    | done =>
      simp only [World.refreshTurn, World.finishRefresh_force]
      exact ⟨trivial, by simp⟩
    | panicked => exact ⟨trivial, by simp⟩

/-- **While its scope is live what is run goes on**, and if a step of it is the last one this is its
own instant. -/
theorem Runs.step (runs : job.Runs delay w scope f heeds) (live : w.cause? scope = none) :
    (job.step id w).1.Runs delay w scope f heeds := by
  cases runs with
  | watch ahead | work ahead =>
    simp only [Job.step, live]
    split
    · next due => exact ⟨rfl, fun _ same => Option.some.inj same ▸ Nat.le_antisymm due ahead⟩
    · constructor
      exact ahead
  | @group _ name flight grouped due =>
    have due := fun e told => Flight.step_answersAt (.inl live) (due e told)
    have grouped := grouped.step scope w
    simp only [Job.step]
    cases turn : (flight.step scope w).1 with
    | still next =>
      rw [turn] at due grouped
      exact .group grouped due
    | done o =>
      rw [turn] at due
      exact ⟨trivial, due⟩
    | panicked =>
      rw [turn] at grouped
      exact grouped.elim
  | @inner _ _ slot under flight cached due free =>
    obtain ⟨c, found⟩ := Option.isSome_iff_exists.mp cached
    have due := fun e told => Flight.step_answersAt (.inl live) (due e told)
    have free := fun unheeding => flight.step_heedless (free unheeding) scope w
    rw [step_calling found, World.goOnRefresh_eq, World.callInner_live live]
    cases turn : (flight.step scope w).1 with
    | still next =>
      rw [turn] at due free
      exact .inner cached due free
    | done o =>
      rw [turn] at due
      simp only [World.refreshTurn, World.finishRefresh_force]
      exact ⟨trivial, due⟩
    | panicked =>
      rw [turn] at due
      exact ⟨trivial, due⟩
  | @refresh slot phase cached =>
    obtain ⟨c, found⟩ := Option.isSome_iff_exists.mp cached
    exact refresh_step found phase

/-- What is run wakes when its scope ends. -/
theorem Runs.deadline_wakes (runs : job.Runs delay w scope f heeds) {d : Nat}
    (deadline : w.scopes.deadline? scope = some d) : d ∈ job.wakes w := by
  cases runs <;> simp [wakes, deadline]

/-- Where a step leaves a refresh as it is, it has left the call of the inner check so. -/
theorem still_of_calling {under : ScopeId} {flight : Flight} (cached : w.cache? slot = some c)
    (live : w.cause? scope = none)
    (still : ((refresh slot under .force (.calling scope flight)).step id w).1 =
      .going (.refresh slot under .force (.calling scope flight))) :
    (flight.step scope w).1 = .still flight := by
  rw [step_calling cached, World.goOnRefresh_eq, World.callInner_live live] at still
  cases turn : (flight.step scope w).1 with
  | still next =>
    rw [turn] at still
    cases still
    rfl
  | done o =>
    rw [turn] at still
    simp only [World.refreshTurn, World.finishRefresh_force] at still
    cases still
  | panicked =>
    rw [turn] at still
    cases still

/-- **Time passes for what is run** to the instant at which it is over at most. -/
theorem Runs.pass (runs : job.Runs delay w scope f heeds) (live : w.cause? scope = none)
    (still : (job.step id w).1 = .going job) {later : Nat}
    (early : ∀ wake ∈ job.wakes w, w.now < wake → later ≤ wake) :
    (∀ e, f = some e → w.now < e) ∧ job.Runs delay { w with now := later } scope f heeds := by
  have passes {flight : Flight} (due : ∀ e, f = some e → flight.AnswersAt delay w.now e)
      (rests : (flight.step scope w).1 = .still flight) (wakes : flight.wakes ⊆ job.wakes w) :
      (∀ e, f = some e → w.now < e) ∧ ∀ e, f = some e → flight.AnswersAt delay later e := by
    have both := fun e told => (due e told).pass live rests fun wake mem => early wake (wakes mem)
    exact ⟨fun e told => (both e told).1, fun e told => (both e told).2⟩
  cases runs with
  | @watch wake ahead | @work wake ahead =>
    simp only [Job.step, live] at still
    split at still
    · cases still
    · next due =>
      have soon : w.now < wake := Nat.lt_of_not_le due
      refine ⟨fun _ same => Option.some.inj same ▸ soon, ?_⟩
      constructor
      exact early wake (by simp [wakes]) soon
  | group grouped due =>
    obtain ⟨_, same, rests⟩ := call_of_going still
    cases same
    obtain ⟨soon, due⟩ := passes due rests (List.subset_append_right ..)
    exact ⟨soon, .group grouped due⟩
  | inner cached due free =>
    obtain ⟨c, found⟩ := Option.isSome_iff_exists.mp cached
    obtain ⟨soon, due⟩ := passes due (still_of_calling found live still) fun _ mem =>
      List.mem_append_right _ (List.mem_append_right _ mem)
    exact ⟨soon, .inner cached due free⟩
  | refresh cached => exact ⟨by simp, .refresh cached⟩

end Job

/-! ## In a machine -/

namespace World

/-- A scope that has ended, and not before now, has ended now. -/
theorem endedAt?_now (ended : w.cause? scope = some cause)
    (intime : ∀ d, w.scopes.deadline? scope = some d → w.now ≤ d) :
    w.endedAt? scope = some w.now := by
  rw [endedAt?, ended, Option.map_some]
  cases deadline : w.scopes.deadline? scope with
  | none => rfl
  | some d => exact congrArg some (Nat.min_eq_left (intime d deadline))

theorem endedAt?_of_ended (ended : w.cause? scope ≠ none) : ∃ e, w.endedAt? scope = some e := by
  obtain ⟨cause, ended⟩ := Option.ne_none_iff_exists'.mp ended
  rw [endedAt?, ended]
  exact ⟨_, rfl⟩

theorem endedAt?_le {e : Nat} (ended : w.endedAt? scope = some e) : e ≤ w.now := by
  obtain ⟨_, -, rfl⟩ := Option.map_eq_some_iff.mp ended
  cases w.scopes.deadline? scope with
  | none => exact Nat.le_refl _
  | some d => exact Nat.min_le_left ..

end World

namespace Machine

/-- **A job is run under a scope** that has not ended before now. -/
structure Running (m : Machine) (delay : Probe → Nat) (id : JobId) (scope : ScopeId)
    (f : Option Nat) (heeds : Bool) (job : Job) : Prop where
  mem : (id, job) ∈ m.jobs
  runs : job.Runs delay m.world scope f heeds
  intime : ∀ d, m.world.scopes.deadline? scope = some d → m.now ≤ d

variable {m : Machine} {held : List ScopeId}

namespace Running

/-- The scope of what is run is there. -/
theorem old (running : m.Running delay id scope f heeds job) (sheltered : m.Sheltered held) :
    scope < m.world.scopes.next := by
  obtain ⟨mem, runs, -⟩ := running
  cases runs with
  | watch | work | group | refresh => exact sheltered.scopes _ mem scope rfl
  | inner => exact (sheltered.limits _ mem _ scope rfl).1.lt_next

/-- **The next step of what is run** takes it further while its scope is live. Once that has ended
it is over with the step: it is broken off, or comes to its end in the turn that it has left. -/
theorem turn (running : m.Running delay id scope f heeds job) (nested : m.Nested)
    (sheltered : m.Sheltered held) :
    m.world.cause? scope = none ∧ (job.step id m.world).1.Runs delay m.world scope f heeds ∨
      ∃ cause r, m.world.cause? scope = some cause ∧ (job.step id m.world).1 = .finished r ∧
        (r.BreaksOff cause ∨ r.Completes ∧ ∀ e, f = some e → e = m.now ∨ heeds = true) := by
  cases ended : m.world.cause? scope with
  | none => exact .inl ⟨rfl, running.runs.step ended⟩
  | some cause =>
    obtain ⟨r, finishes, ending⟩ := running.runs.ends nested sheltered running.mem ended
    exact .inr ⟨cause, r, rfl, finishes, ending.imp_right And.right⟩

/-- **Where nothing is left to do the scope of what is run is live**, and it is over later. -/
theorem rests (running : m.Running delay id scope f heeds job) (nested : m.Nested)
    (sheltered : m.Sheltered held) (still : m.Still) {later : Nat}
    (early : ∀ wake ∈ job.wakes m.world, m.now < wake → later ≤ wake) :
    m.world.cause? scope = none ∧ (∀ e, f = some e → m.now < e) ∧
      job.Runs delay { m.world with now := later } scope f heeds := by
  have goes : (job.step id m.world).1 = .going job := congrArg Prod.fst (still _ running.mem)
  rcases running.turn nested sheltered with ⟨live, -⟩ | ⟨_, _, -, finishes, -⟩
  · exact ⟨live, running.runs.pass live goes early⟩
  · cases goes.symm.trans finishes

end Running

/-- **A job that is run under a scope that has ended takes one step more.** It is over at this
instant. If no call of it has a turn left it is broken off, and nothing goes on inside by the step.
-/
theorem takeTurn_ends (locked : m.Locked) (booked : m.Booked) (nested : m.Nested)
    (sheltered : m.Sheltered held) {i : Nat} (found : m.jobs[i]? = some (id, job))
    (runs : job.Runs delay m.world scope f heeds) (ended : m.world.cause? scope = some cause) :
    ∃ r, (m.takeTurn i).result? id = some (m.now, r) ∧ (∀ job, (id, job) ∉ (m.takeTurn i).jobs) ∧
      (r.BreaksOff cause ∨ r.Completes) ∧
      (job.turnLeft m.world = false → r.BreaksOff cause ∧ m.world.Aside (m.takeTurn i).world) := by
  have mem := List.mem_of_getElem? found
  obtain ⟨r, finishes, ending⟩ := runs.ends nested sheltered mem ended
  have world : (m.takeTurn i).world = (job.step id m.world).2.2 := by
    simp only [takeTurn, found]
  have entered : (m.takeTurn i).result? id = some (m.now, r) := by
    have now : (job.step id m.world).2.2.now = m.world.now := (job.step_later id m.world).now
    unfold takeTurn
    simp only [found, finishes, now]
    exact List.lookup_cons_self
  refine ⟨r, entered, fun job' there => ?_, ending.imp_right fun left => left.2.1,
    fun turnless => ⟨?_, ?_⟩⟩
  · have booked' := booked.books locked (takeTurn_books locked i)
    cases (booked'.unfinished there).symm.trans entered
  · refine ending.resolve_right fun left => ?_
    simp [turnless] at left
  · rw [world]
    exact runs.idle nested sheltered mem ended turnless

end Machine

namespace Scenario.Session

variable {s : Session} {held : List ScopeId} {next : Move}

/-! ## The end of a scope in a run -/

/-- **The cause for which a scope ends in a run**, if it does: what is told of it at the first point
of the run at which it has ended. -/
def endsFor? (scope : ScopeId) : Session → List Move → Option Fault
  | s, [] => s.machine.world.cause? scope
  | s, next :: rest => (s.machine.world.cause? scope).or (endsFor? scope (s.move next) rest)

/-- A move does not cancel a scope at the instant of its deadline. -/
def UntiedMove (scope : ScopeId) (s : Session) (next : Move) : Prop :=
  s.machine.world.scopes.deadline? scope = some s.machine.now →
    (s.move next).machine.world.scopes.isCancelled scope =
      s.machine.world.scopes.isCancelled scope

/-- **No move of a run cancels a scope at the instant of its deadline.** -/
def Untied (scope : ScopeId) : Session → List Move → Prop
  | _, [] => True
  | s, next :: rest => s.UntiedMove scope next ∧ Untied scope (s.move next) rest

instance (scope : ScopeId) (s : Session) (next : Move) : Decidable (s.UntiedMove scope next) :=
  inferInstanceAs (Decidable (_ → _))

instance decidableUntied (scope : ScopeId) :
    (s : Session) → (run : List Move) → Decidable (s.Untied scope run)
  | _, [] => .isTrue trivial
  | s, next :: rest =>
    have := decidableUntied scope (s.move next) rest
    inferInstanceAs (Decidable (s.UntiedMove scope next ∧ Untied scope (s.move next) rest))

theorem untied_append {run later : List Move} :
    s.Untied scope (run ++ later) ↔ s.Untied scope run ∧ (s.moves run).Untied scope later := by
  induction run generalizing s with
  | nil => exact (iff_of_eq (true_and _)).symm
  | cons next rest ih =>
    rw [List.cons_append, Untied, Untied, ih, and_assoc]
    rfl

theorem endsFor?_now (ended : s.machine.world.cause? scope = some cause) (run : List Move) :
    s.endsFor? scope run = some cause := by
  cases run with
  | nil => exact ended
  | cons next rest => rw [endsFor?, ended, Option.some_or]

theorem endsAt?_here {e : Nat} (ended : s.machine.world.endedAt? scope = some e)
    (run : List Move) : s.endsAt? scope run = some e := by
  cases run with
  | nil => exact ended
  | cons next rest => exact (congrArg (Option.or · _) ended).trans Option.some_or

/-- Where a scope is live it ends over the rest of a run when it does over the whole. -/
theorem ends_of_live (live : s.machine.world.cause? scope = none) (next : Move)
    (rest : List Move) : s.endsAt? scope (next :: rest) = (s.move next).endsAt? scope rest ∧
      s.endsFor? scope (next :: rest) = (s.move next).endsFor? scope rest := by
  simp only [endsAt?, endsFor?, World.endedAt?, live, Option.map_none, Option.none_or, and_self]

variable {known : Check → Prop} {first rest : List Move} {e : Nat}

/-- **Before a scope ends in a run it is live.** -/
theorem live_before (within : s.Within known held)
    (ends : s.endsAt? scope (first ++ rest) = some e) (before : (s.moves first).machine.now < e) :
    (s.moves first).machine.world.cause? scope = none := by
  induction first generalizing s held with
  | nil =>
    by_contra ended
    obtain ⟨e', here⟩ := World.endedAt?_of_ended ended
    cases (endsAt?_here here rest).symm.trans ends
    exact absurd before (Nat.not_lt.mpr (World.endedAt?_le here))
  | cons next first ih =>
    obtain ⟨held', within'⟩ := move_within within next
    by_cases live : s.machine.world.cause? scope = none
    · exact ih within' ((ends_of_live live next _).1.symm.trans ends) before
    · obtain ⟨e', here⟩ := World.endedAt?_of_ended live
      cases (endsAt?_here here _).symm.trans ends
      have later := (moves_after within (next :: first)).time
      have passed := Nat.le_trans (World.endedAt?_le here) later
      exact absurd before (Nat.not_lt.mpr passed)

/-- **After that it has ended.** -/
theorem ended_after (within : s.Within known held) (old : scope < s.machine.world.scopes.next)
    (ends : s.endsAt? scope (first ++ rest) = some e) (after : e < (s.moves first).machine.now) :
    (s.moves first).machine.world.cause? scope ≠ none := by
  induction first generalizing s held with
  | nil =>
    intro live
    have ahead := endsAt?_ge within old (Nat.le_refl _)
      (fun _ deadline => Nat.le_of_lt (World.lt_deadline live deadline)) ends
    exact absurd after (Nat.not_lt.mpr ahead)
  | cons next first ih =>
    by_cases live : s.machine.world.cause? scope = none
    · obtain ⟨held', within'⟩ := move_within within next
      have grows := (move_after within next).grows
      exact ih within' (Nat.lt_of_lt_of_le old grows) ((ends_of_live live next _).1.symm.trans ends)
        after
    · exact (moves_after within (next :: first)).stays old live

/-! ## One move -/

/-- **What is kept of a session over a patient run**: it keeps time, nothing is entered for a job
that is going on, and scopes are nested. -/
structure Regular (s : Session) (held : List ScopeId) : Prop where
  timely : s.Timely (fun _ => True) held
  booked : s.machine.Booked
  nested : s.machine.Nested

/-- **What a patient move makes of a job that is run**: it is run on; it is over by itself, at its
own instant or at the end of a scope that it heeds; it is broken off, for its scope has ended; or it
is dropped with a command. -/
inductive Moved (delay : Probe → Nat) (id : JobId) (scope : ScopeId) (f : Option Nat)
    (heeds : Bool) (s : Session) (next : Move) : Prop
  | running {job : Job} (running : (s.move next).machine.Running delay id scope f heeds job)
    (waits : s.machine.world.cause? scope ≠ none → (s.move next).machine.now = s.machine.now)
  | completed {r : Reply} (entered : (s.move next).machine.result? id = some (s.machine.now, r))
    (completes : r.Completes) (told : ∀ e, f = some e →
      e = s.machine.now ∨ heeds = true ∧ s.machine.world.cause? scope ≠ none)
  | brokenOff {r : Reply} {cause : Fault} (ended : s.machine.world.cause? scope = some cause)
    (entered : (s.move next).machine.result? id = some (s.machine.now, r))
    (breaks : r.BreaksOff cause)
  | dropped (entered : (s.move next).machine.result? id = some (s.machine.now, .aborted))
    (command : ¬ next.Alone)

namespace Regular

theorem move (regular : s.Regular held) (patient : s.PatientMove next) :
    ∃ held', (s.move next).Regular held' := by
  obtain ⟨timely, booked, nested⟩ := regular
  obtain ⟨held', timely'⟩ := timely.move (timely.move_punctual patient)
  obtain ⟨_, -, -, nested'⟩ := move_keep (I := fun p => p.1.Sheltered p.2 ∧ p.1.Nested)
    (fun touch kept => ⟨kept.1.touch touch, kept.2.touch kept.1 touch⟩)
    (fun _ _ i kept => ⟨kept.1.takeTurn i, kept.2.takeTurn kept.1 i⟩)
    (fun _ _ _ _ kept => ⟨⟨kept.1.opened, kept.1.scopes, kept.1.limits⟩, kept.2⟩)
    timely.within ⟨timely.paced.sheltered, nested⟩ next
  exact ⟨held', timely', moves_booked timely.within timely.paced.locked booked [next], nested'⟩

theorem moves (regular : s.Regular held) {run : List Move} (patient : s.Patient run) :
    ∃ held', (s.moves run).Regular held' := by
  induction run generalizing s held with
  | nil => exact ⟨held, regular⟩
  | cons next rest ih =>
    obtain ⟨held', regular'⟩ := regular.move patient.1
    exact ih regular' patient.2

/-- **A scope that has ended stays so for the same cause** at this instant, if it is not cancelled
just when its deadline comes. -/
theorem cause_stays (regular : s.Regular held) (old : scope < s.machine.world.scopes.next)
    (intime : ∀ d, s.machine.world.scopes.deadline? scope = some d → s.machine.now ≤ d)
    (untied : s.UntiedMove scope next) (now : (s.move next).machine.now = s.machine.now)
    (ended : s.machine.world.cause? scope ≠ none) :
    (s.move next).machine.world.cause? scope = s.machine.world.cause? scope := by
  have after := move_after regular.timely.within next
  have deadline := after.deadline scope old
  have same : (s.move next).machine.world.scopes.isCancelled scope =
      s.machine.world.scopes.isCancelled scope := by
    by_cases tie : s.machine.world.scopes.deadline? scope = some s.machine.now
    · exact untied tie
    · -- its deadline is ahead, so it can have ended by being cancelled only
      have ahead {d : Nat} (deadline : s.machine.world.scopes.deadline? scope = some d) :
          ¬ d ≤ s.machine.now := by
        intro passed
        exact tie (Nat.le_antisymm passed (intime d deadline) ▸ deadline)
      rcases Scopes.cause?_ne_none.mp ended with cancelled | ⟨d, deadline, passed⟩
      · rcases Scopes.cause?_ne_none.mp (after.ended scope old _ ended) with
          cancelled' | ⟨d, deadline', passed⟩
        · rw [cancelled, cancelled']
        · exact absurd passed (ahead (deadline.symm.trans deadline'))
      · exact absurd passed (ahead deadline)
  have now : (s.move next).machine.world.now = s.machine.world.now := now
  unfold World.cause? Scopes.cause?
  rw [same, deadline, now]

/-- **Time passes for what is run** to the end of its scope at most. -/
theorem pass (regular : s.Regular held) {ms : Nat} (patient : s.PatientMove (.pass ms))
    (running : s.machine.Running delay id scope f heeds job) :
    s.Moved delay id scope f heeds (.pass ms) := by
  obtain ⟨still, early⟩ := patient
  obtain ⟨live, -, runs⟩ := running.rests regular.nested regular.timely.paced.sheltered still
    (early _ running.mem)
  refine .running ⟨running.mem, runs, fun d deadline => ?_⟩ fun ended => absurd live ended
  have deadline : s.machine.world.scopes.deadline? scope = some d := deadline
  exact early _ running.mem d (running.runs.deadline_wakes deadline)
    (World.lt_deadline live deadline)

theorem moved (regular : s.Regular held) (patient : s.PatientMove next)
    (running : s.machine.Running delay id scope f heeds job) :
    s.Moved delay id scope f heeds next := by
  have timely := regular.timely
  have old := running.old timely.paced.sheltered
  have after := move_after timely.within next
  have makes := moves_makes timely.within [next]
  -- what goes on at this instant is run on
  have goes {job' : Job} (now : (s.move next).machine.now = s.machine.now)
      (mem : (id, job') ∈ (s.move next).machine.jobs)
      (runs : job'.Runs delay s.machine.world scope f heeds) :
      s.Moved delay id scope f heeds next := by
    refine .running ⟨mem, runs.keep now makes, fun d deadline => ?_⟩ fun _ => now
    exact now ▸ running.intime d ((after.deadline scope old).symm.trans deadline)
  have turn := running.turn regular.nested timely.paced.sheltered
  rcases move_fate timely.within timely.paced.locked regular.booked running.mem next with
    fate | ⟨command, entered⟩
  · cases fate with
    | left mem =>
      cases next with
      | pass ms => exact regular.pass patient running
      | begin | aside | turn | grace => exact goes (move_now timely.within nofun) mem running.runs
    | goesOn now step mem =>
      rw [step] at turn
      rcases turn with ⟨-, runs⟩ | ⟨_, _, -, finishes, -⟩
      · exact goes now mem runs
      · cases finishes
    | ends now step entered =>
      rw [step] at turn
      rcases turn with ⟨-, completes, told⟩ |
        ⟨cause, r, ended, finishes, breaks | ⟨completes, told⟩⟩
      · exact .completed entered completes fun e same => .inl (told e same)
      · cases finishes
        exact .brokenOff ended entered breaks
      · cases finishes
        exact .completed entered completes fun e same =>
          (told e same).imp_right fun heeds => ⟨heeds, by simp [ended]⟩
    | leaves step =>
      rw [step] at turn
      rcases turn with ⟨-, runs⟩ | ⟨_, _, -, finishes, -⟩
      · exact runs.elim
      · cases finishes
  · exact .dropped entered command

end Regular

/-! ## A whole run -/

/-- **How a job fares over a run** that is run under a scope when it begins: it is run on, and the
scope has not ended before; it was over by itself, and no later than the scope, and if not at its
own instant then with a scope that it heeds; it was broken off when the scope ended, and no later
than it would have been over; or it was dropped with a command. -/
inductive Fares (delay : Probe → Nat) (id : JobId) (scope : ScopeId) (f : Option Nat)
    (heeds : Bool) (s : Session) (run : List Move) : Prop
  | running {job : Job} (running : (s.moves run).machine.Running delay id scope f heeds job)
    (ahead : ∀ e, s.endsAt? scope run = some e → (s.moves run).machine.now ≤ e)
  | completed {time : Nat} {r : Reply}
    (entered : (s.moves run).machine.result? id = some (time, r)) (completes : r.Completes)
    (told : ∀ e, f = some e → e = time ∨ heeds = true ∧ s.endsAt? scope run = some time)
    (sooner : ∀ e, s.endsAt? scope run = some e → time ≤ e)
  | brokenOff {time : Nat} {r : Reply} {cause : Fault} (ends : s.endsAt? scope run = some time)
    (why : s.endsFor? scope run = some cause)
    (entered : (s.moves run).machine.result? id = some (time, r)) (breaks : r.BreaksOff cause)
    (sooner : ∀ e, f = some e → time ≤ e)
  | dropped {moment : Nat} (entered : (s.moves run).machine.result? id = some (moment, .aborted))
    {next : Move} (mem : next ∈ run) (command : ¬ next.Alone)

namespace Regular

/-- Where a job is run on, its scope ends over the rest of the run when it does over the whole, and
for the same cause. -/
theorem ends_cons (regular : s.Regular held)
    (running : s.machine.Running delay id scope f heeds job) (untied : s.UntiedMove scope next)
    {job' : Job} (running' : (s.move next).machine.Running delay id scope f heeds job')
    (waits : s.machine.world.cause? scope ≠ none → (s.move next).machine.now = s.machine.now)
    (rest : List Move) :
    (s.move next).endsAt? scope rest = s.endsAt? scope (next :: rest) ∧
      (s.move next).endsFor? scope rest = s.endsFor? scope (next :: rest) := by
  cases ended : s.machine.world.cause? scope with
  | none =>
    obtain ⟨sameAt, sameFor⟩ := ends_of_live ended next rest
    exact ⟨sameAt.symm, sameFor.symm⟩
  | some cause =>
    have isOver : s.machine.world.cause? scope ≠ none := by simp [ended]
    have now := waits isOver
    have old := running.old regular.timely.paced.sheltered
    have ended' := (regular.cause_stays old running.intime untied now isOver).trans ended
    have here := World.endedAt?_now ended running.intime
    have there := World.endedAt?_now ended' running'.intime
    have same : (s.move next).machine.world.now = s.machine.world.now := now
    rw [endsAt?_here here, endsAt?_here there, same, endsFor?_now ended, endsFor?_now ended']
    exact ⟨rfl, rfl⟩

/-- **What is run is over at its own instant or at the one at which its scope ends**, whichever
comes first. -/
theorem fares (regular : s.Regular held) {run : List Move} (patient : s.Patient run)
    (untied : s.Untied scope run) (running : s.machine.Running delay id scope f heeds job) :
    s.Fares delay id scope f heeds run := by
  induction run generalizing s held job with
  | nil =>
    refine .running running fun e ended => ?_
    exact World.endedAt?_ge (Nat.le_refl _) running.intime ended
  | cons next rest ih =>
    obtain ⟨held', regular'⟩ := regular.move patient.1
    have timely' := regular'.timely
    have stands {r : Nat × Reply} (entered : (s.move next).machine.result? id = some r) :
        (s.moves (next :: rest)).machine.result? id = some r :=
      moves_result timely'.within timely'.paced.locked regular'.booked entered rest
    cases regular.moved patient.1 running with
    | running running' waits =>
      obtain ⟨sameAt, sameFor⟩ := regular.ends_cons running untied.1 running' waits rest
      cases ih regular' patient.2 untied.2 running' with
      | running running'' ahead => exact .running running'' (sameAt ▸ ahead)
      | completed entered completes told sooner =>
        exact .completed entered completes (sameAt ▸ told) (sameAt ▸ sooner)
      | brokenOff ends why entered breaks sooner =>
        exact .brokenOff (sameAt ▸ ends) (sameFor ▸ why) entered breaks sooner
      | dropped entered mem command =>
        exact .dropped entered (List.mem_cons_of_mem _ mem) command
    | completed entered completes told =>
      have old := running.old regular.timely.paced.sheltered
      refine .completed (stands entered) completes (fun e same => ?_) fun _ ended =>
        endsAt?_ge regular.timely.within old (Nat.le_refl _) running.intime ended
      refine (told e same).imp_right fun ⟨heeds, isOver⟩ => ⟨heeds, ?_⟩
      obtain ⟨cause, ended⟩ := Option.ne_none_iff_exists'.mp isOver
      exact endsAt?_here (World.endedAt?_now ended running.intime) _
    | brokenOff ended entered breaks =>
      exact .brokenOff (endsAt?_here (World.endedAt?_now ended running.intime) _)
        (endsFor?_now ended _) (stands entered) breaks fun _ told => running.runs.ahead told
    | dropped entered command => exact .dropped (stands entered) List.mem_cons_self command

/-- Without a command no scope is cancelled. -/
theorem untied_alone (regular : s.Regular held) (old : scope < s.machine.world.scopes.next)
    {run : List Move} (patient : s.Patient run) (alone : ∀ next ∈ run, next.Alone) :
    s.Untied scope run := by
  induction run generalizing s held with
  | nil => trivial
  | cons next rest ih =>
    obtain ⟨held', regular'⟩ := regular.move patient.1
    obtain ⟨first, others⟩ := List.forall_mem_cons.mp alone
    have grows := (move_after regular.timely.within next).grows
    refine ⟨fun _ => ?_, ih regular' (Nat.lt_of_lt_of_le old grows) patient.2 others⟩
    cases next with
    | begin | aside => exact first.elim
    | pass | grace => rfl
    | turn i =>
      obtain ⟨new, nodes⟩ := (s.machine.takeTurn_later i).scopes
      have scopes : (s.move (.turn i)).machine.world.scopes =
          ⟨s.machine.world.scopes.nodes ++ new⟩ := by
        rw [← nodes]
        rfl
      rw [scopes]
      exact Scopes.isCancelled_append new old

/-- **What is run is over by its own instant or the deadline of its scope**, or soon if the scope
has ended; and no command is needed for it. -/
theorem comes_over (regular : s.Regular held)
    (running : s.machine.Running delay id scope f heeds job)
    (bounded : f.isSome ∨ (s.machine.world.scopes.deadline? scope).isSome ∨
      s.machine.world.cause? scope ≠ none) :
    ∃ run, s.Patient run ∧ s.Untied scope run ∧ (∀ next ∈ run, next.Alone) ∧
      ((s.moves run).machine.result? id).isSome := by
  have old := running.old regular.timely.paced.sheltered
  obtain ⟨e, bound⟩ : ∃ e, f = some e ∨ s.machine.world.scopes.deadline? scope = some e ∨
      s.machine.world.cause? scope ≠ none := by
    rcases bounded with told | deadline | ended
    · exact (Option.isSome_iff_exists.mp told).imp fun _ => .inl
    · exact (Option.isSome_iff_exists.mp deadline).imp fun _ => .inr ∘ .inl
    · exact ⟨s.machine.now, .inr (.inr ended)⟩
  obtain ⟨rest, settles, rested⟩ := regular.timely.comes_to_rest
  obtain ⟨waits, -, still, -⟩ := rested.await id e
  obtain ⟨run, same, patient, alone⟩ := settles.trans waits
  have untied := regular.untied_alone old patient alone
  refine ⟨run, patient, untied, alone, ?_⟩
  have waited := Machine.await_ends id e rest.machine
  have machine : (s.moves run).machine = rest.machine.await id e := by rw [← same]
  rw [← machine] at waited still
  rcases waited with result | late
  · exact result
  · cases regular.fares patient untied running with
    | completed entered | brokenOff _ _ entered | dropped entered => rw [entered]; rfl
    | running running' =>
      -- it would be over after now, but the wait was not given up before
      obtain ⟨held', regular'⟩ := regular.moves patient
      have after := moves_after regular.timely.within run
      obtain ⟨live, ahead, -⟩ := running'.rests regular'.nested regular'.timely.paced.sheltered
        still fun _ _ after => Nat.le_of_lt after
      rcases bound with told | deadline | ended
      · exact absurd late (Nat.not_le.mpr (ahead e told))
      · have deadline' := (after.deadline scope old).trans deadline
        exact absurd late (Nat.not_le.mpr (World.lt_deadline live deadline'))
      · exact absurd live (after.stays old ended)

end Regular

open CheckTree (ofBlueprint?)

theorem regular_of_patient {b : Blueprint} {t : CheckTree} (built : ofBlueprint? b = some t)
    (before : List Event) {run : List Move} (patient : (ofTree (some t) before).Patient run) :
    ∃ held, ((ofTree (some t) before).moves run).Regular held := by
  obtain ⟨held, timely⟩ := timely_of_patient built before patient
  exact ⟨held, timely, booked_of_moves built before run, nested_of_moves built before run⟩

/-- **What is run under a scope ends with it.** In any patient run something is run under a scope
that is live then, whatever the scope comes from: a wait for its end, work, a call of a group, the
call of an inner check or a forced refresh. The scope may be cancelled later, with itself or from
above, but not just when its deadline comes. Then at any later point of the run the job is going on,
and neither the end of the scope nor its own instant is over; or it was over by itself, at that
instant and no later than the scope, or with the scope if it is an inner check that heeds the scope;
or it was broken off at the instant at which the scope ended and for that cause, no later than it
would have been over; or it was dropped with a command. If its own instant is told, or the scope has
a deadline or has ended, it comes to one of these without any command. What is run under a scope
that has ended already is over with its next step, at this instant. It is broken off for the same
cause, and no call goes on by it, unless one was under way and has a turn left. Scenarios are such
runs. -/
theorem ends_with_scope {b : Blueprint} {t : CheckTree} (built : ofBlueprint? b = some t)
    (before : List Event) (delay : Probe → Nat) :
    let start := ofTree (some t) before
    (∀ (run : List Move) (id : JobId) (job : Job) (scope : ScopeId) (f : Option Nat) (heeds : Bool),
      let s := start.moves run
      start.Patient run → (id, job) ∈ s.machine.jobs →
      job.Runs delay s.machine.world scope f heeds → s.machine.world.cause? scope = none →
      ∀ later, s.Patient later → s.Untied scope later →
        (∀ first rest e, later = first ++ rest → s.endsAt? scope later = some e →
          let w := (s.moves first).machine.world
          (w.now < e → w.cause? scope = none) ∧ (e < w.now → w.cause? scope ≠ none)) ∧
        let m := (s.moves later).machine
        let going := ∃ job, (id, job) ∈ m.jobs
        let closed := fun (time : Nat) (r : Reply) => m.result? id = some (time, r) ∧ ¬ going
        (going ∧ (∀ e, s.endsAt? scope later = some e → m.now ≤ e) ∧
            (∀ e, f = some e → m.now ≤ e) ∨
          (∃ time r, closed time r ∧ r.Completes ∧
            (∀ e, f = some e → time = e ∨ heeds = true ∧ s.endsAt? scope later = some time) ∧
            ∀ e, s.endsAt? scope later = some e → time ≤ e) ∨
          (∃ time cause r, closed time r ∧ r.BreaksOff cause ∧ s.endsAt? scope later = some time ∧
            s.endsFor? scope later = some cause ∧ ∀ e, f = some e → time ≤ e) ∨
          (∃ moment, closed moment .aborted) ∧ ∃ next ∈ later, ¬ next.Alone) ∧
        (going → f.isSome ∨ (m.world.scopes.deadline? scope).isSome ∨
            m.world.cause? scope ≠ none →
          ∃ more, s.Patient (later ++ more) ∧ s.Untied scope (later ++ more) ∧
            (∀ next ∈ more, next.Alone) ∧
            ((s.moves (later ++ more)).machine.result? id).isSome)) ∧
    (∀ (run : List Move) (i : Nat) (id : JobId) (job : Job) (scope : ScopeId) (f : Option Nat)
      (heeds : Bool) (cause : Fault),
      let m := (start.moves run).machine
      m.jobs[i]? = some (id, job) → job.Runs delay m.world scope f heeds →
      m.world.cause? scope = some cause →
        ∃ r, (m.takeTurn i).result? id = some (m.now, r) ∧
          (∀ job, (id, job) ∉ (m.takeTurn i).jobs) ∧ (r.BreaksOff cause ∨ r.Completes) ∧
          (job.turnLeft m.world = false →
            r.BreaksOff cause ∧ m.world.Aside (m.takeTurn i).world)) ∧
    ∀ cs : List Command, start.LeadsPatiently (playAll cs start).2 := by
  intro start
  refine ⟨?lives, ?ended, playAll_patient built before⟩
  case lives =>
    intro run id job scope f heeds s patient mem runs live later patient' untied
    obtain ⟨held, regular⟩ := regular_of_patient built before patient
    obtain ⟨held', regular'⟩ := regular.moves patient'
    have running : s.machine.Running delay id scope f heeds job :=
      ⟨mem, runs, fun _ deadline => Nat.le_of_lt (World.lt_deadline live deadline)⟩
    have within := regular.timely.within
    have old := running.old regular.timely.paced.sheltered
    refine ⟨?first, ?stands⟩
    case first =>
      rintro first rest e rfl ends
      exact ⟨live_before within ends, ended_after within old ends⟩
    case stands =>
      intro m going closed
      have closes {time : Nat} {r : Reply} (entered : m.result? id = some (time, r)) :
          closed time r := by
        refine ⟨entered, ?_⟩
        rintro ⟨_, there⟩
        cases (regular'.booked.unfinished there).symm.trans entered
      cases regular.fares patient' untied running with
      | running running' ahead =>
        refine ⟨.inl ⟨⟨_, running'.mem⟩, ahead, fun _ => running'.runs.ahead⟩, fun _ bounded => ?_⟩
        obtain ⟨more, patient'', untied', alone, entered⟩ := regular'.comes_over running' bounded
        exact ⟨more, patient_append.mpr ⟨patient', patient''⟩, untied_append.mpr ⟨untied, untied'⟩,
          alone, by rwa [moves_append]⟩
      | completed entered completes told sooner =>
        exact ⟨.inr (.inl ⟨_, _, closes entered, completes,
          fun e same => (told e same).imp_left Eq.symm, sooner⟩),
          fun goes => absurd goes (closes entered).2⟩
      | brokenOff ends why entered breaks sooner =>
        exact ⟨.inr (.inr (.inl ⟨_, _, _, closes entered, breaks, ends, why, sooner⟩)),
          fun goes => absurd goes (closes entered).2⟩
      | dropped entered mem command =>
        exact ⟨.inr (.inr (.inr ⟨⟨_, closes entered⟩, _, mem, command⟩)),
          fun goes => absurd goes (closes entered).2⟩
  case ended =>
    intro run i id job scope f heeds cause m found runs ended
    obtain ⟨held, -, sheltered, -⟩ := looped_of_moves built before run
    exact Machine.takeTurn_ends (locked_of_moves built before run)
      (booked_of_moves built before run) (nested_of_moves built before run) sheltered found runs
      ended

/-- A scope with a timeout of 100 that comes from one with a timeout of 40 ends at 40: work of 30
under it is done before, and a wait and a call that takes 70 are broken off. A scope that comes from
it is cancelled at 20, and a wait for its end is over then. A call under a scope that was cancelled
before calls no probe. -/
theorem ends_with_scope_at_40_and_at_20 :
    let slow : Probe := ⟨"p", "p", ⟨[⟨some 70, false⟩], .outcome (.ok .healthy)⟩, []⟩
    let b : Blueprint := .group "g" [.probe slow]
    let low : Under := ⟨some "low", none⟩
    let side : Under := ⟨some "side", none⟩
    let run : List Move := [.begin (.derive "up" none (some 40)),
      .begin (.derive "low" (some "up") (some 100)), .begin (.derive "side" (some "low") none),
      .begin (.watch low 90), .begin (.work low 30), .begin (.check .root low),
      .begin (.watch side 90)]
    let turns : List Move := List.replicate 12 (.turn 0)
    let later := turns ++ .pass 20 :: .begin (.cancel side) :: turns ++ .pass 10 :: turns ++
      .pass 10 :: turns
    let late : List Move := [.begin (.derive "low" none none), .begin (.cancel low),
      .begin (.check .root low)]
    ∃ t, ofBlueprint? b = some t ∧
      let m := (((ofTree (some t) []).moves run).moves later).machine
      let m' := ((ofTree (some t) []).moves late).machine
      (∃ r, m.result? 0 = some (40, r) ∧ r.BreaksOff .deadlineExceeded) ∧
        (∃ r, m.result? 1 = some (30, r) ∧ r.Completes) ∧
        (∃ r, m.result? 2 = some (40, r) ∧ r.BreaksOff .deadlineExceeded) ∧
        (∃ r, m.result? 3 = some (20, r) ∧ r.BreaksOff .cancelled) ∧
        (∃ r, (m'.takeTurn 0).result? 0 = some (0, r) ∧ r.BreaksOff .cancelled) ∧
        (m'.takeTurn 0).world.calls = m'.world.calls := by
  intro slow b low side run turns later late
  let c : Check := .group "g" [.probe slow]
  let delay : Probe → Nat := fun _ => 70
  have asked : (ofBlueprint? b).map (fun t => (((ofTree (some t) []).moves run).machine.jobs,
      ((ofTree (some t) []).moves late).machine.jobs)) =
      some ([(0, .watch 3 90), (1, .work 3 30), (2, .call "g" 3 (.fresh c)), (3, .watch 4 90)],
        [(0, .call "g" 2 (.fresh c))]) := by
    rfl
  have facts : (ofBlueprint? b).any fun t =>
      let s := (ofTree (some t) []).moves run
      let m := (s.moves later).machine
      let m' := ((ofTree (some t) []).moves late).machine
      decide <| (ofTree (some t) []).patient? (run ++ later) = true ∧
        s.machine.world.cause? 3 = none ∧ s.machine.world.cause? 4 = none ∧
        s.machine.world.now = 0 ∧ s.Untied 3 later ∧ s.Untied 4 later ∧
        s.endsAt? 3 later = some 40 ∧ s.endsFor? 3 later = some .deadlineExceeded ∧
        s.endsAt? 4 later = some 20 ∧ s.endsFor? 4 later = some .cancelled ∧
        m.jobs.length = 0 ∧ (∀ q ∈ m.finished, q.2.2.ctorIdx ≠ Reply.aborted.ctorIdx) ∧
        m'.world.cause? 2 = some .cancelled ∧ m'.now = 0 := by decide +kernel
  -- from here on the runs count for these facts only
  clear_value run later late
  obtain ⟨t, built, facts⟩ := (Option.any_eq_true _ _).mp facts
  obtain ⟨seen, live, live', now, untied, untied', at3, for3, at4, for4, empty, kept, cut, now'⟩ :=
    of_decide_eq_true facts
  obtain ⟨t', built', jobs⟩ := Option.map_eq_some_iff.mp asked
  cases built.symm.trans built'
  obtain ⟨jobs, jobs'⟩ := Prod.mk.inj jobs
  obtain ⟨patient, patient'⟩ := patient_append.mp (patient_ofTree built [] seen)
  let s := (ofTree (some t) []).moves run
  let m := (s.moves later).machine
  obtain ⟨lives, ended, -⟩ := ends_with_scope built [] delay
  -- nothing goes on at the end, and nothing was dropped
  have fate {id : JobId} {job : Job} {scope : ScopeId} {e ends : Nat} {cause : Fault}
      (mem : (id, job) ∈ s.machine.jobs)
      (runs : job.Runs delay s.machine.world scope (some e) false)
      (live : s.machine.world.cause? scope = none) (untied : s.Untied scope later)
      (endsAt : s.endsAt? scope later = some ends)
      (endsFor : s.endsFor? scope later = some cause) :
      (∃ r, m.result? id = some (e, r) ∧ r.Completes) ∧ e ≤ ends ∨
        (∃ r, m.result? id = some (ends, r) ∧ r.BreaksOff cause) ∧ ends ≤ e := by
    have ⟨_, fares, _⟩ :=
      lives run id job scope (some e) false patient mem runs live later patient' untied
    rcases fares with
      ⟨⟨job, there⟩, -⟩ | ⟨time, r, closed, completes, told, sooner⟩ |
      ⟨time, cause', r, closed, breaks, when', why, sooner⟩ | ⟨⟨moment, closed⟩, -⟩
    · have none : m.jobs = [] := List.eq_nil_of_length_eq_zero empty
      rw [none] at there
      cases there
    · cases (told e rfl).resolve_right fun heeds => nomatch heeds.1
      exact .inl ⟨⟨r, closed.1, completes⟩, sooner ends endsAt⟩
    · cases endsAt.symm.trans when'
      cases endsFor.symm.trans why
      exact .inr ⟨⟨r, closed.1, breaks⟩, sooner e rfl⟩
    · exact absurd rfl (kept _ (Machine.mem_of_result closed.1))
  have mem (p : JobId × Job) (listed : p ∈ [(0, Job.watch 3 90), (1, .work 3 30),
      (2, .call "g" 3 (.fresh c)), (3, .watch 4 90)]) : p ∈ s.machine.jobs := jobs ▸ listed
  have ahead (e : Nat) : s.machine.world.now ≤ e := now ▸ Nat.zero_le e
  have due : (Flight.fresh c).AnswersAt delay s.machine.world.now 70 := by
    rw [now]
    exact ⟨by decide, rfl⟩
  have wait := fate (mem (0, .watch 3 90) (by simp)) (.watch (ahead 90)) live untied at3 for3
  have work := fate (mem (1, .work 3 30) (by simp)) (.work (ahead 30)) live untied at3 for3
  have call := fate (mem (2, .call "g" 3 (.fresh c)) (by simp))
    (.group (List.cons_ne_nil _ _) fun e same => Option.some.inj same ▸ due) live untied at3 for3
  have wait' := fate (mem (3, .watch 4 90) (by simp)) (.watch (ahead 90)) live' untied' at4 for4
  obtain ⟨r, entered, -, -, turnless⟩ :=
    ended late 0 0 (.call "g" 2 (.fresh c)) 2 none false .cancelled (by rw [jobs']; rfl)
      (.group (List.cons_ne_nil _ _) (by simp)) cut
  obtain ⟨breaks, aside⟩ := turnless rfl
  rw [now'] at entered
  exact ⟨t, built, (wait.resolve_left fun h => absurd h.2 (by decide)).1,
    (work.resolve_right fun h => absurd h.2 (by decide)).1,
    (call.resolve_left fun h => absurd h.2 (by decide)).1,
    (wait'.resolve_left fun h => absurd h.2 (by decide)).1, ⟨r, entered, breaks⟩, aside.calls⟩

end Scenario.Session

end HealthTree
