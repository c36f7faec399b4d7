import HealthTree.Proofs.Lighter

/-!
# What one step of a job achieves

A job is fine (`Job.Fine`) if nothing that it still does can go wrong: a call under a live scope is
on course and finds its caches primed, a refresh finds those primed that come before its own, and a
loop is not behind with its ticks. A step of a job that is fine leaves the world fair and what goes
on fine (`World.Advances`). And it either changes nothing, which only a job that rests does
(`Job.Rests`), or leaves less to do (`Job.step_achieves`).

A start promises to prime its cache and those that it goes on to start (`Job.Promises`), and a step
keeps the promise or hands it on.
-/

namespace HealthTree

/-- **How the caches of a tree are laid out**: what they are refreshed from is known and looks only
at caches before their own, and their intervals are positive. -/
structure Layout (makes : List (Check × Nat)) (plan : Plan) : Prop where
  known : ∀ (slot : Nat) (make : Check × Nat), makes[slot]? = some make →
    make.1.Known makes plan
  ordered : ∀ (slot : Nat) (make : Check × Nat), makes[slot]? = some make →
    ∀ other interval inner, make.1.Has (.cached other interval inner) → other < slot
  positive : ∀ (slot : Nat) (make : Check × Nat), makes[slot]? = some make → 0 < make.2

/-- Caches that are primed one after the other, where each finds those before it primed. -/
def InOrder (primed : Nat → Prop) : List Nat → Prop
  | [] => True
  | slot :: rest => (∀ k < slot, primed k) ∧ InOrder (fun k => primed k ∨ k = slot) rest

theorem InOrder.mono {p q : Nat → Prop} (more : ∀ k, p k → q k) {slots : List Nat}
    (order : InOrder p slots) : InOrder q slots := by
  induction slots generalizing p q with
  | nil => trivial
  | cons slot rest ih =>
    exact ⟨fun k before => more k (order.1 k before), ih (fun k => .imp_left (more k)) order.2⟩

/-- The caches that are started after a refresh. -/
def Purpose.rest : Purpose → List Nat
  | start rest => rest
  | force | tick => []

section

variable (makes : List (Check × Nat)) (plan : Plan) (w : World)

/-- What a refresh that has come this far relies on. -/
def Phase.Fine (slot : Nat) (scope : ScopeId) : Phase → Prop
  | arriving | queued => True
  | granted => w.cause? scope = none
  | calling limit flight => w.cause? scope = none ∧ w.cause? limit = none ∧
      ∀ make, makes[slot]? = some make → flight.OnCourse make.1

/-- **Nothing that the job still does can go wrong.** -/
def Job.Fine : Job → Prop
  | call _ scope flight => ∃ c, c.Known makes plan ∧
      (w.cause? scope = none → flight.OnCourse c ∧ w.Primes c) ∧
      (w.cause? scope ≠ none → flight = .fresh c)
  | refresh slot scope purpose phase =>
      (w.cause? scope = none → InOrder w.Primed (slot :: purpose.rest)) ∧
      phase.Fine makes w slot scope
  | loop slot scope => (w.cause? scope = none → ∀ k < slot, w.Primed k) ∧
      ∀ l, w.loops[slot]? = some (some l) → l.scope = scope → w.now ≤ l.nextTick
  | work _ _ | watch _ _ | sleep _ => True

/-- The job is a start under a live scope that will prime this cache, and others that there are. -/
def Job.Promises (slot : Nat) : Job → Prop
  | refresh here scope (.start rest) _ => w.cause? scope = none ∧ slot ∈ here :: rest ∧
      ∀ k ∈ here :: rest, k < w.makes.length
  | refresh _ _ .force _ | refresh _ _ .tick _ => False
  | call _ _ _ | loop _ _ | work _ _ | watch _ _ | sleep _ => False

/-- The job is a call of this check under a live scope, on course. -/
def Job.Heads (c : Check) : Job → Prop
  | call name scope flight => name = c.name ∧ w.cause? scope = none ∧ flight.OnCourse c ∧ w.Primes c
  | refresh _ _ _ _ | loop _ _ | work _ _ | watch _ _ | sleep _ => False

/-- The job can do nothing before time moves or another job does. -/
def Job.Rests (id : JobId) : Job → Prop
  | refresh slot _ _ .queued => ∃ c, w.cache? slot = some c ∧
      (c.holder.isNone && c.waiting.head? == some id) = false
  | refresh _ _ _ .arriving | refresh _ _ _ .granted | refresh _ _ _ (.calling _ _) => False
  | call _ _ _ => False
  | loop slot scope => ¬ w.Due slot scope
  | work _ _ | watch _ _ | sleep _ => True

/-- **What a step leaves is fair and fine.** -/
structure World.Advances (r : JobTurn × Spawned × World) : Prop where
  fair : r.2.2.Fair makes plan
  onward : w.Onward r.2.2
  left : ∀ next, r.1 = .going next → next.Fine makes plan r.2.2
  started : ∀ new next, r.2.1 = some (new, next) → next.Fine makes plan r.2.2

/-- The promise to prime a cache is kept, or handed on. -/
def Promised (slot : Nat) (r : JobTurn × Spawned × World) : Prop :=
  r.2.2.Primed slot ∨ ∃ next, r.1 = .going next ∧ next.Promises r.2.2 slot

/-- **What a step of the job achieves**: it changes nothing, or leaves less to do, and keeps every
promise. -/
structure Job.Achieves (id : JobId) (job : Job) (r : JobTurn × Spawned × World) : Prop where
  advances : w.Advances makes plan r
  progress : job.Rests w id ∧ r = (.going job, none, w) ∨ stepWeight r < job.weight w
  promised : ∀ k, job.Promises w k → Promised k r

end

variable {makes : List (Check × Nat)} {plan : Plan} {w w₁ : World} {id : JobId} {slot : Nat}
  {c : Cache} {scope limit : ScopeId} {purpose : Purpose} {fault : Option Fault} {o : Outcome}

namespace World.Advances

/-- Of a job that is over nothing is left. -/
theorem finished (fair : w₁.Fair makes plan) (on : w.Onward w₁) {reply : Reply} :
    w.Advances makes plan (.finished reply, none, w₁) := by
  refine ⟨fair, on, ?_, ?_⟩
  · rintro _ ⟨⟩
  · rintro _ _ ⟨⟩

theorem gone (fair : w₁.Fair makes plan) (on : w.Onward w₁) :
    w.Advances makes plan (.gone, none, w₁) := by
  refine ⟨fair, on, ?_, ?_⟩
  · rintro _ ⟨⟩
  · rintro _ _ ⟨⟩

/-- A job that goes on has to be fine. -/
theorem going (fair : w₁.Fair makes plan) (on : w.Onward w₁) {job : Job}
    (fine : job.Fine makes plan w₁) : w.Advances makes plan (.going job, none, w₁) := by
  refine ⟨fair, on, ?_, ?_⟩
  · rintro _ ⟨⟩
    exact fine
  · rintro _ _ ⟨⟩

end World.Advances

namespace Job

theorem Promises.inv {k : Nat} {phase : Phase}
    (promises : (refresh slot scope purpose phase).Promises w k) :
    w.cause? scope = none ∧ k ∈ slot :: purpose.rest ∧
      ∀ j ∈ slot :: purpose.rest, j < w.makes.length := by
  cases purpose with
  | start rest => exact promises
  | force | tick => exact promises.elim

theorem Promises.keep {job : Job} {k : Nat} (promises : job.Promises w k) (on : w.Onward w₁)
    (known : ∀ scope, job.scope? = some scope → scope < w.scopes.next) : job.Promises w₁ k := by
  cases job with
  | refresh slot scope purpose phase =>
    cases purpose with
    | start rest =>
      obtain ⟨live, mem, there⟩ := promises
      exact ⟨(on.cause? (known scope rfl)).trans live, mem, fun j mem => on.makes ▸ there j mem⟩
    | force | tick => exact promises.elim
  | _ => exact promises.elim

/-- How far a refresh has come makes no difference to what it promises. -/
theorem Promises.phase {k : Nat} {phase : Phase}
    (promises : (refresh slot scope purpose phase).Promises w k) (other : Phase) :
    (refresh slot scope purpose other).Promises w k := by
  cases purpose with
  | start rest => exact promises
  | force | tick => exact promises.elim

end Job

/-- A call that is brought nearer to its ideal has less to do. -/
theorem Turn.Nears.lighter {t : Turn} {before : Nat} {d : Check} (nears : t.Nears d before)
    (some : 0 < before) : t.weight < before := by
  cases t with
  | still flight => exact nears.2
  | done o => exact some
  | panicked => exact nears.elim

/-- A fine job stays fine while others go on, if its scopes are known. -/
theorem Job.Fine.keep {job : Job} (fine : job.Fine makes plan w) (on : w.Onward w₁)
    (known : ∀ scope, job.scope? = some scope → scope < w.scopes.next)
    (limited : ∀ scope limit, job.limit? = some (scope, limit) → limit < w.scopes.next) :
    job.Fine makes plan w₁ := by
  cases job with
  | call name scope flight =>
    obtain ⟨c, is, live, ended⟩ := fine
    have same := on.cause? (known scope rfl)
    refine ⟨c, is, ?_, fun cause => ended (same ▸ cause)⟩
    intro cause
    obtain ⟨course, primes⟩ := live (same ▸ cause)
    exact ⟨course, fun slot interval inner has => on.primed slot (primes slot interval inner has)⟩
  | refresh slot scope purpose phase =>
    obtain ⟨order, phased⟩ := fine
    have same := on.cause? (known scope rfl)
    refine ⟨fun cause => (order (same ▸ cause)).mono on.primed, ?_⟩
    cases phase with
    | arriving | queued => trivial
    | granted => exact same.trans phased
    | calling limit flight =>
      obtain ⟨live, live', course⟩ := phased
      exact ⟨same.trans live, (on.cause? (limited scope limit rfl)).trans live', course⟩
  | loop slot scope =>
    obtain ⟨before, ahead⟩ := fine
    have same := on.cause? (known scope rfl)
    refine ⟨fun cause k lt => on.primed k (before (same ▸ cause) k lt), ?_⟩
    intro l' found same'
    rw [on.now]
    rcases on.loops slot l' found with lt | ⟨l, found', scope', le⟩
    · exact Nat.le_of_lt (on.now ▸ lt)
    · exact Nat.le_trans (ahead l found' (scope'.trans same')) le
  | work | watch | sleep => trivial

theorem Layout.cache_positive (layout : Layout makes plan) (fair : w.Fair makes plan) {c : Cache}
    (cached : w.cache? slot = some c) : 0 < c.interval :=
  layout.positive slot _ (fair.listed cached)

theorem Layout.spaced (layout : Layout makes plan) (fair : w.Fair makes plan) : w.Spaced := by
  intro make mem
  rw [fair.same] at mem
  obtain ⟨slot, there⟩ := List.getElem?_of_mem mem
  exact layout.positive slot make there

theorem Layout.primes (layout : Layout makes plan) (fair : w.Fair makes plan) {c : Cache}
    (cached : w.cache? slot = some c) (before : ∀ k < slot, w.Primed k) : w.Primes c.inner :=
  fun other interval inner has =>
    before other (layout.ordered slot _ (fair.listed cached) other interval inner has)

namespace World

/-- Fairness does not see what is done aside, unless it is a state of a cache. -/
theorem Fair.of_aside (fair : w.Fair makes plan) (aside : w.Aside w₁)
    (states : w₁.states = w.states) : w₁.Fair makes plan :=
  fair.of_same aside.makes states aside.debounces

/-- **An ideal outcome that is committed leaves the world fair.** -/
theorem Fair.commit (fair : w.Fair makes plan) {make : Check × Nat}
    (there : makes[slot]? = some make) (is : Outcome.surface o = Outcome.surface make.1.ideal) :
    (w.commit slot c o).Fair makes plan where
  same := (Aside.commit w slot c o).makes.trans fair.same
  states other make' s found state := by
    rw [states_commit, List.getElem?_modify] at state
    obtain ⟨old, before, after⟩ := Option.map_eq_some_iff.mp state
    by_cases here : slot = other
    · subst here
      rw [if_pos rfl] at after
      cases after
      rw [there] at found
      cases found
      rw [Snapshot.replay_ofOutcome]
      exact is
    · rw [if_neg here] at after
      exact fair.states other make' s found (after ▸ before)
  counts := fair.counts

private theorem conclude_start (w : World) (slot : Nat) (c : Cache) (scope : ScopeId)
    (fault : Option Fault) (rest : List Nat) :
    w.conclude slot c scope fault (.start rest) = (match rest with
      | [] => .finished .started
      | next :: rest => .going (.refresh next scope (.start rest) .arriving),
      (w.tell (fault.toList.map (.firstRefreshFailed c.name))).ensureLoop slot c scope) := rfl

/-- **The loop that is set off is fine**: it is live only if the scope is, and its first tick is still
to come. -/
theorem ensureLoop_fine (layout : Layout makes plan) (fair : w.Fair makes plan)
    (before : w.cause? scope = none → ∀ k < slot, w.Primed k) {new : JobId} {job : Job}
    (is : (w.ensureLoop slot c scope).1 = some (new, job)) :
    job.Fine makes plan (w.ensureLoop slot c scope).2 := by
  have positive (c : Cache) (cached : w.cache? slot = some c) : 0 < c.interval :=
    layout.cache_positive fair cached
  have on : w.Onward (w.ensureLoop slot c scope).2 := ensureLoop_onward positive
  obtain ⟨rfl, scopes, ahead⟩ := ensureLoop_started positive is
  refine ⟨?_, ?_⟩
  · intro live k lt
    unfold World.cause? at live
    rw [scopes, on.now, Scopes.derive_cause?_eq_none] at live
    exact on.primed k (before live.1 k lt)
  · intro l found _
    exact Nat.le_of_lt (on.now ▸ ahead l found)

/-- **What follows a refresh is fine**, and the caches that it goes on to start are still promised. -/
theorem conclude_advances (c : Cache) (fault : Option Fault) (purpose : Purpose)
    (layout : Layout makes plan) (fair : w₁.Fair makes plan) (on : w.Onward w₁)
    (known : scope < w.scopes.next)
    (before : w.cause? scope = none → ∀ k < slot, w₁.Primed k)
    (order : w.cause? scope = none → InOrder w₁.Primed purpose.rest) :
    w.Advances makes plan (w₁.conclude slot c scope fault purpose) ∧
      (w.cause? scope = none → (∀ k ∈ purpose.rest, k < w.makes.length) → ∀ k ∈ purpose.rest,
        Promised k (w₁.conclude slot c scope fault purpose)) := by
  cases purpose with
  | force => exact ⟨.finished fair on, fun _ _ => List.forall_mem_nil _⟩
  | tick => exact ⟨.gone fair on, fun _ _ => List.forall_mem_nil _⟩
  | start rest =>
    have positive (c : Cache) (cached : w₁.cache? slot = some c) : 0 < c.interval :=
      layout.cache_positive fair cached
    let told := w₁.tell (fault.toList.map (.firstRefreshFailed c.name))
    have seen : told.Onward (told.ensureLoop slot c scope).2 := ensureLoop_onward positive
    have fair' := fair.of_aside ((Aside.tell w₁ _).trans (told.ensureLoop_aside slot c scope))
      (told.ensureLoop_states slot c scope)
    have on' : w.Onward (told.ensureLoop slot c scope).2 := (on.trans (tell_onward _)).trans seen
    have same := on'.cause? known
    have primed (k : Nat) (primed : w₁.Primed k) : (told.ensureLoop slot c scope).2.Primed k :=
      seen.primed k primed
    have loop (new : JobId) (job : Job)
        (is : (told.ensureLoop slot c scope).1 = some (new, job)) :
        job.Fine makes plan (told.ensureLoop slot c scope).2 :=
      ensureLoop_fine layout (fair.of_aside (.tell w₁ _) rfl)
        (fun live => before ((on.cause? known).symm.trans live)) is
    rw [conclude_start]
    rcases ensured : told.ensureLoop slot c scope with ⟨spawned, w'⟩
    rw [ensured] at seen fair' on' same primed loop
    simp only at seen fair' on' same primed loop
    cases rest with
    | nil =>
      refine ⟨⟨fair', on', ?_, loop⟩, fun _ _ => List.forall_mem_nil _⟩
      rintro _ ⟨⟩
    | cons next rest =>
      refine ⟨⟨fair', on', ?_, loop⟩, ?_⟩
      · rintro _ ⟨⟩
        exact ⟨fun live => (order (same ▸ live)).mono primed, trivial⟩
      · intro live there k mem
        exact .inr ⟨_, rfl, same.trans live, mem, fun j mem => on'.makes ▸ there j mem⟩

/-- **A refresh that comes to the ideal primes its cache**, and what follows it is fine. -/
theorem finishRefresh_advances (c : Cache) (purpose : Purpose) (layout : Layout makes plan)
    (fair : w₁.Fair makes plan) (on : w.Onward w₁) (known : scope < w.scopes.next)
    (live : w.cause? scope = none)
    {make : Check × Nat} (there : makes[slot]? = some make)
    (order : InOrder w₁.Primed (slot :: purpose.rest))
    (is : Outcome.surface o = Outcome.surface make.1.ideal) :
    w.Advances makes plan (w₁.finishRefresh slot c scope purpose o) ∧
      ((∀ k ∈ purpose.rest, k < w.makes.length) →
        ∀ k ∈ slot :: purpose.rest, Promised k (w₁.finishRefresh slot c scope purpose o)) := by
  let committed := (w₁.commit slot c o).unlock slot
  have fair' : committed.Fair makes plan :=
    (fair.commit there is).of_aside (.unlock _ slot) (states_unlock _ slot)
  have on₁ : w₁.Onward committed := commit_onward.trans unlock_onward
  have here : committed.Primed slot := unlock_onward.primed slot (commit_primed (.inr rfl))
  have primed (k : Nat) (primed : w₁.Primed k ∨ k = slot) : committed.Primed k := by
    rcases primed with primed | rfl
    · exact on₁.primed k primed
    · exact here
  obtain ⟨advances, promised⟩ := conclude_advances c o.fault? purpose layout fair'
    (on.trans on₁) known (fun _ k lt => on₁.primed k (order.1 k lt)) (fun _ => order.2.mono primed)
  simp only [finishRefresh, (on.cause? known).trans live]
  refine ⟨advances, ?_⟩
  intro there k mem
  rcases List.mem_cons.mp mem with rfl | mem
  · refine .inl ?_
    unfold Primed
    rw [conclude_states]
    exact here
  · exact promised live there k mem

/-! ## The attempts of a refresh -/

/-- **A refresh that calls its inner check is on course**, under a limit that is live. -/
theorem attempt_course (layout : Layout makes plan) (fair : w.Fair makes plan)
    (strict : w.grace = false) (cached : w.cache? slot = some c) {phase : Phase}
    (fine : phase.Fine makes w slot scope) {flight : Flight}
    (calls : w.attempt id slot c scope phase = .calls limit flight w₁) :
    w.cause? scope = none ∧ w₁.cause? limit = none ∧ flight.OnCourse c.inner := by
  have live : w.cause? scope = none := by
    have cases := w.attempt_cases id slot c scope phase
    rw [calls] at cases
    cases cases with
    | walksIn live => exact live
    | movesUp first turn => exact turn.resolve_right (by simp [strict])
    | granted => exact fine
    | calling => exact fine.1
  rcases attempt_calls calls with ⟨rfl, rfl⟩ | ⟨rfl, rfl, scopes⟩
  · obtain ⟨-, live', course⟩ := fine
    exact ⟨live, live', course _ (fair.listed cached)⟩
  · refine ⟨live, ?_, rfl⟩
    have now : w₁.now = w.now := by
      have later := (w.attempt_aside id slot c scope phase).now
      rwa [calls] at later
    have positive := layout.cache_positive fair cached
    have half : 0 < c.limit := by
      unfold Cache.limit
      omega
    unfold World.cause?
    rw [scopes, now]
    refine Scopes.derive_cause?_eq_none.mpr ⟨live, ?_⟩
    rintro _ ⟨⟩
    omega

/-! ## Steps -/

/-- What a refresh attempts leaves the world fair, and goes on. -/
theorem attempt_fair (fair : w.Fair makes plan) {phase : Phase} {attempt : Attempt}
    (attempted : w.attempt id slot c scope phase = attempt) :
    attempt.world.Fair makes plan ∧ w.Onward attempt.world := by
  subst attempted
  have aside := w.attempt_aside id slot c scope phase
  have states := w.attempt_states id slot c scope phase
  have loops := w.attempt_loops id slot c scope phase
  exact ⟨fair.of_aside aside states, .of_same aside.toLater states loops⟩

/-- A refresh that is refused is over, and promised nothing. -/
theorem refused_achieves (layout : Layout makes plan) (fair : w.Fair makes plan)
    (known : scope < w.scopes.next) {phase : Phase} {cause : Fault}
    (attempted : w.attempt id slot c scope phase = .refused cause w₁) :
    (Job.refresh slot scope purpose phase).Achieves makes plan w id
      (w₁.conclude slot c scope (some cause) purpose) := by
  have ended : w.cause? scope ≠ none := by simp [(attempt_refused attempted).2]
  obtain ⟨fair₁, on⟩ : w₁.Fair makes plan ∧ w.Onward w₁ := attempt_fair fair attempted
  obtain ⟨advances, -⟩ := conclude_advances c (some cause) purpose layout fair₁ on known
    (fun live => absurd live ended) fun live => absurd live ended
  refine ⟨advances, .inr (refused_lighter (layout.spaced fair) attempted purpose), ?_⟩
  exact fun k promises => absurd promises.inv.1 ended

/-- A refresh that waits has got in line, or rests. -/
theorem waits_achieves (fair : w.Fair makes plan) (cached : w.cache? slot = some c)
    (known : scope < w.scopes.next) {phase : Phase}
    (fine : (Job.refresh slot scope purpose phase).Fine makes plan w)
    (attempted : w.attempt id slot c scope phase = .waits w₁) :
    (Job.refresh slot scope purpose phase).Achieves makes plan w id
      (.going (.refresh slot scope purpose .queued), none, w₁) := by
  obtain ⟨fair₁, on⟩ : w₁.Fair makes plan ∧ w.Onward w₁ := attempt_fair fair attempted
  have same := on.cause? known
  refine ⟨.going fair₁ on ?_, ?_, fun k promises => .inr ⟨_, rfl, ?_⟩⟩
  · exact ⟨fun live => (fine.1 (same ▸ live)).mono on.primed, trivial⟩
  · rcases attempt_waits attempted with ⟨rfl, -⟩ | ⟨rfl, rfl, behind⟩
    · exact .inr (waits_lighter attempted purpose)
    · exact .inl ⟨⟨c, cached, behind⟩, rfl⟩
  · apply (promises.keep on _).phase
    rintro _ ⟨⟩
    exact known

/-- **A refresh that calls its inner check** is brought nearer to the ideal of it, or primes its
cache. -/
theorem calls_achieves (layout : Layout makes plan) (fair : w.Fair makes plan)
    (strict : w.grace = false) (cached : w.cache? slot = some c) (known : scope < w.scopes.next)
    {phase : Phase} (fine : (Job.refresh slot scope purpose phase).Fine makes plan w)
    {flight : Flight} (attempted : w.attempt id slot c scope phase = .calls limit flight w₁) :
    (Job.refresh slot scope purpose phase).Achieves makes plan w id
      (w₁.goOnRefresh slot c scope purpose limit flight) := by
  obtain ⟨order, phased⟩ := fine
  obtain ⟨fair₁, on⟩ : w₁.Fair makes plan ∧ w.Onward w₁ := attempt_fair fair attempted
  obtain ⟨live, live', course⟩ := attempt_course layout fair strict cached phased attempted
  have chain := (order live).mono on.primed
  have there := fair.listed cached
  obtain ⟨c₁, cached₁, make⟩ := fair₁.cached there
  have inner : c₁.inner = c.inner := congrArg Prod.fst make
  have primes : w₁.Primes c.inner := inner ▸ layout.primes fair₁ cached₁ chain.1
  obtain ⟨fair', nears⟩ := flight.step_nears course (layout.known slot _ there) fair₁ primes live'
  have calls : w₁.callInner limit flight = flight.step limit w₁ := callInner_live live' flight
  have lighter := calls_lighter (layout.spaced fair) cached attempted purpose
    (calls ▸ nears.lighter flight.weight_pos)
  have later := flight.step_later limit w₁
  have caches := flight.step_caches limit w₁
  have live'' := (flight.step_cause? limit limit w₁).trans live'
  rw [goOnRefresh_eq, calls] at lighter ⊢
  rcases taken : flight.step limit w₁ with ⟨turn, w'⟩
  rw [taken] at fair' nears later caches live'' lighter
  have on₁ : w₁.Onward w' := .of_same later (congrArg (List.map Cache.state) caches)
    (congrArg (List.map Cache.loop) caches)
  have on' := on.trans on₁
  have order' : InOrder w'.Primed (slot :: purpose.rest) := chain.mono on₁.primed
  cases turn with
  | panicked => exact nears.elim
  | still next =>
    refine ⟨.going fair' on' ?_, .inr lighter, fun k promises => .inr ⟨_, rfl, ?_⟩⟩
    · refine ⟨fun _ => order', (on'.cause? known).trans live, live'', ?_⟩
      intro make found
      rw [there] at found
      cases found
      exact nears.1
    · apply (promises.keep on' _).phase
      rintro _ ⟨⟩
      exact known
  | done o =>
    obtain ⟨advances, promised⟩ := finishRefresh_advances c purpose layout
      fair' on' known live there order' nears
    refine ⟨advances, .inr lighter, ?_⟩
    intro k promises
    obtain ⟨-, mem, there⟩ := promises.inv
    exact promised (fun j mem => there j (List.mem_cons_of_mem _ mem)) k mem

/-- **A step of a refresh.** -/
theorem stepRefresh_achieves (layout : Layout makes plan) (fair : w.Fair makes plan)
    (strict : w.grace = false) (cached : w.cache? slot = some c) (known : scope < w.scopes.next)
    {phase : Phase} (fine : (Job.refresh slot scope purpose phase).Fine makes plan w) :
    (Job.refresh slot scope purpose phase).Achieves makes plan w id
      (w.stepRefresh id slot c scope purpose phase) := by
  rw [stepRefresh_eq]
  cases attempted : w.attempt id slot c scope phase with
  | refused cause w₁ => exact refused_achieves layout fair known attempted
  | waits w₁ => exact waits_achieves fair cached known fine attempted
  | calls limit flight w₁ => exact calls_achieves layout fair strict cached known fine attempted

theorem ticked_onward : w.Onward (w.ticked slot) where
  toLater := (w.ticked_aside slot).toLater
  primed other primed := by
    have same : (w.ticked slot).states = w.states := states_modifyCache_same w slot fun _ => rfl
    unfold Primed
    rw [same]
    exact primed
  loops other l' found := by
    right
    by_cases here : slot = other
    · subst here
      obtain ⟨c, l, -, kept, rfl⟩ := ticked_loops found
      exact ⟨l, kept, rfl, Nat.le_add_right _ _⟩
    · have loops : (w.ticked slot).loops = (w.caches.modify slot _).map (·.loop) := rfl
      rw [loops, List.getElem?_map, List.getElem?_modify] at found
      simp only [if_neg here, Option.map_eq_map, Option.map_id_fun', id_eq] at found
      rw [← List.getElem?_map] at found
      exact ⟨l', found, rfl, Nat.le_refl _⟩

/-- **A step of a loop.** -/
theorem stepLoop_achieves (id : JobId) (layout : Layout makes plan) (fair : w.Fair makes plan)
    (strict : w.grace = false) (cached : w.cache? slot = some c) (known : scope < w.scopes.next)
    (fine : (Job.loop slot scope).Fine makes plan w) :
    (Job.loop slot scope).Achieves makes plan w id (w.stepLoop slot c scope) := by
  have scopes {w' : World} (on : w.Onward w') : (Job.loop slot scope).Fine makes plan w' :=
    fine.keep on (by rintro _ ⟨⟩; exact known) (Job.limitless rfl)
  have fair' := fair.of_aside (w.stepLoop_aside slot c scope) (w.stepLoop_states slot c scope)
  have progress := stepLoop_lighter (layout.spaced fair) strict cached fun _ => fine.2
  have cases := w.stepLoop_cases slot c scope
  generalize w.stepLoop slot c scope = r at cases fair' progress ⊢
  refine ⟨?_, progress, fun _ promises => promises.elim⟩
  cases cases with
  | stops cause ended => exact .gone fair' (tell_onward _)
  | rests live early => exact .going fair (.refl w) fine
  | ticks live due idle =>
    have on : w.Onward ((w.ticked slot).granted slot) := ticked_onward.trans
      (.of_same ((Aside.spawn (w.ticked slot)).trans (.lock _ slot _)).toLater
        (states_lock ..) (loops_modifyCache_same _ slot fun _ => rfl))
    refine ⟨fair', on, ?_, ?_⟩
    · rintro _ ⟨⟩
      exact scopes on
    · rintro _ _ ⟨⟩
      have live' := (on.cause? known).trans live
      exact ⟨fun _ => ⟨(scopes on).1 live', trivial⟩, live'⟩
  | skips live due busy =>
    have on : w.Onward ((w.ticked slot).skipped c) :=
      ticked_onward.trans ⟨((w.ticked slot).skipped_aside c).toLater,
        fun _ primed => primed, fun _ l found => .inr ⟨l, found, rfl, Nat.le_refl _⟩⟩
    exact .going fair' on (scopes on)
  | ticksLast cause ended last | skipsLast cause ended last => simp [tickLeft, strict] at last

end World

namespace Job

/-- **A step of a call.** -/
theorem call_achieves (id : JobId) {name : String} {flight : Flight}
    (fair : w.Fair makes plan) (known : scope < w.scopes.next)
    (fine : (call name scope flight).Fine makes plan w) :
    (call name scope flight).Achieves makes plan w id ((call name scope flight).step id w) := by
  obtain ⟨c, is, course, cut⟩ := fine
  have on : w.Onward (flight.step scope w).2 := .of_same (flight.step_later scope w)
    (congrArg (List.map Cache.state) (flight.step_caches scope w))
    (congrArg (List.map Cache.loop) (flight.step_caches scope w))
  simp only [Job.step]
  cases cause : w.cause? scope with
  | none =>
    obtain ⟨course, primes⟩ := course cause
    obtain ⟨fair', nears⟩ := flight.step_nears course is fair primes cause
    rcases taken : flight.step scope w with ⟨turn, w'⟩
    rw [taken] at on fair' nears
    cases turn with
    | panicked => exact nears.elim
    | done o =>
      refine ⟨.finished fair' on, .inr ?_, fun _ promises => promises.elim⟩
      show 0 + 0 < flight.weight + 1
      omega
    | still next =>
      refine ⟨.going fair' on ?_, .inr ?_, fun _ promises => promises.elim⟩
      · have live := (on.cause? known).trans cause
        exact ⟨c, is, fun _ => ⟨nears.1, fun slot interval inner has =>
          on.primed slot (primes slot interval inner has)⟩, fun ended => absurd live ended⟩
      · show next.weight + 1 + 0 < flight.weight + 1
        have := nears.2
        omega
  | some fault =>
    have ended : w.cause? scope ≠ none := by
      rw [cause]
      exact Option.some_ne_none fault
    cases cut ended
    obtain ⟨fair', o, answered, -⟩ := c.begin_cut is fair ended
    rw [Flight.step] at on ⊢
    rcases taken : c.begin scope w with ⟨turn, w'⟩
    rw [taken] at on fair' answered
    cases (answered : turn = .done o)
    refine ⟨.finished fair' on, .inr ?_, fun _ promises => promises.elim⟩
    show 0 + 0 < (Flight.fresh c).weight + 1
    omega

/-- **A step of a job that is fine** leaves the world fair and what goes on fine, where what has
ended is cut off at once. It changes nothing, and then the job rests, or it leaves less to do. What
the job promises is kept or handed on. -/
theorem step_achieves (layout : Layout makes plan) (fair : w.Fair makes plan)
    (strict : w.grace = false) {job : Job}
    (known : ∀ scope, job.scope? = some scope → scope < w.scopes.next)
    (fine : job.Fine makes plan w) : job.Achieves makes plan w id (job.step id w) := by
  -- a job that only waits goes on as it is, or is over
  have waits {turn : JobTurn} (one : job.weight w = 1)
      (goes : turn = .going job ∨ ∃ r, turn = .finished r) (rests : job.Rests w id)
      (empty : ∀ k, ¬ job.Promises w k) : job.Achieves makes plan w id (turn, none, w) := by
    have promised (k : Nat) (promises : job.Promises w k) : Promised k (turn, none, w) :=
      (empty k promises).elim
    rcases goes with rfl | ⟨r, rfl⟩
    · exact ⟨.going fair (.refl w) fine, .inl ⟨rests, rfl⟩, promised⟩
    · refine ⟨.finished fair (.refl w), .inr ?_, promised⟩
      rw [one]
      exact Nat.zero_lt_one
  cases job with
  | call name scope flight => exact call_achieves id fair (known scope rfl) fine
  | refresh slot scope purpose phase =>
    simp only [Job.step]
    cases cached : w.cache? slot with
    | none =>
      refine ⟨.gone fair (.refl w), .inr ?_, ?_⟩
      · have := le_refreshWeight w slot
        show 0 + 0 < _
        cases phase <;> simp only [weight] <;> omega
      · intro k promises
        have there := promises.inv.2.2 slot List.mem_cons_self
        rw [World.makes, List.length_map] at there
        exact absurd there (Nat.not_lt.mpr (List.getElem?_eq_none_iff.mp cached))
    | some c => exact World.stepRefresh_achieves layout fair strict cached (known scope rfl) fine
  | loop slot scope =>
    simp only [Job.step]
    cases cached : w.cache? slot with
    | none =>
      refine ⟨.gone fair (.refl w), .inr ?_, fun _ promises => promises.elim⟩
      show 0 + 0 < _
      rcases weight_loop w slot scope with ⟨-, weighs⟩ | ⟨-, weighs⟩ <;> omega
    | some c => exact World.stepLoop_achieves id layout fair strict cached (known scope rfl) fine
  | work scope wake | watch scope wake =>
    refine waits rfl ?_ trivial fun _ promises => promises
    cases w.cause? scope with
    | some cause => exact .inr ⟨_, rfl⟩
    | none =>
      by_cases due : wake ≤ w.now
      · exact .inr ⟨_, if_pos due⟩
      · exact .inl (if_neg due)
  | sleep wake =>
    refine waits rfl ?_ trivial fun _ promises => promises
    by_cases due : wake ≤ w.now
    · exact .inr ⟨_, if_pos due⟩
    · exact .inl (if_neg due)

/-- **A call that is on course comes to the ideal of its check**, or stays on course. -/
theorem Heads.step (id : JobId) {c : Check} {job : Job} (heads : job.Heads w c)
    (is : c.Known makes plan) (fair : w.Fair makes plan)
    (known : ∀ scope, job.scope? = some scope → scope < w.scopes.next) :
    (∃ next, (job.step id w).1 = .going next ∧ next.Heads (job.step id w).2.2 c) ∨
      ∃ o, (job.step id w).1 = .finished (.answered c.name o) ∧
        Outcome.surface o = Outcome.surface c.ideal := by
  cases job with
  | call name scope flight =>
    obtain ⟨rfl, live, course, primes⟩ := heads
    have nears := (flight.step_nears course is fair primes live).2
    have primes' := flight.step_primes scope primes
    have live' := (flight.step_cause? scope scope w).trans live
    simp only [Job.step]
    rcases taken : flight.step scope w with ⟨turn, w'⟩
    rw [taken] at nears primes' live'
    cases turn with
    | panicked => exact nears.elim
    | done o => exact .inr ⟨o, rfl, nears⟩
    | still next => exact .inl ⟨_, rfl, rfl, live', nears.1, primes'⟩
  | _ => exact heads.elim

theorem Heads.keep {c : Check} {job : Job} (heads : job.Heads w c) (on : w.Onward w₁)
    (known : ∀ scope, job.scope? = some scope → scope < w.scopes.next) : job.Heads w₁ c := by
  cases job with
  | call name scope flight =>
    obtain ⟨named, live, course, primes⟩ := heads
    exact ⟨named, (on.cause? (known scope rfl)).trans live, course,
      fun slot interval inner has => on.primed slot (primes slot interval inner has)⟩
  | _ => exact heads.elim

end Job

end HealthTree
