import HealthTree.Proofs.Onward

/-!
# Every step leaves less to do

A step of a job changes nothing, or it leaves less to do: for the job, and for the one that it sets
off, taken together (`Job.step_lighter`). For a call that is a matter of its flight
(`Flight.step_lighter`), and a refresh adds what comes after the call. Only a loop could go on for
ever at one instant. It does not, for intervals are positive: a loop that was not behind with its
ticks is ahead when it has taken one (`ticked_weight`).
-/

namespace HealthTree

/-! ## Calls -/

/-- What is left to do for a call after a step. -/
def Turn.weight : Turn → Nat
  | still flight => flight.weight
  | done _ | panicked => 0

/-- Nothing is left to do for a call that is cut off. -/
theorem Turn.cutOff_weight (cause : Fault) (t : Turn) : (t.cutOff (some cause)).weight = 0 := by
  cases t <;> rfl

namespace World

/-- A probe that goes on has passed a pause of those before it. -/
theorem goOn_weight (w : World) (p : Probe) (scope : ScopeId) (a : Answer) (pauses : List Pause) :
    (w.goOn p scope a pauses).1.weight ≤ pauses.length := by
  induction pauses with
  | nil =>
    simp only [goOn, answer]
    cases a with
    | outcome | tally | panic => exact Nat.le_refl 0
    | scope => cases (w.completeCall p.id).cause? scope <;> exact Nat.le_refl 0
  | cons pause rest ih =>
    rw [goOn]
    split
    · exact Nat.zero_le _
    · split
      · exact Nat.le_succ_of_le ih
      · exact Nat.le_refl _

theorem debounced_weight (w : World) (slot : Nat) (budget : UInt32) (name : String) (t : Turn) :
    (w.debounced slot budget name t).1.weight = t.weight := by
  cases t <;> rfl

end World

/-- **A call that begins has less to do than before.** -/
theorem Check.begin_weight (c : Check) (scope : ScopeId) (w : World) :
    (c.begin scope w).1.weight < Flight.weightOfCheck c := by
  cases c with
  | fixed name status message => exact Nat.one_pos
  | probe p =>
    refine Nat.lt_of_le_of_lt (World.goOn_weight ..) ?_
    exact Nat.lt_of_le_of_lt (p.pauses_le _) (Nat.lt_add_of_pos_right (by decide))
  | group name children =>
    simp only [Check.begin, World.gather]
    split
    · exact Nat.succ_pos _
    · split
      · exact Nat.succ_pos _
      · show Flight.weightAll _ + 1 < Flight.weightOfChecks children + 2
        rw [Flight.weightAll_fresh]
        exact Nat.lt_succ_self _
  | cached slot interval inner =>
    simp only [Check.begin]
    split <;> exact Nat.one_pos
  | debounced slot budget inner =>
    simp only [Check.begin, World.debounced_weight]
    exact begin_weight inner scope w

namespace Flight

mutual
/-- **A step of a call** changes nothing, or leaves less to do. -/
theorem step_lighter (f : Flight) (scope : ScopeId) (w : World) :
    f.step scope w = (.still f, w) ∨ (f.step scope w).1.weight < f.weight := by
  cases f with
  | fresh check =>
    right
    simp only [step, weight]
    exact check.begin_weight scope w
  | pausing p wake heeds act =>
    simp only [step]
    split
    · exact .inr (Nat.succ_pos _)
    · split
      · exact .inr (Nat.lt_succ_of_le (World.goOn_weight ..))
      · exact .inl rfl
  | debouncing slot budget name inner =>
    simp only [step, World.debounced_weight, weight]
    rcases step_lighter inner scope w with same | less
    · rw [same]
      exact .inl rfl
    · exact .inr less
  | gathering name names g waiting =>
    simp only [step]
    split
    · exact .inr (Nat.succ_pos _)
    · rcases stepAll_lighter waiting scope g w with same | less
      · rw [same]
        cases waiting with
        | nil => exact .inr (Nat.succ_pos _)
        | cons first rest => exact .inl rfl
      · right
        rcases taken : stepAll scope waiting g w with ⟨waiting', g', w'⟩
        rw [taken] at less
        cases waiting' with
        | nil => exact Nat.succ_pos _
        | cons first rest => exact Nat.succ_lt_succ less
/-- A step of each of several calls changes nothing, or leaves less to do. -/
theorem stepAll_lighter (waiting : List (String × Flight)) (scope : ScopeId) (g : Gathered)
    (w : World) : stepAll scope waiting g w = (waiting, g, w) ∨
      weightAll (stepAll scope waiting g w).1 < weightAll waiting := by
  cases waiting with
  | nil => exact .inl rfl
  | cons first rest =>
    obtain ⟨name, flight⟩ := first
    -- whatever comes of the first, the others do not get heavier
    have others (g : Gathered) (w : World) :
        weightAll (stepAll scope rest g w).1 ≤ weightAll rest := by
      rcases stepAll_lighter rest scope g w with same | less
      · exact Nat.le_of_eq (congrArg (weightAll ·.1) same)
      · exact Nat.le_of_lt less
    simp only [stepAll, weightAll]
    rcases step_lighter flight scope w with same | less
    · rw [same]
      rcases stepAll_lighter rest scope g w with same' | less
      · left
        simp only [World.gathered, same']
      · exact .inr (Nat.add_lt_add_left less _)
    · right
      rcases taken : flight.step scope w with ⟨turn, w'⟩
      rw [taken] at less
      cases turn with
      | still next => exact Nat.add_lt_add_of_lt_of_le less (others g w')
      | done | panicked =>
        exact Nat.lt_of_le_of_lt (others _ _) (Nat.lt_add_of_pos_left less)
end

/-- Several calls get no heavier by a step of each. -/
theorem stepAll_weight_le (waiting : List (String × Flight)) (scope : ScopeId) (g : Gathered)
    (w : World) : weightAll (stepAll scope waiting g w).1 ≤ weightAll waiting := by
  rcases stepAll_lighter waiting scope g w with same | less
  · exact Nat.le_of_eq (congrArg (weightAll ·.1) same)
  · exact Nat.le_of_lt less

end Flight

namespace World

/-! ## Refreshes -/

/-- Every cache has a positive interval. -/
def Spaced (w : World) : Prop :=
  ∀ make ∈ w.makes, 0 < make.2

variable {w w₁ : World} {id : JobId} {slot : Nat} {c : Cache} {scope limit : ScopeId}
  {purpose : Purpose} {phase : Phase} {flight : Flight}

theorem Spaced.of_makes (spaced : w.Spaced) (makes : w₁.makes = w.makes) : w₁.Spaced := by
  unfold Spaced
  rw [makes]
  exact spaced

theorem Spaced.interval (spaced : w.Spaced) (c : Cache) (cached : w.cache? slot = some c) :
    0 < c.interval :=
  spaced c.make (List.mem_map_of_mem (List.mem_of_getElem? cached))

/-- A loop that is seen to has nothing to do yet. -/
theorem ensureLoop_weight (spaced : w.Spaced) (slot : Nat) (c : Cache) (scope : ScopeId) :
    spawnedWeight (w.ensureLoop slot c scope).2 (w.ensureLoop slot c scope).1 ≤ 1 := by
  cases started : (w.ensureLoop slot c scope).1 with
  | none => exact Nat.zero_le 1
  | some new =>
    obtain ⟨id, job⟩ := new
    obtain ⟨rfl, -, ahead⟩ := ensureLoop_started spaced.interval started
    rcases Job.weight_loop (w.ensureLoop slot c scope).2 slot w.scopes.next with
      ⟨⟨l, found, -, tick⟩, -⟩ | ⟨-, one⟩
    · rw [(w.ensureLoop_aside slot c scope).now] at tick
      exact absurd tick (Nat.not_le_of_lt (ahead l found))
    · exact Nat.le_of_eq one

/-- **What follows a refresh weighs no more than its purpose.** -/
theorem conclude_weight (makes : w₁.makes = w.makes) (spaced : w.Spaced) (slot : Nat) (c : Cache)
    (scope : ScopeId) (fault : Option Fault) (purpose : Purpose) :
    stepWeight (w₁.conclude slot c scope fault purpose) ≤ Job.purposeWeight w purpose := by
  cases purpose with
  | force | tick => exact Nat.le_refl 0
  | start rest =>
    let told := w₁.tell (fault.toList.map (.firstRefreshFailed c.name))
    have makes' : (told.ensureLoop slot c scope).2.makes = w.makes :=
      ((Aside.tell w₁ _).trans (told.ensureLoop_aside slot c scope)).makes.trans makes
    have light := ensureLoop_weight (spaced.of_makes makes : told.Spaced) slot c scope
    cases rest with
    | nil =>
      show 0 + spawnedWeight (told.ensureLoop slot c scope).2 (told.ensureLoop slot c scope).1 ≤
        0 + 2 * 0 + 2
      omega
    | cons next rest =>
      show Job.purposeWeight (told.ensureLoop slot c scope).2 (.start rest) +
        Job.refreshWeight (told.ensureLoop slot c scope).2 next +
        spawnedWeight (told.ensureLoop slot c scope).2 (told.ensureLoop slot c scope).1 ≤ _
      rw [Job.purposeWeight_eq makes', Job.refreshWeight_eq makes']
      simp only [Job.purposeWeight, sumOf_cons, List.length_cons]
      omega

/-- What follows a step of the call of the inner check weighs no more than that and the purpose. -/
theorem refreshTurn_weight (makes : w₁.makes = w.makes) (spaced : w.Spaced) (slot : Nat) (c : Cache)
    (scope limit : ScopeId) (purpose : Purpose) (t : Turn) :
    stepWeight (w₁.refreshTurn slot c scope purpose limit t) ≤
      Job.purposeWeight w purpose + (t.weight + 5) := by
  cases t with
  | still flight =>
    show Job.purposeWeight w₁ purpose + (flight.weight + 5) + 0 ≤ _
    rw [Job.purposeWeight_eq makes]
    exact Nat.le_refl _
  | panicked => cases purpose <;> exact Nat.zero_le _
  | done o =>
    refine Nat.le_add_right_of_le ?_
    simp only [refreshTurn, finishRefresh]
    cases w₁.cause? scope with
    | some cause =>
      have told := ((Aside.tell w₁ [.refreshInterrupted c.name cause]).trans (.unlock _ slot)).makes
      exact conclude_weight (told.trans makes) spaced slot c scope _ purpose
    | none =>
      have committed := ((Aside.commit w₁ slot c o).trans (.unlock _ slot)).makes
      exact conclude_weight (committed.trans makes) spaced slot c scope _ purpose

/-- A refresh weighs more than the call of its inner check. -/
theorem attempt_weight (cached : w.cache? slot = some c)
    (calls : w.attempt id slot c scope phase = .calls limit flight w₁) (purpose : Purpose) :
    Job.purposeWeight w purpose + (flight.weight + 5) ≤
      (Job.refresh slot scope purpose phase).weight w := by
  have weighs : Job.refreshWeight w slot = Flight.weightOfCheck c.inner + 8 := by
    unfold Job.refreshWeight
    rw [cached]
  rcases attempt_calls calls with ⟨rfl, -⟩ | ⟨-, rfl, -⟩
  · exact Nat.le_refl _
  · cases phase with
    | calling limit flight =>
      cases calls
      exact Nat.le_refl _
    | _ =>
      simp only [Flight.weight, Job.weight, weighs]
      omega

/-- The call of the inner check changes nothing, or leaves less to do. -/
theorem callInner_lighter (w : World) (limit : ScopeId) (flight : Flight) :
    w.callInner limit flight = (.still flight, w) ∨
      (w.callInner limit flight).1.weight < flight.weight := by
  have cases := w.callInner_cases limit flight
  generalize w.callInner limit flight = r at cases ⊢
  cases cases with
  | steps => exact flight.step_lighter limit w
  | lastTurn => exact .inr ((Turn.cutOff_weight ..).symm ▸ flight.weight_pos)
  | cut => exact .inr flight.weight_pos

/-- A call that has not begun does so, or is cut off. -/
theorem callInner_fresh (w : World) (limit : ScopeId) (check : Check) :
    (w.callInner limit (.fresh check)).1.weight < (Flight.fresh check).weight := by
  have cases := w.callInner_cases limit (.fresh check)
  generalize w.callInner limit (.fresh check) = r at cases ⊢
  cases cases with
  | steps => exact check.begin_weight limit w
  | lastTurn _ _ begun => cases begun
  | cut => exact (Flight.fresh check).weight_pos

/-- A refresh that is refused is over. -/
theorem refused_lighter (spaced : w.Spaced) {cause : Fault}
    (attempted : w.attempt id slot c scope phase = .refused cause w₁) (purpose : Purpose) :
    stepWeight (w₁.conclude slot c scope (some cause) purpose) <
      (Job.refresh slot scope purpose phase).weight w := by
  have aside := w.attempt_aside id slot c scope phase
  rw [attempted] at aside
  have makes : w₁.makes = w.makes := aside.makes
  have heavy := Job.le_refreshWeight w slot
  refine Nat.lt_of_le_of_lt (conclude_weight makes spaced slot c scope (some cause) purpose) ?_
  cases phase <;> simp only [Job.weight] <;> omega

/-- A refresh that gets in line has less to do. -/
theorem waits_lighter (attempted : w.attempt id slot c scope .arriving = .waits w₁)
    (purpose : Purpose) :
    stepWeight (.going (.refresh slot scope purpose .queued), none, w₁) <
      (Job.refresh slot scope purpose .arriving).weight w := by
  have aside := w.attempt_aside id slot c scope .arriving
  rw [attempted] at aside
  have makes : w₁.makes = w.makes := aside.makes
  have heavy := Job.le_refreshWeight w slot
  show Job.purposeWeight w₁ purpose + (Job.refreshWeight w₁ slot - 1) + 0 <
    Job.purposeWeight w purpose + Job.refreshWeight w slot
  rw [Job.purposeWeight_eq makes, Job.refreshWeight_eq makes]
  omega

/-- **A refresh has less to do if the call of its inner check has.** -/
theorem calls_lighter (spaced : w.Spaced) (cached : w.cache? slot = some c)
    (attempted : w.attempt id slot c scope phase = .calls limit flight w₁) (purpose : Purpose)
    (less : (w₁.callInner limit flight).1.weight < flight.weight) :
    stepWeight (w₁.goOnRefresh slot c scope purpose limit flight) <
      (Job.refresh slot scope purpose phase).weight w := by
  have aside := w.attempt_aside id slot c scope phase
  rw [attempted] at aside
  have makes : (w₁.callInner limit flight).2.makes = w.makes :=
    (w₁.callInner_later limit flight).makes.trans aside.makes
  have most := attempt_weight cached attempted purpose
  have turn := refreshTurn_weight makes spaced slot c scope limit purpose
    (w₁.callInner limit flight).1
  rw [goOnRefresh_eq]
  omega

/-- **A step of a refresh** changes nothing, or leaves less to do. -/
theorem stepRefresh_lighter (spaced : w.Spaced) (cached : w.cache? slot = some c) :
    w.stepRefresh id slot c scope purpose phase =
        (.going (.refresh slot scope purpose phase), none, w) ∨
      stepWeight (w.stepRefresh id slot c scope purpose phase) <
        (Job.refresh slot scope purpose phase).weight w := by
  rw [stepRefresh_eq]
  cases attempted : w.attempt id slot c scope phase with
  | refused cause w₁ => exact .inr (refused_lighter spaced attempted purpose)
  | waits w₁ =>
    rcases attempt_waits attempted with ⟨rfl, -⟩ | ⟨rfl, rfl, -⟩
    · exact .inr (waits_lighter attempted purpose)
    · exact .inl rfl
  | calls limit flight w₁ =>
    rcases attempt_calls attempted with ⟨rfl, rfl⟩ | ⟨-, rfl, -⟩
    · rcases w₁.callInner_lighter limit flight with same | less
      · simp only [goOnRefresh_eq, same]
        exact .inl rfl
      · exact .inr (calls_lighter spaced cached attempted purpose less)
    · exact .inr (calls_lighter spaced cached attempted purpose (w₁.callInner_fresh limit c.inner))

/-! ## Loops -/

/-- A loop is not behind: while it is live, its next tick is not over. -/
def Prompt (w : World) (slot : Nat) (scope : ScopeId) : Prop :=
  w.cause? scope = none → ∀ l, w.loops[slot]? = some (some l) → l.scope = scope → w.now ≤ l.nextTick

/-- The tick that a loop takes puts the next one off. -/
theorem ticked_loops {l' : Loop} (found : (w.ticked slot).loops[slot]? = some (some l')) :
    ∃ (c : Cache) (l : Loop), w.cache? slot = some c ∧ w.loops[slot]? = some (some l) ∧
      l' = { l with nextTick := l.nextTick + c.interval } := by
  have loops : (w.ticked slot).loops[slot]? = ((w.caches.modify slot fun c => { c with
      loop := c.loop.map fun l => { l with nextTick := l.nextTick + c.interval } }).map
        (·.loop))[slot]? := rfl
  rw [loops, List.getElem?_map, List.getElem?_modify] at found
  obtain ⟨_, there, loop⟩ := Option.map_eq_some_iff.mp found
  obtain ⟨c, cached, after⟩ := Option.map_eq_some_iff.mp there
  rw [if_pos rfl] at after
  cases after
  obtain ⟨l, kept, rfl⟩ := Option.map_eq_some_iff.mp loop
  exact ⟨c, l, cached, (loops_at cached).trans (congrArg some kept), rfl⟩

/-- **A loop that is not behind is ahead once it has taken its tick.** -/
theorem ticked_weight (spaced : w.Spaced) (live : w.cause? scope = none)
    (prompt : w.Prompt slot scope) (now : w₁.now = w.now)
    (loops : w₁.loops = (w.ticked slot).loops) : (Job.loop slot scope).weight w₁ = 1 := by
  rcases Job.weight_loop w₁ slot scope with ⟨⟨l', found, same, tick⟩, -⟩ | ⟨-, one⟩
  · rw [loops] at found
    obtain ⟨c, l, cached, kept, rfl⟩ := ticked_loops found
    have positive := spaced.interval c cached
    have behind := prompt live l kept same
    simp only [now] at tick
    omega
  · exact one

/-- **A step of a loop** changes nothing, while its tick is still to come, or leaves less to do. -/
theorem stepLoop_lighter (spaced : w.Spaced) (strict : w.grace = false)
    (cached : w.cache? slot = some c) (prompt : w.Prompt slot scope) :
    ¬ w.Due slot scope ∧ w.stepLoop slot c scope = (.going (.loop slot scope), none, w) ∨
      stepWeight (w.stepLoop slot c scope) < (Job.loop slot scope).weight w := by
  -- a loop that takes its tick weighs as much as the refresh that the tick may set off
  have weighs (due : (c.loop.any fun l => l.scope == scope && l.nextTick ≤ w.now) = true) :
      (Job.loop slot scope).weight w = Job.refreshWeight w slot + 1 :=
    (Job.weight_loop w slot scope).elim And.right
      fun idle => absurd ((due_iff cached).mpr due) idle.1
  have heavy := Job.le_refreshWeight w slot
  have cases := w.stepLoop_cases slot c scope
  generalize w.stepLoop slot c scope = r at cases ⊢
  cases cases with
  | stops cause ended =>
    right
    show 0 + 0 < _
    rcases Job.weight_loop w slot scope with ⟨-, weighs⟩ | ⟨-, weighs⟩ <;> omega
  | rests live early => exact .inl ⟨fun due => early ((due_iff cached).mp due), rfl⟩
  | ticks live due idle =>
    right
    have one : (Job.loop slot scope).weight ((w.ticked slot).granted slot) = 1 :=
      ticked_weight spaced live prompt rfl (loops_modifyCache_same _ slot fun _ => rfl)
    have aside := (w.ticked_aside slot).trans (granted_aside _ slot)
    have same := Job.refreshWeight_eq aside.makes slot
    have weighs := weighs due
    show (Job.loop slot scope).weight ((w.ticked slot).granted slot) +
      (0 + (Job.refreshWeight ((w.ticked slot).granted slot) slot - 2)) < _
    omega
  | skips live due busy =>
    right
    have one : (Job.loop slot scope).weight ((w.ticked slot).skipped c) = 1 :=
      ticked_weight spaced live prompt rfl rfl
    have weighs := weighs due
    show (Job.loop slot scope).weight ((w.ticked slot).skipped c) + 0 < _
    omega
  | ticksLast _ _ last | skipsLast _ _ last => simp [tickLeft, strict] at last

end World

/-! ## Steps -/

/-- The job is not behind. -/
def Job.Prompt (w : World) : Job → Prop
  | loop slot scope => w.Prompt slot scope
  | call _ _ _ | refresh _ _ _ _ | work _ _ | watch _ _ | sleep _ => True

/-- **A step of a job that is not behind** changes nothing, or leaves less to do, if what has ended
gets no turn more. -/
theorem Job.step_lighter {w : World} (id : JobId) (job : Job) (spaced : w.Spaced)
    (strict : w.grace = false) (prompt : job.Prompt w) :
    job.step id w = (.going job, none, w) ∨ stepWeight (job.step id w) < job.weight w := by
  cases job with
  | call name scope flight =>
    simp only [Job.step]
    rcases flight.step_lighter scope w with same | less
    · rw [same]
      exact .inl rfl
    · right
      rcases taken : flight.step scope w with ⟨turn, w'⟩
      rw [taken] at less
      cases turn with
      | still next =>
        show next.weight + 1 + 0 < flight.weight + 1
        exact Nat.succ_lt_succ less
      | done | panicked => exact Nat.succ_pos _
  | refresh slot scope purpose phase =>
    simp only [Job.step]
    cases cached : w.cache? slot with
    | none =>
      right
      have heavy := le_refreshWeight w slot
      show 0 + 0 < _
      cases phase <;> simp only [weight] <;> omega
    | some c => exact World.stepRefresh_lighter spaced cached
  | loop slot scope =>
    simp only [Job.step]
    cases cached : w.cache? slot with
    | none =>
      right
      show 0 + 0 < _
      rcases weight_loop w slot scope with ⟨-, weighs⟩ | ⟨-, weighs⟩ <;> omega
    | some c => exact (World.stepLoop_lighter spaced strict cached prompt).imp_left And.right
  | work scope wake | watch scope wake =>
    simp only [Job.step]
    cases w.cause? scope with
    | some cause => exact .inr Nat.one_pos
    | none =>
      by_cases due : wake ≤ w.now
      · simp only [if_pos due]
        exact .inr Nat.one_pos
      · left
        simp only [if_neg due]
  | sleep wake =>
    simp only [Job.step]
    by_cases due : wake ≤ w.now
    · simp only [if_pos due]
      exact .inr Nat.one_pos
    · left
      simp only [if_neg due]

end HealthTree
