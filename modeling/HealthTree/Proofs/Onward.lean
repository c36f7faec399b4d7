import HealthTree.Proofs.Fair
import HealthTree.Proofs.Limits

/-!
# Going on towards quiet

While time stands still every step of a job that changes anything makes the sum of all weights
smaller. For the job itself that is a matter of its phases. For the others it is that their weights
do not grow, and only loops could: a loop weighs more while its tick is due. So it is said of a step
that no loop becomes due by it (`World.Onward`), and then no other job weighs more after it
(`Job.weight_le`).

Going on also never takes away what a cache has to serve, and ends no scope that there was
(`Later.cause?`).
-/

namespace HealthTree

/-! ## Scopes at one instant -/

namespace Scopes

variable {s : Scopes} {now : Nat} {parent : ScopeId} {deadline : Option Nat}

/-- A derived scope has the deadline of the one that it comes from, or its own if that is earlier. -/
theorem derive_deadline? (s : Scopes) (scope : ScopeId) (deadline : Option Nat) :
    (s.derive scope deadline).2.deadline? s.next = earlier (s.deadline? scope) deadline := by
  have new : (s.derive scope deadline).2.node? s.next = some _ := List.getElem?_concat_length
  rw [deadline?, new]
  rfl

/-- A derived scope is live if the one it comes from is and its own deadline is ahead, and not
otherwise. -/
theorem derive_cause?_eq_none :
    (s.derive parent deadline).2.cause? now s.next = none ↔
      s.cause? now parent = none ∧ ∀ d, deadline = some d → now < d := by
  have cancelled : (s.derive parent deadline).2.isCancelled s.next = s.isCancelled parent := by
    have here : (s.derive parent deadline).2.node? s.next = some _ := List.getElem?_concat_length
    rw [isCancelled, here]
    rfl
  unfold cause?
  rw [cancelled, derive_deadline?]
  cases s.isCancelled parent with
  | true => simp
  | false => cases s.deadline? parent <;> cases deadline <;> grind [earlier]

end Scopes

namespace World

variable {w w' w'' : World} {slot : Nat} {c : Cache} {scope : ScopeId} {o : Outcome}

/-- **Going on ends no scope** that there was. -/
theorem Later.cause? (later : w.Later w') (old : scope < w.scopes.next) :
    w'.cause? scope = w.cause? scope := by
  obtain ⟨new, nodes⟩ := later.scopes
  have node : w'.scopes.node? scope = w.scopes.node? scope := by
    rw [Scopes.node?, nodes, List.getElem?_append_left old]
    rfl
  simp only [World.cause?, Scopes.cause?, Scopes.isCancelled, Scopes.deadline?, node, later.now]
  rfl

/-! ## What going on keeps -/

/-- **One world comes after another at the same instant, and nothing is lost by it**: caches that
have something to serve still do, and a loop that is due was due before. -/
structure Onward (w w' : World) : Prop extends w.Later w' where
  primed : ∀ slot, w.Primed slot → w'.Primed slot
  loops : ∀ (slot : Nat) (l' : Loop), w'.loops[slot]? = some (some l') → w'.now < l'.nextTick ∨
    ∃ l, w.loops[slot]? = some (some l) ∧ l.scope = l'.scope ∧ l.nextTick ≤ l'.nextTick

namespace Onward

theorem of_same (later : w.Later w') (states : w'.states = w.states) (loops : w'.loops = w.loops) :
    w.Onward w' where
  toLater := later
  primed slot primed := by
    unfold Primed
    rw [states]
    exact primed
  loops slot l' found := .inr ⟨l', loops ▸ found, rfl, Nat.le_refl _⟩

theorem refl (w : World) : w.Onward w :=
  .of_same (Aside.refl w).toLater rfl rfl

theorem trans (first : w.Onward w') (second : w'.Onward w'') : w.Onward w'' where
  toLater := first.toLater.trans second.toLater
  primed slot primed := second.primed slot (first.primed slot primed)
  loops slot l'' found := by
    rcases second.loops slot l'' found with ahead | ⟨l', found', scope', le'⟩
    · exact .inl ahead
    · rcases first.loops slot l' found' with ahead | ⟨l, found, scope, le⟩
      · rw [second.now]
        exact .inl (Nat.lt_of_lt_of_le ahead le')
      · exact .inr ⟨l, found, scope.trans scope', Nat.le_trans le le'⟩

end Onward

theorem loops_at (cached : w.cache? slot = some c) : w.loops[slot]? = some c.loop := by
  show (w.caches.map (·.loop))[slot]? = _
  rw [List.getElem?_map, show w.caches[slot]? = some c from cached]
  rfl

/-- The tick of the loop that a cache keeps under this scope is due. -/
def Due (w : World) (slot : Nat) (scope : ScopeId) : Prop :=
  ∃ l, w.loops[slot]? = some (some l) ∧ l.scope = scope ∧ l.nextTick ≤ w.now

theorem due_iff (cached : w.cache? slot = some c) :
    w.Due slot scope ↔ (c.loop.any fun l => l.scope == scope && l.nextTick ≤ w.now) = true := by
  unfold Due
  rw [loops_at cached]
  cases c.loop <;> simp

/-- Going on makes no tick due. -/
theorem Onward.due (on : w.Onward w') (due : w'.Due slot scope) : w.Due slot scope := by
  obtain ⟨l', found', rfl, tick'⟩ := due
  rcases on.loops slot l' found' with ahead | ⟨l, found, same, le⟩
  · exact absurd tick' (Nat.not_le_of_lt ahead)
  · exact ⟨l, found, same, Nat.le_trans le (on.now ▸ tick')⟩

/-- An outcome that is committed gives the cache something to serve, and takes nothing from any. -/
theorem commit_primed {other : Nat} (primed : w.Primed other ∨ other = slot) :
    (w.commit slot c o).Primed other := by
  unfold Primed at primed ⊢
  rw [states_commit, List.getElem?_modify, Option.map_eq_map]
  rcases primed with primed | rfl
  · by_cases same : slot = other
    · cases w.states[other]? <;> simp [same]
    · simpa [same] using primed
  · cases w.states[other]? <;> simp

theorem commit_onward : w.Onward (w.commit slot c o) where
  toLater := (Aside.commit w slot c o).toLater
  primed _ primed := commit_primed (.inl primed)
  loops there l found := by
    have same : (w.commit slot c o).loops = w.loops := loops_modifyCache_same _ slot fun _ => rfl
    exact .inr ⟨l, same ▸ found, rfl, Nat.le_refl _⟩

theorem tell_onward (es : List Event) : w.Onward (w.tell es) :=
  .of_same (Aside.tell w es).toLater rfl rfl

theorem unlock_onward : w.Onward (w.unlock slot) :=
  .of_same (Aside.unlock w slot).toLater (w.states_unlock slot)
    (loops_modifyCache_same w slot fun _ => rfl)

/-- A loop that is seen to ticks after now. -/
theorem ensureLoop_onward (positive : ∀ c, w.cache? slot = some c → 0 < c.interval) :
    w.Onward (w.ensureLoop slot c scope).2 := by
  refine ⟨(w.ensureLoop_aside slot c scope).toLater,
    fun there primed => ?_, fun there l found => ?_⟩
  · unfold Primed
    rw [ensureLoop_states]
    exact primed
  -- both ways the loop of one cache is changed, and its next tick is an interval ahead
  have changed {w' : World} {f : Cache → Cache} (now : w'.now = w.now)
      (caches : w'.caches = w.caches.modify slot f)
      (ahead : ∀ c l, w.cache? slot = some c → (f c).loop = some l → w.now < l.nextTick)
      (found : w'.loops[there]? = some (some l)) :
      w'.now < l.nextTick ∨
        ∃ l', w.loops[there]? = some (some l') ∧ l'.scope = l.scope ∧ l'.nextTick ≤ l.nextTick := by
    unfold loops at found
    rw [caches, List.getElem?_map, List.getElem?_modify] at found
    obtain ⟨new, there', loop⟩ := Option.map_eq_some_iff.mp found
    obtain ⟨old, before, after⟩ := Option.map_eq_some_iff.mp there'
    by_cases here : slot = there
    · subst here
      rw [if_pos rfl] at after
      rw [now]
      exact .inl (ahead old l before (after ▸ loop))
    · rw [if_neg here] at after
      cases after
      exact .inr ⟨l, (loops_at before).trans (congrArg some loop), rfl, Nat.le_refl _⟩
  unfold ensureLoop at found ⊢
  cases runs : w.loopRuns c with
  | true =>
    rw [runs, if_pos rfl] at found
    refine changed rfl rfl ?_ found
    intro c l cached after
    obtain ⟨l', -, rfl⟩ := Option.map_eq_some_iff.mp after
    exact Nat.lt_add_of_pos_right (positive c cached)
  | false =>
    rw [runs, if_neg Bool.false_ne_true] at found
    refine changed rfl rfl ?_ found
    rintro c l cached ⟨⟩
    exact Nat.lt_add_of_pos_right (positive c cached)

/-- A loop that is set off runs under a scope that comes from the given one, and its first tick is
ahead. -/
theorem ensureLoop_started (positive : ∀ c, w.cache? slot = some c → 0 < c.interval) {new : JobId}
    {job : Job} (started : (w.ensureLoop slot c scope).1 = some (new, job)) :
    job = .loop slot w.scopes.next ∧
      (w.ensureLoop slot c scope).2.scopes = (w.scopes.derive scope none).2 ∧
      ∀ l, (w.ensureLoop slot c scope).2.loops[slot]? = some (some l) → w.now < l.nextTick := by
  unfold ensureLoop at started ⊢
  cases runs : w.loopRuns c with
  | true =>
    rw [runs, if_pos rfl] at started
    cases started
  | false =>
    rw [runs, if_neg Bool.false_ne_true] at started
    cases started
    rw [if_neg Bool.false_ne_true]
    refine ⟨rfl, rfl, ?_⟩
    intro l found
    have loops : (w.spawnLoop slot c scope).2.loops[slot]? =
        ((w.caches.modify slot fun c => { c with
          loop := some ⟨w.scopes.next, w.now + c.interval⟩
          past := c.loop.toList ++ c.past }).map (·.loop))[slot]? := rfl
    rw [loops, List.getElem?_map, List.getElem?_modify] at found
    obtain ⟨_, there, loop⟩ := Option.map_eq_some_iff.mp found
    obtain ⟨old, before, after⟩ := Option.map_eq_some_iff.mp there
    rw [if_pos rfl] at after
    cases after
    cases loop
    exact Nat.lt_add_of_pos_right (positive old before)

end World

/-! ## Weights -/

namespace Job

variable {w w' : World}

theorem refreshWeight_eq (makes : w'.makes = w.makes) (slot : Nat) :
    refreshWeight w' slot = refreshWeight w slot := by
  have there : (w'.cache? slot).map Cache.make = (w.cache? slot).map Cache.make := by
    show w'.caches[slot]?.map Cache.make = w.caches[slot]?.map Cache.make
    rw [← List.getElem?_map, ← List.getElem?_map]
    exact congrArg (·[slot]?) makes
  have weighed (x : World) : refreshWeight x slot =
      (((x.cache? slot).map Cache.make).elim 0 fun make => Flight.weightOfCheck make.1) + 8 := by
    unfold refreshWeight
    cases x.cache? slot <;> rfl
  rw [weighed, weighed, there]

/-- There is always something left to do for a refresh that has not begun. -/
theorem le_refreshWeight (w : World) (slot : Nat) : 8 ≤ refreshWeight w slot := by
  unfold refreshWeight
  cases w.cache? slot with
  | none => exact Nat.le_refl 8
  | some c => exact Nat.le_add_left 8 _

theorem purposeWeight_eq (makes : w'.makes = w.makes) (purpose : Purpose) :
    purposeWeight w' purpose = purposeWeight w purpose := by
  cases purpose with
  | force | tick => rfl
  | start rest =>
    unfold purposeWeight
    rw [funext (refreshWeight_eq makes)]

/-- A loop weighs more while its tick is due. -/
theorem weight_loop (w : World) (slot : Nat) (scope : ScopeId) :
    w.Due slot scope ∧ (loop slot scope).weight w = refreshWeight w slot + 1 ∨
      ¬ w.Due slot scope ∧ (loop slot scope).weight w = 1 := by
  simp only [weight]
  cases cached : w.cache? slot with
  | none =>
    refine .inr ⟨?_, rfl⟩
    rintro ⟨l, found, -⟩
    obtain ⟨c, there, -⟩ := Option.map_eq_some_iff.mp (List.getElem?_map ▸ found)
    rw [show w.caches[slot]? = none from cached] at there
    cases there
  | some c =>
    by_cases due : w.Due slot scope
    · exact .inl ⟨due, if_pos ((World.due_iff cached).mp due)⟩
    · exact .inr ⟨due, if_neg fun ticks => due ((World.due_iff cached).mpr ticks)⟩

/-- **No other job gets heavier** where no tick becomes due. -/
theorem weight_le (makes : w'.makes = w.makes)
    (dues : ∀ slot scope, w'.Due slot scope → w.Due slot scope) (job : Job) :
    job.weight w' ≤ job.weight w := by
  cases job with
  | call | work | watch | sleep => exact Nat.le_refl _
  | refresh slot scope purpose phase =>
    simp only [weight, purposeWeight_eq makes, refreshWeight_eq makes]
    exact Nat.le_refl _
  | loop slot scope =>
    have same := refreshWeight_eq makes slot
    rcases weight_loop w slot scope with ⟨due, weight⟩ | ⟨idle, weight⟩ <;>
      rcases weight_loop w' slot scope with ⟨due', weight'⟩ | ⟨idle', weight'⟩
    · omega
    · omega
    · exact absurd (dues slot scope due') idle
    · omega

end Job

/-- What is left to do for the job after a step. -/
def JobTurn.weight (w : World) : JobTurn → Nat
  | going job => job.weight w
  | finished _ | gone => 0

/-- What there is to do for a job that was set off. -/
def spawnedWeight (w : World) : Spawned → Nat
  | some (_, job) => job.weight w
  | none => 0

/-- **What is left to do after a step**, for the job and for the one that it sets off. -/
def stepWeight (r : JobTurn × Spawned × World) : Nat :=
  r.1.weight r.2.2 + spawnedWeight r.2.2 r.2.1

end HealthTree
