import HealthTree.Proofs.Assembly

/-!
# The scope that cuts a refresh off

A refresh calls its inner check under a scope of its own, its limit, which ends after half the
interval. The limit is derived from the scope that the refresh was asked under, and nobody else can
cancel it: it is not handed out, and it is not the scope of a loop (`Machine.Sheltered`, kept by
every run). So a limit that ends while the scope it comes from is live has ended for one reason
only, its deadline (`Below.cause`).
-/

namespace HealthTree

namespace Scopes

/-! ## Cancelling marks a scope and what comes from it -/

theorem markBelow_before (target : ScopeId) (before rest : List ScopeNode) {i : Nat}
    (gone : i < before.length) : (markBelow target before rest)[i]? = before[i]? := by
  induction rest generalizing before with
  | nil => rfl
  | cons n rest ih =>
    rw [markBelow, ih _ (by simp; omega), List.getElem?_append_left gone]

theorem markBelow_length (target : ScopeId) (before rest : List ScopeNode) :
    (markBelow target before rest).length = before.length + rest.length := by
  induction rest generalizing before with
  | nil => rfl
  | cons n rest ih =>
    rw [markBelow, ih]
    simp [Nat.add_assoc, Nat.add_comm 1]

@[simp] theorem cancel_next (s : Scopes) (target : ScopeId) : (s.cancel target).next = s.next := by
  simp [cancel, next, markBelow_length]

/-- What becomes of a node when it is gone through, after these. -/
private def marked (target : ScopeId) (before : List ScopeNode) (n : ScopeNode) : ScopeNode :=
  { n with cancelled := n.cancelled || before.length == target || match n.parent with
      | some p => (before[p]?).any (·.cancelled)
      | none => false }

private theorem markBelow_cons (target : ScopeId) (before rest : List ScopeNode) (n : ScopeNode) :
    markBelow target before (n :: rest) =
      markBelow target (before ++ [marked target before n]) rest :=
  rfl

/-- A cancelled node stays cancelled. -/
theorem markBelow_cancelled (target : ScopeId) (before rest : List ScopeNode) {i : Nat}
    (cancelled : (rest[i]?).any (·.cancelled)) :
    ((markBelow target before rest)[before.length + i]?).any (·.cancelled) := by
  induction rest generalizing before i with
  | nil => simp at cancelled
  | cons first rest ih =>
    rw [markBelow_cons]
    cases i with
    | zero =>
      have here : first.cancelled = true := by simpa using cancelled
      rw [Nat.add_zero, markBelow_before _ _ _ (by simp), List.getElem?_concat_length]
      simp [marked, here]
    | succ i =>
      have later := ih (before ++ [marked target before first]) (by simpa using cancelled)
      rw [List.length_append, List.length_singleton, Nat.add_assoc, Nat.add_comm 1] at later
      exact later

/-- The node at a place once all are gone through: it is marked if it was, if it is the target, or
if the one it comes from, which is at an earlier place, is. -/
theorem markBelow_node (target : ScopeId) (before rest : List ScopeNode) {i : Nat} {n : ScopeNode}
    (found : rest[i]? = some n)
    (earlier : ∀ parent, n.parent = some parent → parent < before.length + i) :
    (markBelow target before rest)[before.length + i]? = some { n with
      cancelled := n.cancelled || (before.length + i == target) ||
        n.parent.any fun parent =>
          ((markBelow target before rest)[parent]?).any (·.cancelled) } := by
  induction rest generalizing before i with
  | nil => cases found
  | cons first rest ih =>
    rw [markBelow_cons]
    cases i with
    | zero =>
      cases found
      rw [Nat.add_zero] at earlier ⊢
      rw [markBelow_before _ _ _ (by simp), List.getElem?_concat_length, marked]
      cases comes : n.parent with
      | none => simp
      | some parent =>
        have lt := earlier parent comes
        rw [Option.any_some, markBelow_before target (before ++ [_]) rest
          (by rw [List.length_append]; exact Nat.lt_add_right _ lt),
          List.getElem?_append_left lt]
    | succ i =>
      have later := ih (before ++ [marked target before first]) found
        (fun parent comes => by
          rw [List.length_append, List.length_singleton, Nat.add_assoc, Nat.add_comm 1]
          exact earlier parent comes)
      rw [List.length_append, List.length_singleton, Nat.add_assoc, Nat.add_comm 1] at later
      exact later

/-- The node of a scope that comes from another. -/
theorem markBelow_get (target : ScopeId) (before rest : List ScopeNode) {i : Nat} {n : ScopeNode}
    (found : rest[i]? = some n) {parent : Nat} (comes : n.parent = some parent)
    (earlier : parent < before.length + i) :
    (markBelow target before rest)[before.length + i]? = some { n with
      cancelled := n.cancelled || (before.length + i == target) ||
        ((markBelow target before rest)[parent]?).any (·.cancelled) } := by
  have node := markBelow_node target before rest found fun p comes' => by
    rw [comes] at comes'
    exact Option.some.inj comes' ▸ earlier
  rw [node]
  simp only [comes, Option.any_some]

/-- **A scope that comes from another is cancelled with it only**, or by itself. -/
structure Below (s : Scopes) (scope limit : ScopeId) : Prop where
  comes : ∃ n, s.node? limit = some n ∧ n.parent = some scope
  earlier : scope < limit
  cancelled : s.isCancelled limit = true → s.isCancelled scope = true

variable {s : Scopes} {scope limit other : ScopeId}

theorem isCancelled_append (new : List ScopeNode) {i : ScopeId} (old : i < s.next) :
    (⟨s.nodes ++ new⟩ : Scopes).isCancelled i = s.isCancelled i := by
  simp only [isCancelled, node?]
  rw [List.getElem?_append_left old]

theorem Below.lt_next (below : s.Below scope limit) : limit < s.next := by
  obtain ⟨n, found, -⟩ := below.comes
  exact (List.getElem?_eq_some_iff.mp found).1

/-- A derived scope comes from the one that it is derived from. -/
theorem derive_below (known : scope < s.next) (deadline : Option Nat) :
    (s.derive scope deadline).2.Below scope s.next := by
  refine ⟨⟨_, List.getElem?_concat_length, rfl⟩, known, fun cancelled => ?_⟩
  rw [derive, isCancelled_append _ known]
  simpa [isCancelled, node?, derive, next] using cancelled

theorem Below.append (below : s.Below scope limit) (new : List ScopeNode) :
    (⟨s.nodes ++ new⟩ : Scopes).Below scope limit := by
  obtain ⟨n, found, comes⟩ := below.comes
  refine ⟨⟨n, ?_, comes⟩, below.earlier, ?_⟩
  · rw [node?, List.getElem?_append_left below.lt_next]
    exact found
  · rw [isCancelled_append _ below.lt_next,
      isCancelled_append _ (Nat.lt_trans below.earlier below.lt_next)]
    exact below.cancelled

/-- Cancelling another scope leaves it so. -/
theorem Below.cancel (below : s.Below scope limit) (apart : limit ≠ other) :
    (s.cancel other).Below scope limit := by
  obtain ⟨n, found, comes⟩ := below.comes
  have after := markBelow_get other [] s.nodes found comes (by simpa using below.earlier)
  simp only [List.length_nil, Nat.zero_add, beq_eq_false_iff_ne.mpr apart, Bool.or_false] at after
  refine ⟨⟨_, after, comes⟩, below.earlier, ?_⟩
  intro cancelled
  simp only [isCancelled, node?, Scopes.cancel, after, Option.any_some, Bool.or_eq_true]
    at cancelled ⊢
  rcases cancelled with before | above
  · have held := below.cancelled (by simp [isCancelled, found, before])
    simpa using markBelow_cancelled other [] s.nodes held
  · exact above

/-- **A scope ends before the one that it comes from for one reason only**, its deadline. -/
theorem Below.cause (below : s.Below scope limit) {now : Nat} {cause : Fault}
    (ended : s.cause? now limit = some cause) (live : s.cause? now scope = none) :
    cause = .deadlineExceeded := by
  unfold cause? at ended live
  split at ended
  · rename_i cancelled
    rw [if_pos (below.cancelled cancelled)] at live
    cases live
  · split at ended
    · split at ended <;> cases ended
      rfl
    · cases ended

end Scopes

namespace World

/-- The scope of the loop of each cache. -/
def loopScopes (w : World) : List (Option ScopeId) :=
  w.caches.map fun c => c.loop.map (·.scope)

/-- New loops run under scopes that are new. -/
structure OpensNew (w w' : World) : Prop where
  grows : w.scopes.next ≤ w'.scopes.next
  new : ∀ id, some id ∈ w'.loopScopes →
    some id ∈ w.loopScopes ∨ w.scopes.next ≤ id ∧ id < w'.scopes.next

variable {w w' w'' : World} {slot : Nat} {c : Cache} {scope limit : ScopeId} {purpose : Purpose}

theorem loopScopes_modifyCache_same {f : Cache → Cache}
    (same : ∀ c, (f c).loop.map (·.scope) = c.loop.map (·.scope)) :
    (w.modifyCache slot f).loopScopes = w.loopScopes :=
  map_modify_same same w.caches slot

theorem loopScopes_modifyCache {f : Cache → Cache} {g : Option ScopeId → Option ScopeId}
    (comm : ∀ c, (f c).loop.map (·.scope) = g (c.loop.map (·.scope))) :
    (w.modifyCache slot f).loopScopes = w.loopScopes.modify slot g :=
  map_modify_comm comm w.caches slot

theorem OpensNew.of_same (later : w.Later w') (same : w'.loopScopes = w.loopScopes) :
    w.OpensNew w' :=
  ⟨later.next_le, fun _ mem => .inl (same ▸ mem)⟩

theorem OpensNew.trans (first : w.OpensNew w') (second : w'.OpensNew w'') : w.OpensNew w'' := by
  refine ⟨Nat.le_trans first.grows second.grows, ?_⟩
  intro id mem
  rcases second.new id mem with mem | ⟨ge, lt⟩
  · rcases first.new id mem with mem | ⟨ge, lt⟩
    · exact .inl mem
    · exact .inr ⟨ge, Nat.lt_of_lt_of_le lt second.grows⟩
  · exact .inr ⟨Nat.le_trans first.grows ge, lt⟩

theorem ensureLoop_opens : w.OpensNew (w.ensureLoop slot c scope).2 := by
  have grows := (w.ensureLoop_aside slot c scope).next_le
  refine ⟨grows, ?_⟩
  intro id mem
  unfold ensureLoop at mem grows ⊢
  cases runs : w.loopRuns c with
  | true =>
    rw [runs, if_pos rfl] at mem
    refine .inl ?_
    have same : (w.modifyCache slot fun c => { c with
        loop := c.loop.map fun l => { l with nextTick := w.now + c.interval } }).loopScopes =
        w.loopScopes :=
      loopScopes_modifyCache_same fun c => by simp [Function.comp_def]
    exact same ▸ mem
  | false =>
    rw [runs, if_neg Bool.false_ne_true] at mem
    have changed : (w.spawnLoop slot c scope).2.loopScopes =
        w.loopScopes.modify slot fun _ => some w.scopes.next :=
      loopScopes_modifyCache fun _ => rfl
    rw [changed, List.mem_iff_getElem?] at mem
    obtain ⟨i, found⟩ := mem
    rw [List.getElem?_modify] at found
    obtain ⟨old, before, now⟩ := Option.map_eq_some_iff.mp found
    by_cases here : slot = i
    · rw [if_pos here] at now
      cases now
      refine .inr ⟨Nat.le_refl _, ?_⟩
      simp [spawnLoop, Scopes.withCancel, Scopes.derive, Scopes.next, tell, modifyCache]
    · rw [if_neg here] at now
      exact .inl (now ▸ List.mem_of_getElem? before)

theorem conclude_opens {fault : Option Fault} :
    w.OpensNew (w.conclude slot c scope fault purpose).2.2 := by
  cases purpose with
  | force | tick => exact .of_same (Aside.refl w).toLater rfl
  | start rest => exact .trans (.of_same (Aside.tell w _).toLater rfl) ensureLoop_opens

@[simp] theorem loopScopes_unlock : (w.unlock slot).loopScopes = w.loopScopes :=
  loopScopes_modifyCache_same fun _ => rfl

@[simp] theorem loopScopes_commit {o : Outcome} : (w.commit slot c o).loopScopes = w.loopScopes :=
  loopScopes_modifyCache_same fun _ => rfl

theorem loopScopes_attempt (w : World) (slot : Nat) (c : Cache) (id : JobId) (scope : ScopeId)
    (phase : Phase) :
    (w.attempt id slot c scope phase).world.loopScopes = w.loopScopes :=
  attempt_part w id slot c scope (fun _ _ _ => rfl) phase

theorem refreshTurn_opens {t : Turn} :
    w.OpensNew (w.refreshTurn slot c scope purpose limit t).2.2 := by
  cases t with
  | still flight => exact .of_same (Aside.refl w).toLater rfl
  | panicked => exact .of_same (Aside.unlock w slot).toLater loopScopes_unlock
  | done o =>
    simp only [refreshTurn, finishRefresh]
    cases w.cause? scope with
    | some cause =>
      exact .trans (.of_same ((Aside.tell w _).trans (.unlock _ slot)).toLater loopScopes_unlock)
        conclude_opens
    | none =>
      exact .trans (.of_same ((Aside.commit w slot c o).trans (.unlock _ slot)).toLater
        (loopScopes_unlock.trans loopScopes_commit)) conclude_opens

theorem loopScopes_stopped {id : ScopeId} {past : Cache → List Loop}
    (mem : some id ∈
      (w.modifyCache slot fun c => { c with loop := none, past := past c }).loopScopes) :
    some id ∈ w.loopScopes := by
  rw [loopScopes_modifyCache (g := fun _ => none) fun _ => rfl, List.mem_iff_getElem?] at mem
  obtain ⟨i, found⟩ := mem
  rw [List.getElem?_modify] at found
  obtain ⟨old, before, now⟩ := Option.map_eq_some_iff.mp found
  by_cases here : slot = i
  · rw [if_pos here] at now
    cases now
  · rw [if_neg here] at now
    exact now ▸ List.mem_of_getElem? before

theorem stepLoop_loopScopes : (w.stepLoop slot c scope).2.2.loopScopes = w.loopScopes :=
  stepLoop_part w slot c scope (fun _ _ _ => rfl) fun _ => by simp [Function.comp_def]

end World

/-! ## The scopes of jobs -/

namespace Job

/-- The scope a job runs under. -/
def scope? : Job → Option ScopeId
  | call _ scope _ | refresh _ scope _ _ | loop _ scope | work scope _ | watch scope _ => some scope
  | sleep _ => none

/-- The scope of a refresh that has called its inner check, and the limit of the call. -/
def limit? : Job → Option (ScopeId × ScopeId)
  | refresh _ scope _ (.calling limit _) => some (scope, limit)
  | refresh _ _ _ .arriving | refresh _ _ _ .queued | refresh _ _ _ .granted => none
  | call _ _ _ | loop _ _ | work _ _ | watch _ _ | sleep _ => none

variable {id : JobId} {w : World} {job : Job}

theorem step_opens : w.OpensNew (job.step id w).2.2 := by
  have same := World.OpensNew.of_same (World.Aside.refl w).toLater rfl
  cases job with
  | call name scope flight =>
    refine .of_same (flight.step_later scope w) ?_
    simp [Job.step, World.loopScopes]
  | refresh slot scope purpose phase =>
    simp only [Job.step]
    cases w.cache? slot with
    | none => exact same
    | some c =>
      have before : w.OpensNew (w.attempt id slot c scope phase).world :=
        .of_same (w.attempt_aside id slot c scope phase).toLater (w.loopScopes_attempt ..)
      simp only [World.stepRefresh_eq]
      cases attempted : w.attempt id slot c scope phase with
      | refused cause w₁ =>
        rw [attempted] at before
        exact before.trans World.conclude_opens
      | waits w₁ =>
        rw [attempted] at before
        exact before
      | calls limit flight w₁ =>
        rw [attempted] at before
        simp only [World.goOnRefresh_eq]
        refine before.trans (.trans (.of_same (w₁.callInner_later limit flight) ?_)
          World.refreshTurn_opens)
        rw [World.loopScopes, World.callInner_caches]
        rfl
  | loop slot scope =>
    simp only [Job.step]
    cases w.cache? slot with
    | none => exact same
    | some c =>
      exact .of_same (w.stepLoop_aside slot c scope).toLater World.stepLoop_loopScopes
  | work | watch | sleep => exact same

/-- A job without a limit has none of any kind. -/
theorem limitless {job : Job} (none : job.limit? = none) {P : ScopeId → ScopeId → Prop}
    (scope limit : ScopeId) (its : job.limit? = some (scope, limit)) : P scope limit := by
  rw [none] at its
  cases its

/-- A limit is set under the scope that the job runs under. -/
theorem scope?_of_limit? {scope limit : ScopeId} (its : job.limit? = some (scope, limit)) :
    job.scope? = some scope := by
  cases job with
  | refresh slot own purpose phase =>
    cases phase with
    | calling =>
      cases its
      rfl
    | arriving | queued | granted => cases its
  | call | loop | work | watch | sleep => cases its

/-- **What a step leaves of a job** runs under the scope that the job ran under. If it is a call of
an inner check, its limit is the one it had, or a new one. -/
theorem step_going {next : Job} (going : (job.step id w).1 = .going next) :
    next.scope? = job.scope? ∧ ∀ scope limit, next.limit? = some (scope, limit) →
      job.limit? = some (scope, limit) ∨
        limit = w.scopes.next ∧
        (∃ deadline, (job.step id w).2.2.scopes = (w.scopes.derive scope deadline).2) ∧
        (job.step id w).2.2.loopScopes = w.loopScopes := by
  cases step_goesOn going with
  | @calling slot c scope limit _ phase flight _ w₁ _ calls _ world =>
    refine ⟨rfl, ?_⟩
    rintro _ _ ⟨⟩
    rcases World.attempt_calls calls with ⟨rfl, -⟩ | ⟨rfl, -, scopes⟩
    · exact .inl rfl
    · have scopes' := (w₁.callInner_scopes w.scopes.next flight).trans scopes
      refine .inr ⟨rfl, ⟨some (w.now + c.limit), world ▸ scopes'⟩, ?_⟩
      have same : w₁.loopScopes = w.loopScopes := by
        have same := w.loopScopes_attempt slot c id scope phase
        rwa [calls] at same
      rw [world, World.loopScopes, World.callInner_caches]
      exact same
  | _ => exact ⟨rfl, limitless rfl⟩

end Job

/-! ## Every state of every run -/

namespace World

/-- A scope that something can cancel: it was handed out, or it is the scope of a loop. -/
def Open (w : World) (held : List ScopeId) (id : ScopeId) : Prop :=
  id ∈ held ∨ some id ∈ w.loopScopes

/-- **Limits are sheltered**: each comes from the scope of its refresh, and nothing else can cancel
it. -/
structure Sheltered (w : World) (jobs : List (JobId × Job)) (held : List ScopeId) : Prop where
  opened : ∀ id, w.Open held id → id < w.scopes.next
  scopes : ∀ p ∈ jobs, ∀ scope, p.2.scope? = some scope → scope < w.scopes.next
  limits : ∀ p ∈ jobs, ∀ scope limit, p.2.limit? = some (scope, limit) →
    w.scopes.Below scope limit ∧ ¬ w.Open held limit

namespace Sheltered

variable {w w' : World} {jobs jobs' : List (JobId × Job)} {held held' : List ScopeId}

/-- Jobs may be dropped. -/
theorem fewer (sheltered : w.Sheltered jobs held) (sub : jobs' ⊆ jobs) : w.Sheltered jobs' held :=
  ⟨sheltered.opened, fun p mem => sheltered.scopes p (sub mem),
    fun p mem => sheltered.limits p (sub mem)⟩

/-- Scopes may be added, and what can be cancelled may be new. -/
theorem grow (sheltered : w.Sheltered jobs held)
    (grows : ∃ new, w'.scopes.nodes = w.scopes.nodes ++ new)
    (opened : ∀ id, w'.Open held' id →
      w.Open held id ∨ w.scopes.next ≤ id ∧ id < w'.scopes.next) : w'.Sheltered jobs held' := by
  obtain ⟨new, scopes⟩ := grows
  have same : w'.scopes = ⟨w.scopes.nodes ++ new⟩ := by rw [← scopes]
  have more : w.scopes.next ≤ w'.scopes.next := by simp [Scopes.next, scopes]
  refine ⟨?_, fun p mem scope its =>
    Nat.lt_of_lt_of_le (sheltered.scopes p mem scope its) more, ?_⟩
  · intro id open'
    rcases opened id open' with open' | ⟨_, lt⟩
    · exact Nat.lt_of_lt_of_le (sheltered.opened id open') more
    · exact lt
  · intro p mem scope limit its
    obtain ⟨below, shut⟩ := sheltered.limits p mem scope limit its
    refine ⟨same ▸ below.append new, ?_⟩
    intro open'
    rcases opened limit open' with open' | ⟨ge, _⟩
    · exact shut open'
    · exact Nat.lt_irrefl _ (Nat.lt_of_lt_of_le below.lt_next ge)

/-- What can be cancelled may be. -/
theorem cancel (sheltered : w.Sheltered jobs held) {id : ScopeId} (can : w.Open held id) :
    { w with scopes := w.scopes.cancel id }.Sheltered jobs held := by
  refine ⟨?_, ?_, ?_⟩
  · intro other open'
    rw [Scopes.cancel_next]
    exact sheltered.opened other open'
  · intro p mem scope its
    rw [Scopes.cancel_next]
    exact sheltered.scopes p mem scope its
  · intro p mem scope limit its
    obtain ⟨below, shut⟩ := sheltered.limits p mem scope limit its
    exact ⟨below.cancel fun same => shut (same ▸ can), shut⟩

/-- A job may be added whose limit, if it has one, is sheltered too. -/
theorem add (sheltered : w.Sheltered jobs held) {id : JobId} {job : Job}
    (known : ∀ scope, job.scope? = some scope → scope < w.scopes.next)
    (limited : ∀ scope limit, job.limit? = some (scope, limit) →
      w.scopes.Below scope limit ∧ ¬ w.Open held limit) :
    w.Sheltered (jobs ++ [(id, job)]) held := by
  refine ⟨sheltered.opened, ?_, ?_⟩
  · intro p mem
    rcases List.mem_append.mp mem with mem | mem
    · exact sheltered.scopes p mem
    · exact List.mem_singleton.mp mem ▸ known
  · intro p mem
    rcases List.mem_append.mp mem with mem | mem
    · exact sheltered.limits p mem
    · exact List.mem_singleton.mp mem ▸ limited

/-- **A call that an attempt has come to is limited by a scope that comes from its own.** -/
theorem below (sheltered : w.Sheltered jobs held) {id : JobId} {slot : Nat} {scope limit : ScopeId}
    {purpose : Purpose} {phase : Phase} (mem : (id, .refresh slot scope purpose phase) ∈ jobs)
    {c : Cache} {flight : Flight} {w₁ : World}
    (calls : w.attempt id slot c scope phase = .calls limit flight w₁) :
    w₁.scopes.Below scope limit := by
  rcases World.attempt_calls calls with ⟨rfl, rfl⟩ | ⟨rfl, -, scopes⟩
  · exact (sheltered.limits _ mem scope limit rfl).1
  · rw [scopes]
    exact Scopes.derive_below (sheltered.scopes _ mem scope rfl) _

end Sheltered

end World

namespace Machine

/-- The limits of a machine are sheltered, of which these scopes were handed out. -/
abbrev Sheltered (m : Machine) (held : List ScopeId) : Prop :=
  m.world.Sheltered m.jobs held

variable {m : Machine} {held : List ScopeId}

/-- **A step of a job keeps the limits sheltered.** -/
theorem Sheltered.takeTurn (sheltered : m.Sheltered held) (i : Nat) :
    (m.takeTurn i).Sheltered held := by
  unfold Machine.takeTurn
  cases found : m.jobs[i]? with
  | none => exact sheltered
  | some p =>
    obtain ⟨id, job⟩ := p
    have mem : (id, job) ∈ m.jobs := List.mem_of_getElem? found
    have later := job.step_later id m.world
    have opens := @Job.step_opens id m.world job
    have going := @Job.step_going id m.world job
    have spawning := @Job.step_spawned id m.world job
    rcases taken : job.step id m.world with ⟨turn, spawned, w⟩
    simp only [taken] at later opens going spawning ⊢
    have all : w.Sheltered m.jobs held := by
      apply sheltered.grow later.scopes
      intro other open'
      rcases open' with handed | loop
      · exact .inl (.inl handed)
      · exact (opens.new other loop).imp_left .inr
    have rest := all.fewer (List.eraseIdx_subset (l := m.jobs) (k := i))
    -- the job as the step leaves it, before the one that is set off
    have left : w.Sheltered (m.jobs.eraseIdx i ++ turn.left id) held := by
      cases turn with
      | finished | gone => simpa only [JobTurn.left, List.append_nil] using rest
      | going next =>
        obtain ⟨under, limits⟩ := going rfl
        refine rest.add (under ▸ all.scopes _ mem) ?_
        intro scope limit its
        rcases limits scope limit its with its | ⟨rfl, ⟨deadline, scopes⟩, loops⟩
        · exact all.limits _ mem scope limit its
        · have known : scope < m.world.scopes.next :=
            sheltered.scopes _ mem scope (under ▸ Job.scope?_of_limit? its)
          refine ⟨scopes ▸ Scopes.derive_below known deadline, ?_⟩
          intro open'
          have before : m.world.Open held m.world.scopes.next := open'.imp_right (loops ▸ ·)
          exact Nat.lt_irrefl _ (sheltered.opened _ before)
    cases spawned with
    | none => simpa only [Option.toList_none, List.append_nil] using left
    | some p =>
      obtain ⟨new, started⟩ := p
      rw [Option.toList_some, ← List.append_assoc]
      rcases spawning rfl with ⟨slot, own, rfl, -, lt⟩ | ⟨slot, scope, rfl, rfl⟩
      · refine left.add ?_ (Job.limitless rfl)
        intro scope its
        cases its
        exact lt
      · exact left.add (all.scopes _ mem) (Job.limitless rfl)

theorem Sheltered.stop (sheltered : m.Sheltered held) (slot : Nat) :
    (m.stop slot).Sheltered held := by
  unfold Machine.stop
  cases running : (m.world.cache? slot).bind (·.loop) with
  | none => exact sheltered
  | some l =>
    obtain ⟨c, cached, loop⟩ := Option.bind_eq_some_iff.mp running
    have can : m.world.Open held l.scope :=
      .inr (List.mem_map.mpr ⟨c, List.mem_of_getElem? cached, by rw [loop]; rfl⟩)
    exact (World.Sheltered.cancel sheltered can).grow ⟨[], (List.append_nil _).symm⟩
      fun id open' => .inl (open'.imp_right World.loopScopes_stopped)

theorem Sheltered.abort (sheltered : m.Sheltered held) (id : JobId) :
    (m.abort id).Sheltered held := by
  unfold Machine.abort
  cases m.jobs.lookup id with
  | none => exact sheltered
  | some job =>
    have same : (job.drop id m.world).scopes = m.world.scopes ∧
        (job.drop id m.world).loopScopes = m.world.loopScopes := by
      cases job with
      | refresh slot scope purpose phase =>
        cases phase with
        | arriving => exact ⟨rfl, rfl⟩
        | queued | granted | calling =>
          exact ⟨rfl, World.loopScopes_modifyCache_same fun _ => rfl⟩
      | _ => exact ⟨rfl, rfl⟩
    have fewer : m.world.Sheltered (m.jobs.filter (·.1 != id)) held :=
      sheltered.fewer fun _ mem => (List.mem_filter.mp mem).1
    exact fewer.grow ⟨[], by rw [same.1, List.append_nil]⟩
      fun id open' => .inl (open'.imp_right (same.2 ▸ ·))

/-- **What a command changes keeps the limits sheltered.** -/
theorem Sheltered.touch {known : Check → Prop} {p p' : Machine × List ScopeId}
    (sheltered : p.1.Sheltered p.2) (touch : Touch known p p') : p'.1.Sheltered p'.2 := by
  cases touch with
  | background m held =>
    apply sheltered.grow ⟨_, rfl⟩
    intro id open'
    rcases open' with handed | loop
    · rcases List.mem_cons.mp handed with rfl | handed
      · exact .inr ⟨Nat.le_refl _, by simp [withScopes, Scopes.background, Scopes.next]⟩
      · exact .inl (.inl handed)
    · exact .inl (.inr loop)
  | derive m deadline handed =>
    apply sheltered.grow ⟨_, rfl⟩
    intro id open'
    rcases open' with handed | loop
    · rcases List.mem_cons.mp handed with rfl | handed
      · exact .inr ⟨Nat.le_refl _, by simp [withScopes, Scopes.derive, Scopes.next]⟩
      · exact .inl (.inl handed)
    · exact .inl (.inr loop)
  | cancel m handed => exact World.Sheltered.cancel sheltered (.inl handed)
  | stop m held slot => exact sheltered.stop slot
  | @submit m held job asked =>
    refine World.Sheltered.add (w := { m.world with nextJob := m.world.nextJob + 1 })
      ⟨sheltered.opened, sheltered.scopes, sheltered.limits⟩ ?_ ?_
    · intro scope its
      have handed : scope ∈ held := by cases asked <;> cases its <;> assumption
      exact sheltered.opened scope (.inl handed)
    · cases asked <;> exact Job.limitless rfl
  | abort m held id => exact sheltered.abort id
  | forget => exact ⟨sheltered.opened, sheltered.scopes, sheltered.limits⟩

end Machine

/-- A session begins with the scope of the shutdown only. -/
theorem CheckTree.Planned.sheltered {t : CheckTree} {plan : Plan} (planned : t.Planned plan)
    (before : List Event) :
    let s := Scenario.Session.ofTree (some t) before
    s.machine.Sheltered [s.shutdown] := by
  refine ⟨?_, List.forall_mem_nil _, List.forall_mem_nil _⟩
  intro id open'
  rcases open' with handed | loop
  · rw [List.mem_singleton.mp handed]
    exact Nat.zero_lt_one
  · obtain ⟨c, mem, loop⟩ := List.mem_map.mp loop
    rw [planned.assembled.empty c mem] at loop
    cases loop

end HealthTree
