import HealthTree.Proofs.Loops

/-!
# Scopes within scopes

In every state of every run a scope that was derived has ended if the one that it comes from has, and
so if any has that lies further up (`Scopes.Nested`, `Scopes.Covers`). That is what makes it enough
for a refresh to look at its own scope: it knows nothing of the scopes above.

The call of an inner check runs under a scope that comes from that of its refresh. So a refresh whose
scope has ended neither begins such a call nor goes on with it, however far it has come
(`Job.inside_of_ended`).
-/

namespace HealthTree

namespace Scopes

/-- **Every scope ends with the one that it comes from**, if it has not ended before. -/
structure Nested (s : Scopes) : Prop where
  earlier : ∀ scope own, s.parent? own = some scope → scope < own
  cancelled : ∀ scope own, s.parent? own = some scope → s.isCancelled scope = true →
    s.isCancelled own = true
  deadline : ∀ scope own d, s.parent? own = some scope → s.deadline? scope = some d →
    ∃ d' ≤ d, s.deadline? own = some d'

/-- One scope is another, or lies above it: the other comes from it, or from one that does. -/
def Covers (s : Scopes) : ScopeId → ScopeId → Prop :=
  Relation.ReflTransGen fun scope own => s.parent? own = some scope

/-- The deadline of a derived scope is no later than either of those it is made of. -/
theorem earlier_le {d : Nat} (a b : Option Nat) (is : a = some d) :
    ∃ d' ≤ d, earlier a b = some d' := by
  subst is
  cases b with
  | none => exact ⟨d, Nat.le_refl d, rfl⟩
  | some d' => exact ⟨min d d', Nat.min_le_left d d', rfl⟩

/-- A scope that comes from another is there. -/
theorem lt_next_of_parent {s : Scopes} {scope own : ScopeId} (comes : s.parent? own = some scope) :
    own < s.next := by
  obtain ⟨n, found, -⟩ := Option.bind_eq_some_iff.mp comes
  exact (List.getElem?_eq_some_iff.mp found).1

namespace Nested

variable {s : Scopes} {now : Nat} {scope own : ScopeId}

/-- **A scope has ended if the one that it comes from has.** -/
theorem ended (nested : s.Nested) (comes : s.parent? own = some scope)
    (ended : s.cause? now scope ≠ none) : s.cause? now own ≠ none := by
  refine cause?_ne_none.mpr ((cause?_ne_none.mp ended).imp ?_ ?_)
  · exact nested.cancelled scope own comes
  · rintro ⟨d, deadline, passed⟩
    obtain ⟨d', le, deadline'⟩ := nested.deadline scope own d comes deadline
    exact ⟨d', deadline', Nat.le_trans le passed⟩

/-- **And if any has that covers it.** -/
theorem ended_of_covers (nested : s.Nested) {above : ScopeId} (covers : s.Covers above scope)
    (isOver : s.cause? now above ≠ none) : s.cause? now scope ≠ none := by
  induction covers with
  | refl => exact isOver
  | tail _ comes ih => exact nested.ended comes ih

/-- A scope may be added that is nested in another, or that comes from none. -/
theorem append (nested : s.Nested) {n : ScopeNode}
    (fits : ∀ scope, n.parent = some scope → scope < s.next ∧
      (s.isCancelled scope = true → n.cancelled = true) ∧
      ∀ d, s.deadline? scope = some d → ∃ d' ≤ d, n.deadline = some d') :
    (⟨s.nodes ++ [n]⟩ : Scopes).Nested := by
  have last : (⟨s.nodes ++ [n]⟩ : Scopes).node? s.next = some n := List.getElem?_concat_length
  -- what holds of each old scope, and of the new one, holds of all
  have each {P : ScopeId → ScopeId → Prop}
      (old : ∀ scope own, s.parent? own = some scope → own < s.next → scope < s.next → P scope own)
      (new : ∀ scope, n.parent = some scope → P scope s.next) (scope own : ScopeId)
      (comes : (⟨s.nodes ++ [n]⟩ : Scopes).parent? own = some scope) : P scope own := by
    rcases Nat.lt_trichotomy own s.next with lt | rfl | gt
    · rw [parent?, node?_append [n] lt] at comes
      exact old scope own comes lt (Nat.lt_trans (nested.earlier scope own comes) lt)
    · rw [parent?, last] at comes
      exact new scope comes
    · have known := lt_next_of_parent comes
      rw [next, List.length_append, List.length_singleton] at known
      exact absurd known (Nat.not_lt.mpr gt)
  constructor
  · exact each (fun scope own comes _ _ => nested.earlier scope own comes)
      fun scope comes => (fits scope comes).1
  · refine each (fun scope own comes lt lt' => ?_) fun scope comes => ?_
    · rw [isCancelled_append _ lt, isCancelled_append _ lt']
      exact nested.cancelled scope own comes
    · obtain ⟨known, cancelled, -⟩ := fits scope comes
      intro above
      rw [isCancelled_append _ known] at above
      simpa only [isCancelled, last, Option.any_some] using cancelled above
  · intro scope own d comes
    revert d
    refine each (P := fun scope own => ∀ d, (⟨s.nodes ++ [n]⟩ : Scopes).deadline? scope = some d →
      ∃ d' ≤ d, (⟨s.nodes ++ [n]⟩ : Scopes).deadline? own = some d') ?_ ?_ scope own comes
    · intro scope own comes lt lt' d deadline
      rw [deadline?, node?_append [n] lt'] at deadline
      rw [deadline?, node?_append [n] lt]
      exact nested.deadline scope own d comes deadline
    · intro scope comes d deadline
      obtain ⟨known, -, bound⟩ := fits scope comes
      rw [deadline?, node?_append [n] known] at deadline
      rw [deadline?, last]
      exact bound d deadline

theorem background (nested : s.Nested) : s.background.2.Nested :=
  nested.append fun _ comes => by cases comes

theorem derive (nested : s.Nested) (known : scope < s.next) (deadline : Option Nat) :
    (s.derive scope deadline).2.Nested := by
  refine nested.append fun _ comes => ?_
  cases comes
  exact ⟨known, fun cancelled => cancelled, fun d before => earlier_le _ deadline before⟩

/-- **To cancel a scope is to cancel all that it covers.** -/
theorem cancel (nested : s.Nested) (target : ScopeId) : (s.cancel target).Nested := by
  constructor
  · intro scope own comes
    rw [cancel_parent?] at comes
    exact nested.earlier scope own comes
  · intro scope own comes above
    rw [cancel_parent?] at comes
    have lt := nested.earlier scope own comes
    obtain ⟨n, found, parent⟩ := Option.bind_eq_some_iff.mp comes
    have after := markBelow_get target [] s.nodes found parent (by simpa using lt)
    simp only [List.length_nil, Nat.zero_add] at after
    simp only [isCancelled, node?, Scopes.cancel] at above ⊢
    simp [after, above]
  · intro scope own d comes deadline
    rw [cancel_parent?] at comes
    rw [cancel_deadline?] at deadline
    rw [cancel_deadline?]
    exact nested.deadline scope own d comes deadline

end Nested

end Scopes

/-! ## Every step derives scopes from that of its job -/

namespace World

variable {P : Scopes → Prop} {w : World} {slot : Nat} {c : Cache} {scope limit : ScopeId}
  {purpose : Purpose}

theorem conclude_scopes {fault : Option Fault}
    (derive : ∀ s deadline, P s → P (s.derive scope deadline).2) (kept : P w.scopes) :
    P (w.conclude slot c scope fault purpose).2.2.scopes := by
  cases purpose with
  | force | tick => exact kept
  | start rest =>
    simp only [conclude, ensureLoop]
    cases (w.tell (fault.toList.map (.firstRefreshFailed c.name))).loopRuns c with
    | true => exact kept
    | false => exact derive _ none kept

theorem refreshTurn_scopes {t : Turn}
    (derive : ∀ s deadline, P s → P (s.derive scope deadline).2) (kept : P w.scopes) :
    P (w.refreshTurn slot c scope purpose limit t).2.2.scopes := by
  cases t with
  | still flight => exact kept
  | panicked => exact kept
  | done o =>
    simp only [refreshTurn, finishRefresh]
    cases w.cause? scope <;> exact conclude_scopes derive kept

theorem attempt_scopes (id : JobId) (slot : Nat) (c : Cache) (phase : Phase)
    (derive : ∀ s deadline, P s → P (s.derive scope deadline).2) (kept : P w.scopes) :
    P (w.attempt id slot c scope phase).world.scopes := by
  have cases := w.attempt_cases id slot c scope phase
  generalize w.attempt id slot c scope phase = a at cases ⊢
  cases cases with
  | turnsBack | stepsOut | linesUp | stays | calling => exact kept
  | walksIn | movesUp | granted => exact derive _ _ kept

end World

/-- **What deriving scopes from its own keeps, a step of a job keeps.** -/
theorem Job.step_scopes {P : Scopes → Prop} {w : World} (id : JobId) (job : Job)
    (derive : ∀ scope, job.scope? = some scope → ∀ s deadline, P s → P (s.derive scope deadline).2)
    (kept : P w.scopes) : P (job.step id w).2.2.scopes := by
  cases job with
  | call name scope flight => simpa only [Job.step, Flight.step_scopes] using kept
  | refresh slot scope purpose phase =>
    have derive := derive scope rfl
    simp only [Job.step]
    cases w.cache? slot with
    | none => exact kept
    | some c =>
      have before := World.attempt_scopes id slot c phase derive kept
      simp only [World.stepRefresh_eq]
      cases attempted : w.attempt id slot c scope phase with
      | refused cause w₁ =>
        rw [attempted] at before
        exact World.conclude_scopes derive before
      | waits w₁ =>
        rw [attempted] at before
        exact before
      | calls limit flight w₁ =>
        rw [attempted] at before
        simp only [World.goOnRefresh_eq]
        exact World.refreshTurn_scopes derive ((w₁.callInner_scopes limit flight).symm ▸ before)
  | loop slot scope =>
    simp only [Job.step]
    cases w.cache? slot with
    | none => exact kept
    | some c =>
      have cases := w.stepLoop_cases slot c scope
      simp only
      generalize w.stepLoop slot c scope = r at cases ⊢
      cases cases <;> exact kept
  | work | watch | sleep => exact kept

namespace Machine

/-- The scopes of a machine are nested. -/
abbrev Nested (m : Machine) : Prop :=
  m.world.scopes.Nested

variable {m : Machine} {held : List ScopeId}

/-- **A step of a job keeps scopes nested**: those that it derives come from a scope that there is. -/
theorem Nested.takeTurn (nested : m.Nested) (sheltered : m.Sheltered held) (i : Nat) :
    (m.takeTurn i).Nested := by
  unfold Machine.takeTurn
  cases found : m.jobs[i]? with
  | none => exact nested
  | some p =>
    have grown := Job.step_scopes (P := fun s => m.world.scopes.next ≤ s.next ∧ s.Nested) p.1 p.2
      (fun scope its s deadline kept => by
        have known := sheltered.scopes p (List.mem_of_getElem? found) scope its
        refine ⟨?_, kept.2.derive (Nat.lt_of_lt_of_le known kept.1) deadline⟩
        simp only [Scopes.derive, Scopes.next, List.length_append]
        exact Nat.le_add_right_of_le kept.1)
      ⟨Nat.le_refl _, nested⟩
    exact grown.2

theorem Nested.touch {known : Check → Prop} {p p' : Machine × List ScopeId}
    (nested : p.1.Nested) (sheltered : p.1.Sheltered p.2) (touch : Touch known p p') :
    p'.1.Nested := by
  cases touch with
  | background m held => exact Scopes.Nested.background nested
  | derive m deadline handed =>
    exact Scopes.Nested.derive nested (sheltered.opened _ (.inl handed)) deadline
  | cancel m handed => exact Scopes.Nested.cancel nested _
  | stop m held slot =>
    unfold Machine.stop
    split
    · exact Scopes.Nested.cancel nested _
    · exact nested
  | abort m held id =>
    unfold Machine.Nested
    rw [(m.abort_loops id).2]
    exact nested
  | submit | forget => exact nested

end Machine

namespace Scenario.Session

open CheckTree (ofBlueprint?)

/-- **In every state of every run scopes are nested.** -/
theorem nested_of_moves {b : Blueprint} {t : CheckTree} (built : ofBlueprint? b = some t)
    (before : List Event) (run : List Move) :
    ((ofTree (some t) before).moves run).machine.Nested := by
  obtain ⟨plan, planned⟩ := CheckTree.planned_ofBlueprint built
  have first : (ofTree (some t) before).machine.Nested :=
    Scopes.Nested.background (s := ⟨[]⟩) ⟨nofun, nofun, nofun⟩
  obtain ⟨_, -, -, nested⟩ := moves_keep (I := fun p => p.1.Sheltered p.2 ∧ p.1.Nested)
    (fun touch kept => ⟨kept.1.touch touch, kept.2.touch kept.1 touch⟩)
    (fun _ _ i kept => ⟨kept.1.takeTurn i, kept.2.takeTurn kept.1 i⟩)
    (fun _ _ _ _ kept => ⟨⟨kept.1.opened, kept.1.scopes, kept.1.limits⟩, kept.2⟩)
    (planned.within before) ⟨planned.sheltered before, first⟩ run
  exact nested

end Scenario.Session

/-! ## Refreshes whose scope has ended -/

/-- **Where the scope of a refresh has ended, the limit of its call has.** -/
theorem World.Sheltered.limit_ended {w : World} {jobs : List (JobId × Job)} {held : List ScopeId}
    (sheltered : w.Sheltered jobs held) (nested : w.scopes.Nested) {id : JobId} {slot : Nat}
    {scope limit : ScopeId} {purpose : Purpose} {phase : Phase}
    (mem : (id, .refresh slot scope purpose phase) ∈ jobs) (ended : w.cause? scope ≠ none)
    {c : Cache} {flight : Flight} {w₁ : World}
    (attempted : w.attempt id slot c scope phase = .calls limit flight w₁) :
    w₁.cause? limit ≠ none := by
  have known : scope < w.scopes.next := sheltered.scopes _ mem scope rfl
  have later := (w.attempt_aside id slot c scope phase).toLater
  have nested₁ := World.attempt_scopes (P := fun s => scope < s.next ∧ s.Nested) id slot c phase
    (fun s deadline kept => ⟨Nat.lt_of_lt_of_le kept.1 (by simp [Scopes.derive, Scopes.next]),
      kept.2.derive kept.1 deadline⟩) ⟨known, nested⟩
  rw [attempted] at later nested₁
  replace later : w.Later w₁ := later
  obtain ⟨n, there, parent⟩ := (sheltered.below mem attempted).comes
  have comes : w₁.scopes.parent? limit = some scope := by rw [Scopes.parent?, there]; exact parent
  exact nested₁.2.ended comes ((later.cause? known).trans_ne ended)

/-- **A refresh whose scope has ended begins no call**: it gets no lock, or finds that the limit of
its call has ended too. The one that it has under way may get one more turn. -/
theorem Job.inside_of_ended {w : World} {jobs : List (JobId × Job)} {held : List ScopeId}
    (nested : w.scopes.Nested) (sheltered : w.Sheltered jobs held) {id : JobId} {slot : Nat}
    {scope limit : ScopeId} {purpose : Purpose} {phase : Phase}
    (mem : (id, .refresh slot scope purpose phase) ∈ jobs) (ended : w.cause? scope ≠ none)
    {flight : Flight} {w₁ : World}
    (made : (Job.refresh slot scope purpose phase).inside id w = some (limit, flight, w₁)) :
    phase = .calling limit flight ∧ w₁ = w ∧ flight.begun = true ∧ w.grace = true ∧
      w.cause? limit ≠ none := by
  obtain ⟨c, -, made⟩ := Option.bind_eq_some_iff.mp made
  cases attempted : w.attempt id slot c scope phase with
  | refused | waits => simp [attempted] at made
  | calls limit' flight' w₂ =>
    have isOver := sheltered.limit_ended nested mem ended attempted
    simp only [attempted] at made
    split at made <;> cases made
    rename_i goes
    obtain ⟨cause, told⟩ := Option.ne_none_iff_exists'.mp isOver
    obtain ⟨grace, begun⟩ : w₁.grace = true ∧ flight.begun = true := by
      simpa [World.goesOn, told] using goes
    rcases World.attempt_calls attempted with ⟨rfl, rfl⟩ | ⟨-, rfl, -⟩
    · exact ⟨rfl, rfl, begun, grace, isOver⟩
    · cases begun

end HealthTree
