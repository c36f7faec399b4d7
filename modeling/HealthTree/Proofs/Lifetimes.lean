import HealthTree.Proofs.Limits
import HealthTree.Proofs.Onward

/-!
# How long scopes live

What has ended stays ended, whatever happens next (`World.After`, `Session.moves_after`): cancelling
only ever marks scopes, deadlines do not change, and time does not go back.

A scope that was derived without a deadline of its own, and that nobody cancels by itself, is tied
to the one it comes from (`Scopes.Tied`): the two are live together, and they end at one instant and
for one cause.
-/

namespace HealthTree

namespace Scopes

variable {s : Scopes} {now : Nat} {scope own other : ScopeId}

/-- The scope that a scope comes from. -/
def parent? (s : Scopes) (i : ScopeId) : Option ScopeId :=
  (s.node? i).bind (·.parent)

/-- A scope has ended if it was cancelled, or if its deadline has come. -/
theorem cause?_ne_none :
    s.cause? now scope ≠ none ↔
      s.isCancelled scope = true ∨ ∃ d, s.deadline? scope = some d ∧ d ≤ now := by
  unfold cause?
  cases s.isCancelled scope with
  | true => simp
  | false => cases s.deadline? scope <;> simp

/-- What has ended has ended at any later instant. -/
theorem ended_later {later : Nat} (le : now ≤ later) (ended : s.cause? now scope ≠ none) :
    s.cause? later scope ≠ none := by
  refine cause?_ne_none.mpr ((cause?_ne_none.mp ended).imp_right ?_)
  rintro ⟨d, deadline, passed⟩
  exact ⟨d, deadline, Nat.le_trans passed le⟩

/-- Old scopes are what they were when new ones are added. -/
theorem node?_append (new : List ScopeNode) (old : scope < s.next) :
    (⟨s.nodes ++ new⟩ : Scopes).node? scope = s.node? scope :=
  List.getElem?_append_left old

theorem cause?_append (new : List ScopeNode) (old : scope < s.next) :
    (⟨s.nodes ++ new⟩ : Scopes).cause? now scope = s.cause? now scope := by
  simp only [cause?, isCancelled, deadline?, node?_append new old]
  rfl

theorem derive_parent? (s : Scopes) (scope : ScopeId) (deadline : Option Nat) :
    (s.derive scope deadline).2.parent? s.next = some scope := by
  have new : (s.derive scope deadline).2.node? s.next = some _ := List.getElem?_concat_length
  rw [parent?, new]
  rfl

/-! ## Cancelling -/

/-- To mark nodes changes nothing of them but the mark. -/
theorem markBelow_map {β : Type} {part : ScopeNode → β}
    (free : ∀ (n : ScopeNode) mark, part { n with cancelled := mark } = part n) (target : ScopeId)
    (before rest : List ScopeNode) :
    (markBelow target before rest).map part = (before ++ rest).map part := by
  induction rest generalizing before with
  | nil => rw [List.append_nil]; rfl
  | cons n rest ih =>
    rw [markBelow, ih]
    simp [free]

theorem cancel_node? {β : Type} {part : ScopeNode → β}
    (free : ∀ (n : ScopeNode) mark, part { n with cancelled := mark } = part n) (s : Scopes)
    (target scope : ScopeId) :
    ((s.cancel target).node? scope).map part = (s.node? scope).map part := by
  have all := markBelow_map free target [] s.nodes
  rw [List.nil_append] at all
  simp only [node?, cancel, ← List.getElem?_map, all]

@[simp] theorem cancel_deadline? (s : Scopes) (target scope : ScopeId) :
    (s.cancel target).deadline? scope = s.deadline? scope := by
  have same := @cancel_node? _ ScopeNode.deadline (fun _ _ => rfl) s target scope
  have bound := congrArg (Option.bind · id) same
  simp only [Option.bind_map] at bound
  exact bound

@[simp] theorem cancel_parent? (s : Scopes) (target scope : ScopeId) :
    (s.cancel target).parent? scope = s.parent? scope := by
  have same := @cancel_node? _ ScopeNode.parent (fun _ _ => rfl) s target scope
  have bound := congrArg (Option.bind · id) same
  simp only [Option.bind_map] at bound
  exact bound

/-- What is cancelled stays so. -/
theorem isCancelled_cancel (cancelled : s.isCancelled scope = true) (target : ScopeId) :
    (s.cancel target).isCancelled scope = true := by
  have marked := markBelow_cancelled target [] s.nodes cancelled
  rwa [List.length_nil, Nat.zero_add] at marked

/-- A scope that is cancelled is. -/
theorem isCancelled_cancel_self (known : scope < s.next) :
    (s.cancel scope).isCancelled scope = true := by
  have marks (before rest : List ScopeNode) (i : Nat) (lt : i < rest.length) :
      ((markBelow (before.length + i) before rest)[before.length + i]?).any (·.cancelled) := by
    induction rest generalizing before i with
    | nil => cases lt
    | cons n rest ih =>
      rw [markBelow]
      cases i with
      | zero =>
        rw [markBelow_before _ _ _ (by simp), Nat.add_zero, List.getElem?_concat_length]
        simp
      | succ i =>
        have later (n' : ScopeNode) := ih (before ++ [n']) i (Nat.lt_of_succ_lt_succ lt)
        simp only [List.length_append, List.length_singleton, Nat.add_assoc, Nat.add_comm 1]
          at later
        exact later _
  have here := marks [] s.nodes scope known
  rw [List.length_nil, Nat.zero_add] at here
  exact here

/-! ## Scopes that end together -/

/-- **A scope is tied to the one it comes from**: it was cancelled exactly if that was, and has its
deadline. -/
structure Tied (s : Scopes) (scope own : ScopeId) : Prop where
  comes : s.parent? own = some scope
  earlier : scope < own
  cancelled : s.isCancelled own = s.isCancelled scope
  deadline : s.deadline? own = s.deadline? scope

namespace Tied

theorem lt_next (tied : s.Tied scope own) : own < s.next := by
  obtain ⟨n, found, -⟩ := Option.bind_eq_some_iff.mp tied.comes
  exact (List.getElem?_eq_some_iff.mp found).1

/-- **They end together**, for one cause. -/
theorem cause? (tied : s.Tied scope own) (now : Nat) : s.cause? now own = s.cause? now scope := by
  simp only [Scopes.cause?, tied.cancelled, tied.deadline]

/-- A scope that can be cancelled apart is tied at first. -/
theorem withCancel (known : scope < s.next) : (s.withCancel scope).2.Tied scope s.next := by
  have new : (s.withCancel scope).2.node? s.next =
      some ⟨some scope, s.isCancelled scope, Scopes.earlier (s.deadline? scope) none⟩ :=
    List.getElem?_concat_length
  have old : (s.withCancel scope).2.node? scope = s.node? scope := node?_append _ known
  refine ⟨by rw [parent?, new]; rfl, known, ?_, ?_⟩
  · simp only [isCancelled, new, old, Option.any_some]
  · simp only [deadline?, new, old, Option.bind_some]
    cases (s.node? scope).bind (·.deadline) <;> rfl

theorem append (tied : s.Tied scope own) (new : List ScopeNode) :
    (⟨s.nodes ++ new⟩ : Scopes).Tied scope own := by
  have here := node?_append new tied.lt_next
  have there := node?_append new (Nat.lt_trans tied.earlier tied.lt_next)
  obtain ⟨comes, earlier, cancelled, deadline⟩ := tied
  simp only [parent?, isCancelled, deadline?] at comes cancelled deadline
  constructor
  · rw [parent?, here]; exact comes
  · exact earlier
  · rw [isCancelled, isCancelled, here, there]; exact cancelled
  · rw [deadline?, deadline?, here, there]; exact deadline

/-- Cancelling another scope cancels both or none. -/
theorem cancel (tied : s.Tied scope own) (apart : own ≠ other) :
    (s.cancel other).Tied scope own := by
  obtain ⟨n, found, comes⟩ := Option.bind_eq_some_iff.mp tied.comes
  refine ⟨by rw [cancel_parent?]; exact tied.comes, tied.earlier, ?_, by simp [tied.deadline]⟩
  have after := markBelow_get other [] s.nodes found comes (by simpa using tied.earlier)
  simp only [List.length_nil, Nat.zero_add, beq_eq_false_iff_ne.mpr apart, Bool.or_false] at after
  have marked : (s.cancel other).isCancelled own =
      (n.cancelled || (s.cancel other).isCancelled scope) := by
    simp only [isCancelled, node?, Scopes.cancel, after, Option.any_some]
  have before : n.cancelled = s.isCancelled scope := by
    rw [← tied.cancelled, isCancelled, found]
    rfl
  rw [marked, before]
  cases was : s.isCancelled scope with
  | true => rw [isCancelled_cancel was]; rfl
  | false => rfl

end Tied

end Scopes

/-! ## What has ended stays ended -/

/-- **One world comes after another**: time has not gone back, scopes come from where they came
from and have the deadlines that they had, and those that have ended by some instant go on to
have. -/
structure World.After (w w' : World) : Prop where
  time : w.now ≤ w'.now
  grows : w.scopes.next ≤ w'.scopes.next
  comes : ∀ scope < w.scopes.next, w'.scopes.parent? scope = w.scopes.parent? scope
  deadline : ∀ scope < w.scopes.next, w'.scopes.deadline? scope = w.scopes.deadline? scope
  ended : ∀ scope < w.scopes.next, ∀ now, w.scopes.cause? now scope ≠ none →
    w'.scopes.cause? now scope ≠ none

namespace World.After

variable {w w' w'' : World}

theorem refl (w : World) : w.After w :=
  ⟨Nat.le_refl _, Nat.le_refl _, fun _ _ => rfl, fun _ _ => rfl, fun _ _ _ ended => ended⟩

theorem trans (first : w.After w') (second : w'.After w'') : w.After w'' where
  time := Nat.le_trans first.time second.time
  grows := Nat.le_trans first.grows second.grows
  comes scope old := (second.comes scope (Nat.lt_of_lt_of_le old first.grows)).trans
    (first.comes scope old)
  deadline scope old := (second.deadline scope (Nat.lt_of_lt_of_le old first.grows)).trans
    (first.deadline scope old)
  ended scope old now ended :=
    second.ended scope (Nat.lt_of_lt_of_le old first.grows) now (first.ended scope old now ended)

/-- **What has ended stays ended.** -/
theorem stays (after : w.After w') {scope : ScopeId} (old : scope < w.scopes.next)
    (ended : w.cause? scope ≠ none) : w'.cause? scope ≠ none :=
  Scopes.ended_later after.time (after.ended scope old w.now ended)

theorem of_later (later : w.Later w') : w.After w' := by
  obtain ⟨new, nodes⟩ := later.scopes
  have scopes : w'.scopes = ⟨w.scopes.nodes ++ new⟩ := by rw [← nodes]
  refine ⟨Nat.le_of_eq later.now.symm, later.next_le, fun scope old => ?_, fun scope old => ?_,
    fun scope old now => ?_⟩
  · rw [Scopes.parent?, scopes, Scopes.node?_append new old]
    rfl
  · rw [Scopes.deadline?, scopes, Scopes.node?_append new old]
    rfl
  · rw [scopes, Scopes.cause?_append new old]
    exact fun ended => ended

/-- Scopes and time are all that counts. -/
theorem of_same (after : w.After w') (scopes : w''.scopes = w'.scopes) (now : w''.now = w'.now) :
    w.After w'' :=
  ⟨now ▸ after.time, scopes ▸ after.grows, scopes ▸ after.comes, scopes ▸ after.deadline,
    scopes ▸ after.ended⟩

theorem cancel (w : World) (target : ScopeId) :
    w.After { w with scopes := w.scopes.cancel target } := by
  refine ⟨Nat.le_refl _, Nat.le_of_eq (Scopes.cancel_next ..).symm,
    fun scope _ => Scopes.cancel_parent? .., fun scope _ => Scopes.cancel_deadline? ..,
    fun scope _ now ended => ?_⟩
  refine Scopes.cause?_ne_none.mpr ((Scopes.cause?_ne_none.mp ended).imp ?_ ?_)
  · exact fun cancelled => Scopes.isCancelled_cancel cancelled target
  · rintro ⟨d, deadline, passed⟩
    exact ⟨d, by rwa [Scopes.cancel_deadline?], passed⟩

/-- Time passes, and whether a turn is left then is settled anew. -/
theorem rest (w : World) (ms : Nat) (given : Bool) :
    w.After { w with now := w.now + ms, grace := given } :=
  ⟨Nat.le_add_right _ _, Nat.le_refl _, fun _ _ => rfl, fun _ _ => rfl, fun _ _ _ ended => ended⟩

end World.After

namespace Machine

theorem stop_after (m : Machine) (slot : Nat) : m.world.After (m.stop slot).world := by
  unfold Machine.stop
  split
  · exact (World.After.cancel m.world _).of_same rfl rfl
  · exact .refl m.world

theorem abort_after (m : Machine) (id : JobId) : m.world.After (m.abort id).world := by
  unfold Machine.abort
  cases m.jobs.lookup id with
  | none => exact .refl m.world
  | some job =>
    have same : (job.drop id m.world).scopes = m.world.scopes ∧
        (job.drop id m.world).now = m.world.now := by
      cases job with
      | refresh slot scope purpose phase => cases phase <;> exact ⟨rfl, rfl⟩
      | _ => exact ⟨rfl, rfl⟩
    exact (World.After.refl m.world).of_same same.1 same.2

theorem Touch.after {known : Check → Prop} {p p' : Machine × List ScopeId}
    (touch : Touch known p p') : p.1.world.After p'.1.world := by
  cases touch with
  | background m held => exact .of_later ⟨rfl, ⟨_, rfl⟩, rfl, rfl⟩
  | derive m deadline handed => exact .of_later ⟨rfl, ⟨_, rfl⟩, rfl, rfl⟩
  | cancel m handed => exact .cancel m.world _
  | stop m held slot => exact m.stop_after slot
  | abort m held id => exact m.abort_after id
  | submit m | forget m => exact (World.After.refl m.world).of_same rfl rfl

end Machine

namespace Scenario.Session

variable {known : Check → Prop} {s : Session} {held : List ScopeId}

theorem move_after (within : s.Within known held) (next : Move) :
    s.machine.world.After (s.move next).machine.world := by
  obtain ⟨_, -, after⟩ := move_keep (I := fun p => s.machine.world.After p.1.world)
    (fun touch after => after.trans touch.after)
    (fun m _ i after => after.trans (.of_later (m.takeTurn_later i)))
    (fun m _ ms given after => after.trans (.rest m.world ms given)) within (.refl _) next
  exact after

/-- **What has ended stays ended**, in every run. -/
theorem moves_after (within : s.Within known held) (run : List Move) :
    s.machine.world.After (s.moves run).machine.world := by
  obtain ⟨_, -, after⟩ := moves_keep (I := fun p => s.machine.world.After p.1.world)
    (fun touch after => after.trans touch.after)
    (fun m _ i after => after.trans (.of_later (m.takeTurn_later i)))
    (fun m _ ms given after => after.trans (.rest m.world ms given)) within (.refl _) run
  exact after

/-- What is live at the end of a run was live before it. -/
theorem live_of_moves (within : s.Within known held) (run : List Move) {scope : ScopeId}
    (old : scope < s.machine.world.scopes.next)
    (live : (s.moves run).machine.world.cause? scope = none) :
    s.machine.world.cause? scope = none := by
  by_contra ended
  exact (moves_after within run).stays old ended live

end Scenario.Session

end HealthTree
