import HealthTree.Proofs.Derivation
import Mathlib.Logic.Basic

/-!
# Deriving a status in one pass

A derivation can be made in one pass over the services: each is resolved where it stands, and a
tally keeps the worst passing status met so far and the number of services that were
unhealthy-class (`Services.derive`). Resolving a service that says nothing of itself is such a pass
over its own services in turn, so the two go down the tree together.
What comes out is the status and the services that `Services.overall` and `resolveServices` speak of
(`derive_eq`).

**The law** (`derived_of_effective`): the status is told by which statuses the services come to, so
names, messages, order and number do not matter. That comes from an order (`Status.overall_mono`):
what is derived from some statuses is not better than what is derived from others if each of the
first is matched by one of the others that is of no better class, and each of the others by one of
the first that is of no worse.
-/

namespace HealthTree

namespace Status

/-- The class of a status, from the best to the worst: healthy, degraded, unhealthy-class. -/
def rank : Status → Nat
  | healthy => 0
  | degraded => 1
  | partiallyUnhealthy | unhealthy => 2

theorem rank_le_two (s : Status) : s.rank ≤ 2 := by
  cases s <;> decide

theorem rank_eq_zero {s : Status} : s.rank = 0 ↔ s = healthy := by
  cases s <;> decide

theorem rank_le_one {s : Status} : s.rank ≤ 1 ↔ s.passing = true := by
  cases s <;> decide

/-- What is no less severe is of no better class. -/
theorem rank_mono {a b : Status} (le : a ≤ b) : a.rank ≤ b.rank := by
  revert le
  cases a <;> cases b <;> decide

/-! ## Deriving from statuses that are all set -/

section Explicit

variable {statuses : List Status}

private theorem class_some {s : Status} {b : Bool} :
    unhealthyClass (some s) = b ↔ s.passing = !b := by
  cases s <;> cases b <;> decide

theorem overall_explicit_healthy :
    overall (statuses.map some) = healthy ↔ ∀ s ∈ statuses, s = healthy := by
  simp only [overall_eq_healthy_iff, List.forall_mem_map, class_some, Bool.not_false]
  constructor
  · rintro ⟨sound, undegraded⟩ s mem
    have passing := sound s mem
    cases s with
    | healthy => rfl
    | degraded => exact (undegraded (List.mem_map_of_mem mem)).elim
    | partiallyUnhealthy | unhealthy => cases passing
  · intro healthy
    refine ⟨fun s mem => healthy s mem ▸ rfl, fun mem => ?_⟩
    obtain ⟨s, mem, same⟩ := List.mem_map.mp mem
    cases (healthy s mem).symm.trans (Option.some.inj same)

theorem overall_explicit_degraded :
    overall (statuses.map some) = degraded ↔
      (∀ s ∈ statuses, s.passing = true) ∧ degraded ∈ statuses := by
  rw [overall_eq_degraded_iff, List.forall_mem_map]
  simp [class_some]

theorem overall_explicit_unhealthy :
    overall (statuses.map some) = unhealthy ↔
      statuses ≠ [] ∧ ∀ s ∈ statuses, s.passing = false := by
  by_cases empty : statuses = []
  · subst empty
    decide
  · simp only [overall_eq_unhealthy_iff (show statuses.map some ≠ [] by simpa using empty),
      List.forall_mem_map, class_some, Bool.not_true]
    exact (and_iff_right empty).symm

theorem overall_explicit_partiallyUnhealthy :
    overall (statuses.map some) = partiallyUnhealthy ↔
      (∃ s ∈ statuses, s.passing = false) ∧ ∃ s ∈ statuses, s.passing = true := by
  simp only [overall_eq_partiallyUnhealthy_iff, List.mem_map, exists_exists_and_eq_and, class_some,
    Bool.not_true, Bool.not_false]

/-- **The class of every one is reached.** -/
theorem rank_le_overall {s : Status} (mem : s ∈ statuses) :
    s.rank ≤ (overall (statuses.map some)).rank := by
  cases derived : overall (statuses.map some) with
  | healthy => exact Nat.le_of_eq (rank_eq_zero.mpr (overall_explicit_healthy.mp derived s mem))
  | degraded => exact rank_le_one.mpr ((overall_explicit_degraded.mp derived).1 s mem)
  | partiallyUnhealthy | unhealthy => exact rank_le_two s

/-- **What is derived from worse statuses is not better**: each of the first is matched by one of
the second that is of no better class, and each of the second by one of the first that is of no
worse. -/
theorem overall_mono {worse : List Status}
    (up : ∀ s ∈ statuses, ∃ t ∈ worse, s.rank ≤ t.rank)
    (down : ∀ t ∈ worse, ∃ s ∈ statuses, s.rank ≤ t.rank) :
    overall (statuses.map some) ≤ overall (worse.map some) := by
  cases derived : overall (worse.map some) with
  | healthy =>
    have healthy : overall (statuses.map some) = healthy := by
      rw [overall_explicit_healthy] at derived ⊢
      intro s mem
      obtain ⟨t, mem', le⟩ := up s mem
      rw [derived t mem'] at le
      exact rank_eq_zero.mp (Nat.le_zero.mp le)
    rw [healthy]
    decide
  | degraded =>
    have passing : ∀ s ∈ statuses, s.passing = true := by
      intro s mem
      obtain ⟨t, mem', le⟩ := up s mem
      have passing := (overall_explicit_degraded.mp derived).1 t mem'
      exact rank_le_one.mp (Nat.le_trans le (rank_le_one.mpr passing))
    cases derived' : overall (statuses.map some) with
    | healthy | degraded => decide
    | partiallyUnhealthy =>
      obtain ⟨⟨s, mem, failing⟩, _⟩ := overall_explicit_partiallyUnhealthy.mp derived'
      simp [passing s mem] at failing
    | unhealthy =>
      obtain ⟨inhabited, failing⟩ := overall_explicit_unhealthy.mp derived'
      obtain ⟨s, mem⟩ := List.exists_mem_of_ne_nil _ inhabited
      simpa [passing s mem] using failing s mem
  | partiallyUnhealthy =>
    obtain ⟨_, t, mem', passing⟩ := overall_explicit_partiallyUnhealthy.mp derived
    obtain ⟨s, mem, le⟩ := down t mem'
    have passing : s.passing = true := rank_le_one.mp (Nat.le_trans le (rank_le_one.mpr passing))
    cases derived' : overall (statuses.map some) with
    | healthy | degraded | partiallyUnhealthy => decide
    | unhealthy =>
      simpa [passing] using (overall_explicit_unhealthy.mp derived').2 s mem
  | unhealthy => cases overall (statuses.map some) <;> decide

end Explicit

theorem le_antisymm {a b : Status} (le : a ≤ b) (ge : b ≤ a) : a = b :=
  severity_injective (Nat.le_antisymm le ge)

/-- Which statuses there are decides, and neither their order nor their number. -/
theorem overall_congr {statuses others : List Status} (same : ∀ s, s ∈ statuses ↔ s ∈ others) :
    overall (statuses.map some) = overall (others.map some) := by
  apply le_antisymm
  · exact overall_mono (fun s mem => ⟨s, (same s).mp mem, Nat.le_refl _⟩)
      fun s mem => ⟨s, (same s).mpr mem, Nat.le_refl _⟩
  · exact overall_mono (fun s mem => ⟨s, (same s).mpr mem, Nat.le_refl _⟩)
      fun s mem => ⟨s, (same s).mp mem, Nat.le_refl _⟩

/-- A status that is not set counts as unhealthy. -/
theorem overall_getD (statuses : List (Option Status)) :
    overall ((statuses.map fun s => s.getD unhealthy).map some) = overall statuses := by
  have counted : unhealthyClass ∘ some ∘ (fun s => s.getD unhealthy) = unhealthyClass := by
    funext s
    cases s <;> rfl
  have kept : some degraded ∈ statuses.map (some ∘ fun s => s.getD unhealthy) ↔
      some degraded ∈ statuses := by
    rw [List.mem_map]
    constructor
    · rintro ⟨s, mem, same⟩
      cases s with
      | none => cases same
      | some s => exact (show some s = some degraded from same) ▸ mem
    · exact fun mem => ⟨_, mem, rfl⟩
  simp only [overall, List.map_map, List.countP_map, counted, List.length_map, List.isEmpty_map,
    List.contains_iff_mem, kept]

end Status

namespace Services

/-- **The status of a node is derived from the statuses its services come to.** -/
theorem overall_eq_effective (services : Services) :
    services.overall = Status.overall ((services.map fun e => e.2.effective).map some) := by
  calc services.overall
      = Status.overall (services.map fun e => e.2.resolve.status) := by
        rw [overall, resolveServices_eq_map, List.map_map]
        rfl
    _ = Status.overall (((services.map fun e => e.2.resolve.status).map
          fun s => s.getD .unhealthy).map some) := (Status.overall_getD _).symm
    _ = Status.overall ((services.map fun e => e.2.effective).map some) := by
        simp only [List.map_map, Function.comp_def, Health.effective_eq_resolve]

/-! ## The pass -/

/-- What a derivation knows after some of the services: the worst passing status among them, and how
many were unhealthy-class. -/
structure Tally where
  worst : Status := .healthy
  bad : Nat := 0

namespace Tally

/-- One service more, which has this status. -/
def count (t : Tally) : Option Status → Tally
  | some .healthy => t
  | some .degraded => { t with worst := max t.worst .degraded }
  | _ => { t with bad := t.bad + 1 }

/-- The status after all of this many services. -/
def status (t : Tally) (total : Nat) : Status :=
  let some := if 0 < t.bad then max t.worst .partiallyUnhealthy else t.worst
  if t.bad = total then max some .unhealthy else some

end Tally

/-- **One pass**: each service is resolved where it stands and then counted. -/
def settle : Tally → Services → Services × Tally
  | t, [] => ([], t)
  | t, (name, h) :: rest =>
    let h := h.resolve
    let (rest, t) := settle (t.count h.status) rest
    ((name, h) :: rest, t)

/-- **The services after a derivation, and the status derived.** -/
def derive (services : Services) : Services × Status :=
  if services.isEmpty then ([], .healthy)
  else
    let (after, t) := settle {} services
    (after, t.status services.length)

/-- A pass leaves the services resolved, and has counted the statuses they then have. -/
theorem settle_eq (t : Tally) (services : Services) :
    settle t services = (resolveServices services,
      ((resolveServices services).map (·.2.status)).foldl Tally.count t) := by
  induction services generalizing t with
  | nil => rfl
  | cons service rest ih =>
    obtain ⟨name, h⟩ := service
    simp only [settle, ih, resolveServices, List.map_cons, List.foldl_cons]

/-- The tally counts what is unhealthy-class, and otherwise knows whether one was degraded. -/
theorem foldl_count (statuses : List (Option Status)) (t : Tally) :
    statuses.foldl Tally.count t =
      { worst := if some .degraded ∈ statuses then max t.worst .degraded else t.worst
        bad := t.bad + statuses.countP Status.unhealthyClass } := by
  have twice (s : Status) : max (max s .degraded) .degraded = max s .degraded := by
    cases s <;> decide
  induction statuses generalizing t with
  | nil => simp
  | cons first rest ih =>
    rw [List.foldl_cons, ih]
    rcases first with _ | _ | _ | _ | _ <;>
      simp [Tally.count, List.countP_cons, Status.unhealthyClass, twice, Nat.add_comm,
        Nat.add_left_comm]

/-- What the tally comes to is the status of a node whose services have these statuses. -/
theorem status_foldl_count {statuses : List (Option Status)} (inhabited : statuses ≠ []) :
    (statuses.foldl Tally.count {}).status statuses.length = Status.overall statuses := by
  have positive : 0 < statuses.length := List.length_pos_iff.mpr inhabited
  simp only [foldl_count, Tally.status, Status.overall, List.isEmpty_iff, if_neg inhabited,
    Nat.zero_add, List.contains_iff_mem]
  by_cases all : statuses.countP Status.unhealthyClass = statuses.length
  · rw [if_pos all, if_pos all, all, if_pos positive]
    split <;> decide
  · rw [if_neg all, if_neg all]
    by_cases one : 0 < statuses.countP Status.unhealthyClass
    · rw [if_pos one, if_pos one]
      split <;> decide
    · rw [if_neg one, if_neg one]
      split <;> decide

/-- **The pass derives what it should.** -/
theorem derive_eq (services : Services) :
    services.derive = (resolveServices services, services.overall) := by
  cases services with
  | nil => rfl
  | cons first rest =>
    have inhabited : (resolveServices (first :: rest)).map (·.2.status) ≠ [] := by
      rw [resolveServices_eq_map]
      exact List.cons_ne_nil _ _
    have counted := status_foldl_count inhabited
    have length : (resolveServices (first :: rest)).length = (first :: rest).length := by
      rw [resolveServices_eq_map, List.length_map]
    rw [List.length_map, length] at counted
    simp only [derive, settle_eq, overall, List.isEmpty_cons, Bool.false_eq_true, if_false, counted]

/-- **The status of a node is told by the statuses its services come to**, and is what a pass over
them derives, which leaves them resolved. It is healthy if every one is healthy, so also without
services; degraded if none is unhealthy-class and one is degraded; unhealthy if there are services
and all of them are unhealthy-class; partially unhealthy if some are and some are not, which is all
that is left. So services that come to the same statuses, in whatever order and however often, make
the same status, and no service is of a worse class than it. -/
theorem derived_of_effective (services : Services) :
    services.derive = (resolveServices services, services.overall) ∧
    (services.overall = .healthy ↔ ∀ e ∈ services, e.2.effective = .healthy) ∧
    (services.overall = .degraded ↔
      (∀ e ∈ services, e.2.effective.passing = true) ∧
        ∃ e ∈ services, e.2.effective = .degraded) ∧
    (services.overall = .unhealthy ↔
      services ≠ [] ∧ ∀ e ∈ services, e.2.effective.passing = false) ∧
    (services.overall = .partiallyUnhealthy ↔
      (∃ e ∈ services, e.2.effective.passing = false) ∧
        ∃ e ∈ services, e.2.effective.passing = true) ∧
    (∀ others : Services,
      (∀ s, (∃ e ∈ services, e.2.effective = s) ↔ ∃ e ∈ others, e.2.effective = s) →
        services.overall = others.overall) ∧
    ∀ e ∈ services, e.2.effective.rank ≤ services.overall.rank := by
  refine ⟨derive_eq services, ?_⟩
  rw [overall_eq_effective]
  refine ⟨?_, ?_, ?_, ?_, ?_, ?_⟩
  · rw [Status.overall_explicit_healthy, List.forall_mem_map]
  · rw [Status.overall_explicit_degraded, List.forall_mem_map, List.mem_map]
  · rw [Status.overall_explicit_unhealthy, List.forall_mem_map, ne_eq, List.map_eq_nil_iff]
  · simp only [Status.overall_explicit_partiallyUnhealthy, List.mem_map, exists_exists_and_eq_and]
  · intro others same
    rw [overall_eq_effective others]
    refine Status.overall_congr fun s => ?_
    rw [List.mem_map, List.mem_map]
    exact same s
  · intro e mem
    exact Status.rank_le_overall (List.mem_map_of_mem mem)

/-- Two services, of which one says nothing of itself and has a service that fails and one that is
silent; and three others that come to the same two statuses. -/
theorem derived_of_effective_reordered :
    let inner : Health := ⟨none, "", [("x", .unhealthy "down"), ("y", .blank)]⟩
    let services : Services := [("a", inner), ("b", .degraded "slow")]
    let others : Services := [("c", .degraded ""), ("d", .blank), ("e", .degraded "worn")]
    (∀ s, (∃ e ∈ services, e.2.effective = s) ↔ ∃ e ∈ others, e.2.effective = s) ∧
      services.overall = others.overall ∧
      services.derive = (resolveServices services, .partiallyUnhealthy) ∧
      services.derive.1.map (·.2.status) = [some .unhealthy, some .degraded] := by
  intro inner services others
  have same : ∀ s, (∃ e ∈ services, e.2.effective = s) ↔ ∃ e ∈ others, e.2.effective = s := by
    intro s
    cases s <;> decide +kernel
  obtain ⟨pass, _, _, _, partly, alike, _⟩ := derived_of_effective services
  rw [partly.mpr (by decide +kernel)] at pass
  exact ⟨same, alike others same, pass, rfl⟩

end Services

end HealthTree
