import HealthTree.Health

/-!
# When a node comes to which status

`Status.overall` counts. Here each of its values is read off the statuses it was given: all of them
unhealthy-class, some of them, none of them but one degraded, or none of these. A health that has a
status is left alone by resolving, so a node all of whose services have one takes its status from
exactly these (`resolveServices_of_explicit`).
-/

namespace HealthTree

namespace Status

variable {statuses : List (Option Status)}

/-- With a status that is unhealthy-class among them, it is asked whether all are. -/
theorem overall_of_bad (bad : ∃ s ∈ statuses, unhealthyClass s = true) :
    overall statuses =
      if ∀ s ∈ statuses, unhealthyClass s = true then unhealthy else partiallyUnhealthy := by
  have inhabited : statuses ≠ [] := by
    obtain ⟨s, mem, _⟩ := bad
    exact List.ne_nil_of_mem mem
  have positive : 0 < statuses.countP unhealthyClass := List.countP_pos_iff.mpr bad
  simp only [overall, List.isEmpty_iff, if_neg inhabited, if_pos positive, List.countP_eq_length]

/-- With none among them, it is asked whether one is degraded. -/
theorem overall_of_sound (sound : ∀ s ∈ statuses, unhealthyClass s = false) :
    overall statuses = if some degraded ∈ statuses then degraded else healthy := by
  have zero : statuses.countP unhealthyClass = 0 := by
    rw [List.countP_eq_zero]
    intro s mem
    simp [sound s mem]
  cases statuses with
  | nil => rfl
  | cons first rest => simp [overall, zero]

/-- Either one is unhealthy-class, or none is, and not both. -/
theorem bad_or_sound (statuses : List (Option Status)) :
    (∃ s ∈ statuses, unhealthyClass s = true) ∧ (¬ ∀ s ∈ statuses, unhealthyClass s = false) ∨
      (∀ s ∈ statuses, unhealthyClass s = false) ∧ ¬ ∃ s ∈ statuses, unhealthyClass s = true := by
  by_cases sound : ∀ s ∈ statuses, unhealthyClass s = false
  · refine .inr ⟨sound, fun ⟨s, mem, bad⟩ => ?_⟩
    simp [sound s mem] at bad
  · exact .inl ⟨by simpa using sound, sound⟩

/-- A node with services is unhealthy if every one of them is unhealthy-class. -/
theorem overall_eq_unhealthy_iff (inhabited : statuses ≠ []) :
    overall statuses = unhealthy ↔ ∀ s ∈ statuses, unhealthyClass s = true := by
  rcases bad_or_sound statuses with ⟨bad, _⟩ | ⟨sound, _⟩
  · rw [overall_of_bad bad]
    split <;> simp_all
  · rw [overall_of_sound sound]
    obtain ⟨s, mem⟩ := List.exists_mem_of_ne_nil _ inhabited
    have notAll : ¬ ∀ s ∈ statuses, unhealthyClass s = true := fun all => by
      simpa [sound s mem] using all s mem
    simp only [notAll, iff_false]
    split <;> exact Status.noConfusion

/-- It is partially unhealthy if some are unhealthy-class and some are not. -/
theorem overall_eq_partiallyUnhealthy_iff :
    overall statuses = partiallyUnhealthy ↔
      (∃ s ∈ statuses, unhealthyClass s = true) ∧ ∃ s ∈ statuses, unhealthyClass s = false := by
  rcases bad_or_sound statuses with ⟨bad, _⟩ | ⟨sound, notBad⟩
  · rw [overall_of_bad bad]
    split <;> simp_all
  · simp only [overall_of_sound sound, notBad, false_and, iff_false]
    split <;> exact Status.noConfusion

/-- It is degraded if none is unhealthy-class and one is degraded. -/
theorem overall_eq_degraded_iff :
    overall statuses = degraded ↔
      (∀ s ∈ statuses, unhealthyClass s = false) ∧ some degraded ∈ statuses := by
  rcases bad_or_sound statuses with ⟨bad, notSound⟩ | ⟨sound, _⟩
  · simp only [overall_of_bad bad, notSound, false_and, iff_false]
    split <;> exact Status.noConfusion
  · rw [overall_of_sound sound]
    split <;> simp_all

/-- It is healthy if none is unhealthy-class or degraded; so it is without services. -/
theorem overall_eq_healthy_iff :
    overall statuses = healthy ↔
      (∀ s ∈ statuses, unhealthyClass s = false) ∧ some degraded ∉ statuses := by
  rcases bad_or_sound statuses with ⟨bad, notSound⟩ | ⟨sound, _⟩
  · simp only [overall_of_bad bad, notSound, false_and, iff_false]
    split <;> exact Status.noConfusion
  · rw [overall_of_sound sound]
    split <;> simp_all

end Status

/-- Resolving keeps a status that is set, and everything below it. -/
theorem Health.resolve_of_explicit {h : Health} (explicit : h.status.isSome) : h.resolve = h := by
  obtain ⟨status, message, services⟩ := h
  cases status with
  | none => cases explicit
  | some s => rw [Health.resolve]

/-- Services that all have a status are kept as they are. -/
theorem resolveServices_of_explicit {services : Services}
    (explicit : ∀ e ∈ services, e.2.status.isSome) : resolveServices services = services := by
  induction services with
  | nil => rw [resolveServices]
  | cons entry rest ih =>
    obtain ⟨name, h⟩ := entry
    have head : h.status.isSome := explicit (name, h) List.mem_cons_self
    rw [resolveServices, Health.resolve_of_explicit head,
      ih fun e mem => explicit e (List.mem_cons_of_mem _ mem)]

/-- Resolving services is resolving each of them under its name. -/
theorem resolveServices_eq_map (services : Services) :
    resolveServices services = services.map fun e => (e.1, e.2.resolve) := by
  induction services with
  | nil => rw [resolveServices, List.map_nil]
  | cons entry rest ih =>
    obtain ⟨name, h⟩ := entry
    rw [resolveServices, List.map_cons, ih]

/-- **A node comes to the status it has once it is resolved**, and to unhealthy if it has none even
then. -/
theorem Health.effective_eq_resolve (h : Health) :
    h.effective = h.resolve.status.getD .unhealthy := by
  obtain ⟨status, message, services⟩ := h
  cases status with
  | some s => rw [Health.resolve]; rfl
  | none =>
    cases services with
    | nil => rw [Health.resolve]; rfl
    | cons service rest => rw [Health.resolve]; rfl

end HealthTree
