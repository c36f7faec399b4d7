import HealthTree.Proofs.Unresolved

/-!
# Three ways to read a status

The status of a node can be read off without touching it (`Health.effective`), it can be filled in
where it stands (`Health.resolve`), and a group reads it when it enters a child's answer
(`Gathered.add`). The three agree (`readings_agree`). They part only over a node that has neither a
status nor services: it comes to unhealthy, resolving leaves it as it is, and a group says so in
its place.

**What resolving may change** is told by `Health.Filled`, a relation that knows nothing of how a
status is derived: names, messages, statuses that are set, and the shape stay what they are, and so
does everything below a node that says its status.
-/

namespace HealthTree

mutual
/-- **The second node is the first with statuses filled in**, where there was none and services to
take it from. -/
inductive Health.Filled : Health → Health → Prop
  /-- A node that says its status is kept, with all that stands below it. -/
  | said (s : Status) (m : String) (cs : Services) : Health.Filled ⟨some s, m, cs⟩ ⟨some s, m, cs⟩
  /-- So is a node that has no services. -/
  | bare (m : String) : Health.Filled ⟨none, m, []⟩ ⟨none, m, []⟩
  /-- Any other node is given a status, and its services are filled in. -/
  | given (s : Status) (m : String) {cs cs' : Services} (inhabited : cs ≠ [])
      (below : ServicesFilled cs cs') : Health.Filled ⟨none, m, cs⟩ ⟨some s, m, cs'⟩
/-- The same services under the same names, each of them filled in. -/
inductive ServicesFilled : Services → Services → Prop
  | nil : ServicesFilled [] []
  | cons (name : String) {h h' : Health} {rest rest' : Services} (here : Health.Filled h h')
      (later : ServicesFilled rest rest') : ServicesFilled ((name, h) :: rest) ((name, h') :: rest')
end

mutual
/-- Resolving fills in, and does nothing else. -/
theorem Health.filled_resolve : (h : Health) → h.Filled h.resolve
  | ⟨none, m, c :: cs⟩ => by
    rw [Health.resolve]
    exact .given _ m (List.cons_ne_nil _ _) (filled_resolveServices (c :: cs))
  | ⟨none, m, []⟩ => by
    rw [Health.resolve]
    exact .bare m
  | ⟨some s, m, cs⟩ => by
    rw [Health.resolve]
    exact .said s m cs
/-- The same for services. -/
theorem filled_resolveServices : (services : Services) →
    ServicesFilled services (resolveServices services)
  | [] => by
    rw [resolveServices]
    exact .nil
  | (name, h) :: rest => by
    rw [resolveServices]
    exact .cons name (Health.filled_resolve h) (filled_resolveServices rest)
end

namespace Health

/-- Only a node without status and services is without a status once it is resolved. -/
theorem resolve_isSome {h : Health} (said : h.status.isSome ∨ h.services ≠ []) :
    h.resolve.status.isSome := by
  obtain ⟨status, message, services⟩ := h
  rcases status with _ | s <;> rcases services with _ | ⟨c, cs⟩ <;> simp_all [Health.resolve]

theorem resolve_of_bare {h : Health} (silent : h.status = none) (bare : h.services = []) :
    h.resolve = h := by
  obtain ⟨status, message, services⟩ := h
  cases silent
  cases bare
  rw [Health.resolve]

/-- Resolving once is enough. -/
theorem resolve_resolve (h : Health) : h.resolve.resolve = h.resolve := by
  by_cases said : h.status.isSome ∨ h.services ≠ []
  · exact resolve_of_explicit (resolve_isSome said)
  · simp only [not_or, Option.not_isSome_iff_eq_none, not_not] at said
    rw [resolve_of_bare said.1 said.2, resolve_of_bare said.1 said.2]

end Health

namespace Outcome

/-- The status a group reads off an answer: that which its health comes to, once a failure is
brought in line with its fault. -/
def reading : Outcome → Status
  | .ok h => h.effective
  | .error f => f.normalized.health.effective

/-- **What a group makes of an answer says the status that was read off it**, under every name. -/
theorem judged_status (name : String) (o : Outcome) :
    (o.judged name).health.status = some o.reading := by
  cases o with
  | error f => rfl
  | ok h =>
    rw [reading, Health.effective_eq_resolve]
    simp only [judged]
    cases status : h.resolve.status with
    | none => rfl
    | some s =>
      simp only [Option.getD_some]
      cases s.passing <;> exact status

/-- The child has failed if that status does not pass. -/
theorem judged_failing {name : String} {o : Outcome} :
    (o.judged name).health.Failing ↔ o.reading.passing = false := by
  rw [Health.Failing, judged_status]
  cases o.reading <;> decide

end Outcome

/-- **The ways of reading a status agree.** Resolving sets the status a node comes to, if there is
anything to tell it by, and leaves a bare node alone, which comes to unhealthy. It does not change
what the node comes to, does nothing a second time, and fills in statuses and nothing else. A group
enters a child that passes with this health under its name with the status it comes to, leaves the
other names alone, and counts the child as failed if that status does not pass. -/
theorem Health.readings_agree (h : Health) :
    (h.status.isSome ∨ h.services ≠ [] → h.resolve.status = some h.effective) ∧
    (h.status = none → h.services = [] → h.resolve = h ∧ h.effective = .unhealthy) ∧
    h.resolve.effective = h.effective ∧ h.resolve.resolve = h.resolve ∧ h.Filled h.resolve ∧
    ∀ (g : Gathered) (name : String),
      (∃ entry, (g.add name (.ok h)).services.get? name = some entry ∧
        entry.status = some h.effective) ∧
      (∀ other ≠ name, (g.add name (.ok h)).services.get? other = g.services.get? other) ∧
      (g.add name (.ok h)).failed = g.failed + if h.effective.passing then 0 else 1 := by
  refine ⟨?_, ?_, ?_, h.resolve_resolve, h.filled_resolve, ?_⟩
  · intro said
    obtain ⟨s, status⟩ := Option.isSome_iff_exists.mp (resolve_isSome said)
    rw [effective_eq_resolve, status, Option.getD_some]
  · intro silent bare
    have kept := resolve_of_bare silent bare
    exact ⟨kept, by rw [effective_eq_resolve, kept, silent, Option.getD_none]⟩
  · rw [effective_eq_resolve, effective_eq_resolve h, resolve_resolve]
  · intro g name
    rw [Gathered.add_eq]
    refine ⟨⟨_, ?_, Outcome.judged_status name (.ok h)⟩, fun other ne => ?_, ?_⟩
    · rw [Services.get?_insert, if_pos rfl]
    · rw [Services.get?_insert, if_neg ne]
    · simp only [Outcome.judged_failing, Outcome.reading]
      cases h.effective.passing <;> rfl

/-- A node that says nothing of itself, over one of the same kind and one that says it is healthy in
spite of what stands below it. -/
theorem Health.readings_agree_nested :
    let above : Health := ⟨some .healthy, "", [("d", ⟨none, "", [("e", .unhealthy "down")]⟩)]⟩
    let silent (status inner : Option Status) : Health :=
      ⟨status, "m", [("a", ⟨inner, "", [("b", .degraded "slow")]⟩), ("c", above)]⟩
    let h := silent none none
    (h.status.isSome ∨ h.services ≠ []) ∧ h.resolve.status = some h.effective ∧
      h.resolve = silent (some .degraded) (some .degraded) ∧
      ∃ entry, (Gathered.add {} "g" (.ok h)).services.get? "g" = some entry ∧
        entry.status = some .degraded ∧ (Gathered.add {} "g" (.ok h)).failed = 0 := by
  intro above silent h
  have inhabited : h.status.isSome ∨ h.services ≠ [] := .inr (List.cons_ne_nil _ _)
  obtain ⟨resolved, _, _, _, _, group⟩ := Health.readings_agree h
  have comes : h.effective = .degraded := by decide +kernel
  obtain ⟨⟨entry, found, status⟩, _, counted⟩ := group {} "g"
  refine ⟨inhabited, resolved inhabited, by rfl, entry, found, by rw [status, comes], ?_⟩
  rw [counted, comes]
  rfl

end HealthTree
