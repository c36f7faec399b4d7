import HealthTree.Proofs.Interruption

/-!
# Composite nodes that are left without a status

A report should say the status of every node that has services (`Health.Told`). Resolving sees to
this only as far as it goes: it descends from a node to its services while the status is unset, and
a node that has a status is taken as it is, with all that stands below it. So what has to hold
beforehand is that no composite node without a status stands below a node with one
(`Health.Unbroken`), and this is all that has to hold (`told_resolve`).

A group judges each answer, which resolves it and then sets what is left open at its root. Its
own derivation adds nothing: every entry has a status by then. So the health of a group says all
statuses if and only if the answers that stand in it were unbroken (`group_told_iff`). An answer that
was replaced under its name does not count, and what an interruption fills in has no services. One
level of nesting below a status that a child sets itself is enough for a node to be left open
(`group_untold`).
-/

namespace HealthTree

/-! ## Every node of a report -/

mutual
/-- The node and all that stands below it. -/
def Health.nodes : Health → List Health
  | ⟨s, m, cs⟩ => ⟨s, m, cs⟩ :: nodesOf cs
/-- The services and all that stands below them. -/
def nodesOf : List (String × Health) → List Health
  | [] => []
  | (_, h) :: rest => h.nodes ++ nodesOf rest
end

/-- A node below some services is a node of one of them. -/
theorem mem_nodesOf {n : Health} {services : Services} :
    n ∈ nodesOf services ↔ ∃ e ∈ services, n ∈ e.2.nodes := by
  induction services with
  | nil => simp [nodesOf]
  | cons entry rest ih =>
    obtain ⟨name, h⟩ := entry
    simp [nodesOf, ih]

namespace Health

theorem mem_nodes {n h : Health} : n ∈ h.nodes ↔ n = h ∨ ∃ e ∈ h.services, n ∈ e.2.nodes := by
  obtain ⟨status, message, services⟩ := h
  rw [nodes, List.mem_cons, mem_nodesOf]

/-- **Every node that has services says its status.** -/
def Told (h : Health) : Prop :=
  ∀ n ∈ h.nodes, n.services ≠ [] → n.status.isSome

/-- **No node that has services and no status stands below a node with a status.** -/
def Unbroken (h : Health) : Prop :=
  ∀ n ∈ h.nodes, n.status.isSome → n.Told

instance (h : Health) : Decidable h.Told := inferInstanceAs (Decidable (∀ n ∈ h.nodes, _))

instance (h : Health) : Decidable h.Unbroken := inferInstanceAs (Decidable (∀ n ∈ h.nodes, _))

theorem told_iff {h : Health} :
    h.Told ↔ (h.services ≠ [] → h.status.isSome) ∧ ∀ e ∈ h.services, e.2.Told := by
  constructor
  · intro told
    refine ⟨told h (mem_nodes.mpr (.inl rfl)), fun e mem n below => ?_⟩
    exact told n (mem_nodes.mpr (.inr ⟨e, mem, below⟩))
  · rintro ⟨root, below⟩ n mem
    rcases mem_nodes.mp mem with rfl | ⟨e, listed, inside⟩
    · exact root
    · exact below e listed n inside

theorem unbroken_iff {h : Health} :
    h.Unbroken ↔ (h.status.isSome → h.Told) ∧ ∀ e ∈ h.services, e.2.Unbroken := by
  constructor
  · intro unbroken
    refine ⟨unbroken h (mem_nodes.mpr (.inl rfl)), fun e mem n below => ?_⟩
    exact unbroken n (mem_nodes.mpr (.inr ⟨e, mem, below⟩))
  · rintro ⟨root, below⟩ n mem
    rcases mem_nodes.mp mem with rfl | ⟨e, listed, inside⟩
    · exact root
    · exact below e listed n inside

end Health

mutual
/-- Where every status is said, none is missing below one that is. -/
theorem Health.Told.unbroken : {h : Health} → h.Told → h.Unbroken
  | ⟨_, _, _⟩, told =>
    Health.unbroken_iff.mpr ⟨fun _ => told, unbroken_of_told (Health.told_iff.mp told).2⟩
/-- The same for services. -/
theorem unbroken_of_told : {services : List (String × Health)} →
    (∀ e ∈ services, e.2.Told) → ∀ e ∈ services, e.2.Unbroken
  | [], _ => by simp
  | (_, _) :: _, told => by
    obtain ⟨first, rest⟩ := List.forall_mem_cons.mp told
    exact List.forall_mem_cons.mpr ⟨first.unbroken, unbroken_of_told rest⟩
end

/-- A leaf that says its status leaves none unsaid. -/
theorem Health.told_leaf (status : Status) (message : String) : (leaf status message).Told :=
  told_iff.mpr ⟨fun _ => rfl, by simp [leaf]⟩

mutual
/-- **Resolving makes a report say every status if and only if it was unbroken.** -/
theorem Health.told_resolve : (h : Health) → (h.resolve.Told ↔ h.Unbroken)
  | ⟨none, m, c :: cs⟩ => by
    rw [Health.resolve, Health.told_iff, Health.unbroken_iff]
    simp only [Option.isSome_some, Option.isSome_none, Bool.false_eq_true, implies_true,
      false_implies, true_and]
    exact told_resolveServices (c :: cs)
  | ⟨none, m, []⟩ => by
    rw [Health.resolve, Health.told_iff, Health.unbroken_iff]
    simp
  | ⟨some s, m, cs⟩ => by
    rw [Health.resolve]
    exact ⟨Health.Told.unbroken, fun unbroken => (Health.unbroken_iff.mp unbroken).1 rfl⟩
/-- The same for services. -/
theorem told_resolveServices : (services : List (String × Health)) →
    ((∀ e ∈ resolveServices services, e.2.Told) ↔ ∀ e ∈ services, e.2.Unbroken)
  | [] => by simp [resolveServices]
  | (name, h) :: rest => by
    rw [resolveServices, List.forall_mem_cons, List.forall_mem_cons, Health.told_resolve h,
      told_resolveServices rest]
end

/-- A node that has services has a status once it is resolved. -/
theorem Health.resolve_explicit (h : Health) :
    h.resolve.services ≠ [] → h.resolve.status.isSome := by
  obtain ⟨status, message, services⟩ := h
  rcases status with _ | s <;> rcases services with _ | ⟨c, cs⟩ <;> simp [Health.resolve]

/-- **What a group makes of an answer says every status if and only if the answer was unbroken.** -/
theorem Outcome.told_judged (name : String) (o : Outcome) :
    (o.judged name).health.Told ↔ o.health.Unbroken := by
  have kept : (o.judged name).health.services = o.health.resolve.services := by
    cases o with
    | error f => rfl
    | ok h =>
      simp only [judged]
      rcases h.resolve.status with _ | s
      · rfl
      · cases passing : s.passing <;> simp only [passing] <;> rfl
  have explicit := (judged_fits name o).explicit
  rw [← Health.told_resolve, Health.told_iff, Health.told_iff, kept]
  exact and_congr_left fun _ => ⟨fun _ => o.health.resolve_explicit, fun _ _ => explicit⟩

/-! ## The answers that stand in a group -/

private theorem lookup_cons_ite {α : Type} (k name : String) (a : α) (rest : List (String × α)) :
    ((name, a) :: rest).lookup k = if k = name then some a else rest.lookup k := by
  rw [List.lookup_cons, beq_eq_decide]
  by_cases same : k = name <;> simp [same]

namespace Services

/-- Looking a name up after one was inserted. -/
theorem get?_insert {name k : String} {h : Health} {services : Services} :
    (services.insert name h).get? k = if k = name then some h else services.get? k := by
  simp only [get?]
  induction services with
  | nil => rw [insert, lookup_cons_ite]
  | cons entry rest ih =>
    obtain ⟨first, g⟩ := entry
    simp only [insert]
    split
    · rw [lookup_cons_ite]
    · split
      · next same =>
        subst same
        simp only [lookup_cons_ite]
        split <;> rfl
      · next other =>
        simp only [lookup_cons_ite, ih]
        grind

/-- In services that are in order, what holds of all of them is what holds of every one that can be
looked up. -/
theorem forall_iff_get? {services : Services} (ascending : services.Ascending)
    (P : String → Health → Prop) :
    (∀ e ∈ services, P e.1 e.2) ↔ ∀ name h, services.get? name = some h → P name h := by
  constructor
  · intro all name h found
    obtain ⟨before, after, rfl, _⟩ := List.lookup_eq_some_iff.mp found
    exact all (name, h) (by simp)
  · rintro all ⟨name, h⟩ mem
    exact all name h (get?_of_mem ascending mem)

end Services

namespace Gathered

/-- **The answer that stands under a name**: the last of those that were given under it. -/
def standing? (answers : List (String × Outcome)) (name : String) : Option Outcome :=
  answers.reverse.lookup name

theorem standing?_concat (answers : List (String × Outcome)) (a : String × Outcome)
    (name : String) :
    standing? (answers ++ [a]) name = if name = a.1 then some a.2 else standing? answers name := by
  rw [standing?, List.reverse_append, List.reverse_singleton, List.singleton_append,
    lookup_cons_ite, standing?]

/-- An answer stands under each name that answered. -/
theorem standing?_isSome {answers : List (String × Outcome)} {name : String} :
    (standing? answers name).isSome ↔ name ∈ answers.map Prod.fst := by
  induction answers using List.reverseRecOn with
  | nil => simp [standing?]
  | append_singleton answers a ih =>
    rw [standing?_concat, List.map_append, List.mem_append, ← ih]
    by_cases same : name = a.1 <;> simp [same]

/-- The entry of a name is what the group made of the answer that stands. -/
theorem get?_ofAnswers_standing (answers : List (String × Outcome)) (name : String) :
    (ofAnswers answers).services.get? name =
      (standing? answers name).map fun o => (o.judged name).health := by
  induction answers using List.reverseRecOn with
  | nil => rfl
  | append_singleton answers a ih =>
    rw [ofAnswers_concat, add_eq, Services.get?_insert, standing?_concat, ih]
    by_cases same : name = a.1 <;> simp [same]

/-- **An interruption is more answers**, also where children share a name: the cause answers for
each name under which no answer stands. -/
theorem foldl_addMissing_standing (cause : Fault) (names : List String)
    (answers : List (String × Outcome)) :
    ∃ all, names.foldl (addMissing cause) (ofAnswers answers) = ofAnswers all ∧
      ∀ name, standing? all name = (standing? answers name).or
        (if name ∈ names then some (.error (.ofFault cause)) else none) := by
  induction names generalizing answers with
  | nil => exact ⟨answers, rfl, by simp⟩
  | cons first rest ih =>
    simp only [List.foldl_cons, addMissing, Services.has_iff, mem_names_ofAnswers,
      ← standing?_isSome]
    cases standing : standing? answers first with
    | some o =>
      obtain ⟨all, gathered, stands⟩ := ih answers
      refine ⟨all, by simpa using gathered, fun name => ?_⟩
      rw [stands]
      by_cases same : name = first <;> simp [same, standing]
    | none =>
      obtain ⟨all, gathered, stands⟩ := ih (answers ++ [(first, .error (.ofFault cause))])
      rw [ofAnswers_concat] at gathered
      refine ⟨all, by simpa using gathered, fun name => ?_⟩
      rw [stands, standing?_concat]
      by_cases same : name = first <;> simp [same, standing]

/-- The outcome of a group says every status if and only if the answers that stand were unbroken. -/
theorem told_outcome {answers : List (String × Outcome)} {g : Gathered}
    (gathered : g.services = (ofAnswers answers).services) (total : Nat) :
    (g.outcome total).health.Told ↔
      ∀ name o, standing? answers name = some o → o.health.Unbroken := by
  have ascending : g.services.Ascending := gathered ▸ services_ofAnswers_ascending answers
  have entries (name : String) : g.services.get? name =
      (standing? answers name).map fun o => (o.judged name).health :=
    gathered ▸ get?_ofAnswers_standing answers name
  have explicit : ∀ e ∈ g.services, e.2.status.isSome := by
    refine (Services.forall_iff_get? ascending fun _ h => h.status.isSome).mpr ?_
    intro name h found
    rw [entries] at found
    obtain ⟨o, _, rfl⟩ := Option.map_eq_some_iff.mp found
    exact (Outcome.judged_fits name o).explicit
  rw [(outcome_of_explicit explicit total).1, Health.told_iff]
  simp only [Option.isSome_some, implies_true, true_and]
  rw [Services.forall_iff_get? ascending fun _ h => h.Told]
  simp only [entries, Option.map_eq_some_iff]
  constructor
  · intro told name o stands
    exact (Outcome.told_judged name o).mp (told name _ ⟨o, stands, rfl⟩)
  · rintro unbroken name h ⟨o, stands, rfl⟩
    exact (Outcome.told_judged name o).mpr (unbroken name o stands)

/-- An interruption leaves it at that: what it fills in has no services. -/
theorem told_interrupt (answers : List (String × Outcome)) (cause : Fault) (names : List String)
    (total : Nat) :
    (((ofAnswers answers).interrupt cause names).outcome total).health.Told ↔
      ∀ name o, standing? answers name = some o → o.health.Unbroken := by
  obtain ⟨all, gathered, stands⟩ := foldl_addMissing_standing cause names answers
  have same : ((ofAnswers answers).interrupt cause names).services = (ofAnswers all).services := by
    rw [interrupt, gathered]
  rw [told_outcome same]
  constructor
  · intro unbroken name o standing
    exact unbroken name o (by rw [stands, standing, Option.some_or])
  · intro unbroken name o standing
    rw [stands, Option.or_eq_some_iff] at standing
    rcases standing with standing | ⟨_, filled⟩
    · exact unbroken name o standing
    · split at filled
      · cases filled
        exact (Health.told_leaf _ _).unbroken
      · cases filled

end Gathered

/-! ## Whole calls -/

namespace Flight

variable {scope : ScopeId} {names : List String} {given : List (String × Outcome)}
  {flight : Flight} {ws : List World}

/-- **A group that waits ends with what was recorded**: when that is the answers of all children, or
when it is interrupted before. -/
theorem Waits.through_ended (waits : Waits names given flight)
    (isOver : (flight.through scope ws).Over) :
    let all := given ++ flight.recorded scope ws
    ∃ g, flight.through scope ws = .done (Gathered.outcome g names.length) ∧
      (g = .ofAnswers all ∧ (all.map Prod.fst).Perm names ∨
        ∃ cause waiting, g = (Gathered.ofAnswers all).interrupt cause names ∧ waiting ≠ [] ∧
          (all.map Prod.fst ++ waiting).Perm names) := by
  induction ws generalizing flight given with
  | nil => exact isOver.elim
  | cons w ws ih =>
    cases ended : w.cause? scope with
    | some cause =>
      obtain ⟨name, waiting, perm, some⟩ := waits
      have done : ((gathering name names (.ofAnswers given) waiting).step scope w).1 =
          .done (((Gathered.ofAnswers given).interrupt cause names).outcome names.length) := by
        simp only [Flight.step, ended]
        rfl
      simp only [through, recorded, done, answers, ended, List.append_nil]
      exact ⟨_, rfl, .inr ⟨cause, _, rfl, by simpa using some, perm⟩⟩
    | none =>
      rcases waits.step_live ended with ⟨next, taken, on⟩ | ⟨done, all⟩
      · simp only [through, taken] at isOver
        simp only [through, recorded, taken, ← List.append_assoc]
        exact ih on isOver
      · simp only [through, recorded, done, List.append_nil]
        exact ⟨_, rfl, .inl ⟨rfl, all⟩⟩

/-- So it ends with what was recorded, interrupted or not. -/
theorem Waits.through_over (waits : Waits names given flight)
    (isOver : (flight.through scope ws).Over) :
    ∃ g, flight.through scope ws = .done (Gathered.outcome g names.length) ∧
      (g = .ofAnswers (given ++ flight.recorded scope ws) ∨
        ∃ cause, g = (Gathered.ofAnswers (given ++ flight.recorded scope ws)).interrupt cause
          names) := by
  obtain ⟨g, done, ⟨gathered, _⟩ | ⟨cause, _, gathered, _⟩⟩ := waits.through_ended isOver
  · exact ⟨g, done, .inl gathered⟩
  · exact ⟨g, done, .inr ⟨cause, gathered⟩⟩

variable {name : String} {children : List Check}

/-- From its first step on, a group goes on as one whose children are set out. -/
theorem through_fresh_setOut (inhabited : children ≠ []) (w : World) (ws : List World) :
    ∃ rest, (fresh (.group name children)).through scope (w :: ws) =
        (setOut name children).through scope rest ∧
      (fresh (.group name children)).recorded scope (w :: ws) =
        (setOut name children).recorded scope rest := by
  cases ended : w.cause? scope with
  | none => exact ⟨ws, through_fresh_group inhabited ended ws⟩
  | some cause =>
    have same : (fresh (.group name children)).step scope w = (setOut name children).step scope w :=
      step_fresh_ended inhabited ended
    refine ⟨w :: ws, by simp only [through, same], ?_⟩
    simp only [recorded, same, setOut, answers, ended]

/-- **The health of a group says the status of every node that has services if and only if each
answer that stands in it was unbroken**: for all children, whatever they answer, in whatever order,
and whether or not the scope ends first. -/
theorem group_told_iff (isOver : ((fresh (.group name children)).through scope ws).Over) :
    ∃ o, (fresh (.group name children)).through scope ws = .done o ∧
      (o.health.Told ↔ ∀ child answer,
        Gathered.standing? ((fresh (.group name children)).recorded scope ws) child = some answer →
          answer.health.Unbroken) := by
  cases ws with
  | nil => exact isOver.elim
  | cons w ws =>
    by_cases empty : children = []
    · subst empty
      refine ⟨_, rfl, fun _ child answer stands => ?_, fun _ => Health.told_leaf _ _⟩
      cases stands
    · obtain ⟨rest, through, recorded⟩ : ∃ rest,
          (fresh (.group name children)).through scope (w :: ws) = _ ∧ _ :=
        through_fresh_setOut empty w ws
      rw [through] at isOver ⊢
      rw [recorded]
      obtain ⟨g, done, rfl | ⟨cause, rfl⟩⟩ := (setOut_waits empty).through_over isOver
      · exact ⟨_, done, Gathered.told_outcome rfl _⟩
      · exact ⟨_, done, Gathered.told_interrupt _ cause _ _⟩

/-- Two children called "a" and a third that is still waited for when the scope runs past its
deadline. The answer that left a node open was replaced, so every status is said. -/
theorem group_told_replaced :
    let nested (status : Option Status) : Health :=
      ⟨status, "", [("x", ⟨none, "", [("y", .healthy)]⟩)]⟩
    let ask (name : String) (pauses : List Pause) (status : Option Status) : Check :=
      .probe ⟨name, name, ⟨pauses, .outcome (.ok (nested status))⟩, []⟩
    let group : Flight := .fresh (.group "g" [ask "a" [] (some .healthy),
      ask "a" [⟨some 3, true⟩] none, ask "c" [⟨some 9, false⟩] (some .healthy)])
    let world (now : Nat) : World := { now := now, scopes := ⟨[{ deadline := some 5 }]⟩ }
    let ws : List World := [world 0, world 0, world 3, world 5]
    (group.through 0 ws).Over ∧ ¬ (nested (some .healthy)).Unbroken ∧
      ∃ o, group.through 0 ws = .done o ∧ o.health.Told := by
  intro nested ask group world ws
  have isOver : (group.through 0 ws).Over := by decide +kernel
  obtain ⟨o, done, told⟩ := group_told_iff isOver
  refine ⟨isOver, by decide +kernel, o, done, told.mpr fun child answer stands => ?_⟩
  have recorded : group.recorded 0 ws =
      [("a", .ok (nested (some .healthy))), ("a", .ok (nested none))] := rfl
  rw [recorded, Gathered.standing?, List.reverse_cons, List.reverse_singleton,
    List.singleton_append, lookup_cons_ite, lookup_cons_ite] at stands
  have last : answer = .ok (nested none) := by grind
  subst last
  decide +kernel

/-- A child that sets its own status and leaves that of a service with services open: the group
passes it on as it is. -/
theorem group_untold :
    let report : Health := ⟨some .healthy, "", [("x", ⟨none, "", [("y", .healthy)]⟩)]⟩
    let group : Flight := .fresh (.group "g" [.probe ⟨"a", "a", ⟨[], .outcome (.ok report)⟩, []⟩])
    let live : World := { scopes := ⟨[{}]⟩ }
    ∃ o, group.through 0 [live, live] = .done o ∧ ¬ o.health.Told := by
  intro report group live
  exact ⟨_, rfl, by decide +kernel⟩

end Flight

end HealthTree
