import HealthTree.Group
import HealthTree.Proofs.Derivation
import HealthTree.Proofs.Services
import Mathlib.Data.List.Induction

/-!
# What a group makes of its children's answers

A group sees the answers of its children one after the other. `Gathered.ofAnswers` is what it has
gathered from a list of them, in the order in which they came; an interruption is more answers, one
for each child that has not given any (`interrupt_ofAnswers`).

Judging an answer makes its status fit its side (`judged_fits`): what passes is healthy or degraded,
what failed is unhealthy-class, and either says so outright. With names of their own, the entries
are the judged answers (`services_ofAnswers_perm`), the count of failures is the count of failing
entries (`failed_ofAnswers`), and a fault was entered exactly if something failed
(`last_ofAnswers`). So the outcome keeps `GroupContract`.
-/

namespace HealthTree

namespace Health

/-- Healthy or degraded, and said outright. -/
def Passing (h : Health) : Prop :=
  h.status = some .healthy ∨ h.status = some .degraded

/-- Unhealthy or partially so, and said outright. -/
def Failing (h : Health) : Prop :=
  h.status = some .unhealthy ∨ h.status = some .partiallyUnhealthy

instance (h : Health) : Decidable h.Passing := inferInstanceAs (Decidable (_ ∨ _))

instance (h : Health) : Decidable h.Failing := inferInstanceAs (Decidable (_ ∨ _))

theorem Passing.of_passing {h : Health} {s : Status} (status : h.status = some s)
    (passing : s.passing = true) : h.Passing := by
  cases s <;> simp_all [Passing, Status.passing]

theorem Failing.of_not_passing {h : Health} {s : Status} (status : h.status = some s)
    (failing : s.passing = false) : h.Failing := by
  cases s <;> simp_all [Failing, Status.passing]

theorem Passing.not_failing {h : Health} (passing : h.Passing) : ¬ h.Failing := by
  rcases passing with status | status <;> simp [Failing, status]

/-- A status that is said outright passes or fails. -/
theorem explicit_iff {h : Health} : h.status.isSome ↔ h.Passing ∨ h.Failing := by
  obtain ⟨status, message, services⟩ := h
  cases status with
  | none => simp [Passing, Failing]
  | some s => cases s <;> simp [Passing, Failing]

/-- Where a status is said, being unhealthy-class is failing. -/
theorem unhealthyClass_iff {h : Health} (explicit : h.status.isSome) :
    Status.unhealthyClass h.status = true ↔ h.Failing := by
  obtain ⟨status, message, services⟩ := h
  cases status with
  | none => cases explicit
  | some s => cases s <;> simp [Failing, Status.unhealthyClass]

end Health

namespace Outcome

/-- **The status fits the side**: what passes is healthy or degraded, what failed is
unhealthy-class. -/
def Fits : Outcome → Prop
  | .ok h => h.Passing
  | .error f => f.health.Failing

/-- A failure brought in line with its fault fits. -/
theorem normalized_fits (f : Failure) : f.normalized.health.Failing := by
  simp only [Failure.normalized, Failure.normalHealth]
  cases f.health.resolve.status with
  | none => exact .inl rfl
  | some s => cases s <;> simp [Health.Failing, Status.passing]

/-- What a group makes of an answer fits, whatever the answer was. -/
theorem judged_fits (name : String) (o : Outcome) : (o.judged name).Fits := by
  cases o with
  | error f => exact normalized_fits f
  | ok h =>
    simp only [judged]
    cases status : h.resolve.status with
    | none => exact .inl rfl
    | some s =>
      simp only
      cases passing : s.passing with
      | true => exact Health.Passing.of_passing status passing
      | false => exact Health.Failing.of_not_passing status passing

/-- An outcome that fits has a fault exactly if its status is failing. -/
theorem Fits.fault?_isSome {o : Outcome} (fits : o.Fits) :
    o.fault?.isSome ↔ o.health.Failing := by
  cases o with
  | ok h => simpa [fault?, health] using Health.Passing.not_failing fits
  | error f => simpa [fault?, health, Fits] using fits

theorem Fits.explicit {o : Outcome} (fits : o.Fits) : o.health.status.isSome := by
  rw [Health.explicit_iff]
  cases o with
  | ok h => exact .inl fits
  | error f => exact .inr fits

end Outcome

namespace Gathered

/-- What a child's answer is entered as. -/
def entry (a : String × Outcome) : String × Health :=
  (a.1, (a.2.judged a.1).health)

/-- **What is gathered from answers** that came in this order. -/
def ofAnswers (answers : List (String × Outcome)) : Gathered :=
  answers.foldl (fun g a => g.add a.1 a.2) {}

theorem ofAnswers_concat (answers : List (String × Outcome)) (a : String × Outcome) :
    ofAnswers (answers ++ [a]) = (ofAnswers answers).add a.1 a.2 := by
  simp only [ofAnswers, List.foldl_append, List.foldl_cons, List.foldl_nil]

/-- Gathering an answer enters its health, and counts and keeps its fault if it has one. -/
theorem add_eq (g : Gathered) (name : String) (o : Outcome) :
    g.add name o =
      { services := g.services.insert name (o.judged name).health
        failed := g.failed + if (o.judged name).health.Failing then 1 else 0
        last := (o.judged name).fault?.or g.last } := by
  have fits := (Outcome.judged_fits name o).fault?_isSome
  simp only [add]
  cases judged : o.judged name with
  | ok h =>
    rw [judged] at fits
    have passing : ¬ h.Failing := by simpa [Outcome.fault?, Outcome.health] using fits
    simp [enter, Outcome.health, Outcome.fault?, passing]
  | error f =>
    rw [judged] at fits
    have failing : f.health.Failing := by simpa [Outcome.fault?, Outcome.health] using fits
    simp [enter, Outcome.health, Outcome.fault?, failing]

/-- Every name that answered has an entry, and no other. -/
theorem mem_names_ofAnswers {name : String} {answers : List (String × Outcome)} :
    name ∈ (ofAnswers answers).services.names ↔ name ∈ answers.map Prod.fst := by
  induction answers using List.reverseRecOn with
  | nil => simp [ofAnswers, Services.names]
  | append_singleton answers a ih =>
    rw [ofAnswers_concat, add_eq, Services.mem_names_insert, ih, List.map_append, List.mem_append]
    simp [or_comm]

theorem services_ofAnswers_ascending (answers : List (String × Outcome)) :
    (ofAnswers answers).services.Ascending := by
  induction answers using List.reverseRecOn with
  | nil => exact .nil
  | append_singleton answers a ih =>
    rw [ofAnswers_concat, add_eq]
    exact Services.insert_ascending ih

/-- **The entries are the judged answers**, if no two answers have one name. -/
theorem services_ofAnswers_perm {answers : List (String × Outcome)}
    (distinct : (answers.map Prod.fst).Nodup) :
    (ofAnswers answers).services.Perm (answers.map entry) := by
  induction answers using List.reverseRecOn with
  | nil => exact .refl _
  | append_singleton answers a ih =>
    rw [List.map_append, List.nodup_append] at distinct
    obtain ⟨tail, _, apart⟩ := distinct
    have fresh : a.1 ∉ (ofAnswers answers).services.names := fun mem =>
      apart a.1 (mem_names_ofAnswers.mp mem) a.1 (by simp) rfl
    rw [ofAnswers_concat, add_eq, List.map_append]
    refine (Services.insert_perm fresh).trans ?_
    exact ((ih tail).cons (entry a)).trans (List.perm_append_singleton _ _).symm

/-- The count of failures is the number of answers that failed. -/
theorem failed_ofAnswers (answers : List (String × Outcome)) :
    (ofAnswers answers).failed = answers.countP fun a => (entry a).2.Failing := by
  induction answers using List.reverseRecOn with
  | nil => rfl
  | append_singleton answers a ih =>
    rw [ofAnswers_concat, add_eq, List.countP_append, List.countP_singleton, ← ih]
    change _ + (if (entry a).2.Failing then 1 else 0) = _
    simp only [decide_eq_true_eq]

/-- A fault was entered exactly if something failed. -/
theorem last_ofAnswers (answers : List (String × Outcome)) :
    (ofAnswers answers).last = none ↔ (ofAnswers answers).failed = 0 := by
  induction answers using List.reverseRecOn with
  | nil => simp [ofAnswers]
  | append_singleton answers a ih =>
    have fits := (Outcome.judged_fits a.1 a.2).fault?_isSome
    rw [ofAnswers_concat, add_eq]
    by_cases failing : (a.2.judged a.1).health.Failing
    · obtain ⟨fault, some⟩ := Option.isSome_iff_exists.mp (fits.mpr failing)
      simp [failing, some]
    · have none : (a.2.judged a.1).fault? = none := by
        simpa [failing] using fits
      simp [failing, none, ih]

/-- **The order of the answers does not show**: from the same entries, the same services and the
same count are gathered, and a fault is kept or is not. Which fault, depends on the order. -/
theorem ofAnswers_perm {answers answers' : List (String × Outcome)}
    (distinct : (answers.map Prod.fst).Nodup)
    (perm : (answers.map entry).Perm (answers'.map entry)) :
    (ofAnswers answers).services = (ofAnswers answers').services ∧
      (ofAnswers answers).failed = (ofAnswers answers').failed ∧
      ((ofAnswers answers).last = none ↔ (ofAnswers answers').last = none) := by
  have distinct' : (answers'.map Prod.fst).Nodup := by
    have names := perm.map Prod.fst
    rw [List.map_map, List.map_map] at names
    exact names.nodup_iff.mp distinct
  have services : (ofAnswers answers).services = (ofAnswers answers').services := by
    apply Services.eq_of_perm _ (services_ofAnswers_ascending _) (services_ofAnswers_ascending _)
    exact (services_ofAnswers_perm distinct).trans
      (perm.trans (services_ofAnswers_perm distinct').symm)
  have failed : (ofAnswers answers).failed = (ofAnswers answers').failed := by
    have counted := perm.countP_eq fun e => decide e.2.Failing
    rw [List.countP_map, List.countP_map] at counted
    rw [failed_ofAnswers, failed_ofAnswers]
    exact counted
  exact ⟨services, failed, by rw [last_ofAnswers, last_ofAnswers, failed]⟩

/-! ## Interruption -/

/-- The answers that an interruption gives for the children that have not answered, in the order
of the names. -/
def missing (cause : Fault) (answers : List (String × Outcome)) (names : List String) :
    List (String × Outcome) :=
  (names.filter (· ∉ answers.map Prod.fst)).map fun name => (name, .error (.ofFault cause))

/-- An answer of another child changes nothing about which of these are missing. -/
theorem missing_concat (cause : Fault) {answers : List (String × Outcome)} {a : String × Outcome}
    {names : List String} (other : a.1 ∉ names) :
    missing cause (answers ++ [a]) names = missing cause answers names := by
  have same : names.filter (· ∉ (answers ++ [a]).map Prod.fst) =
      names.filter (· ∉ answers.map Prod.fst) := by
    apply List.filter_congr
    intro name mem
    have : name ≠ a.1 := fun eq => other (eq ▸ mem)
    simp [this]
  rw [missing, missing, same]

private theorem foldl_addMissing (cause : Fault) {names : List String} (distinct : names.Nodup)
    (answers : List (String × Outcome)) :
    names.foldl (addMissing cause) (ofAnswers answers) =
      ofAnswers (answers ++ missing cause answers names) := by
  induction names generalizing answers with
  | nil => simp [missing]
  | cons name rest ih =>
    obtain ⟨other, distinct⟩ := List.nodup_cons.mp distinct
    simp only [List.foldl_cons, addMissing, Services.has_iff, mem_names_ofAnswers]
    by_cases answered : name ∈ answers.map Prod.fst
    · rw [if_pos answered, ih distinct]
      simp only [missing, List.filter_cons, answered, not_true_eq_false, decide_false,
        Bool.false_eq_true, if_false]
    · rw [if_neg answered, ← ofAnswers_concat answers (name, .error (.ofFault cause)),
        ih distinct, missing_concat cause other]
      simp only [missing, List.filter_cons, answered, not_false_eq_true, decide_true, if_true,
        List.map_cons, List.append_assoc, List.singleton_append]

/-- **An interruption answers for the children that have not**, and its cause comes last. -/
theorem interrupt_ofAnswers (cause : Fault) {names : List String} (distinct : names.Nodup)
    (answers : List (String × Outcome)) :
    (ofAnswers answers).interrupt cause names =
      { ofAnswers (answers ++ missing cause answers names) with last := some cause } := by
  rw [interrupt, foldl_addMissing cause distinct]

/-- The names that answered, with those that an interruption answers for, are all names. -/
theorem answered_missing_perm (cause : Fault) {answers : List (String × Outcome)}
    {waiting names : List String} (distinct : names.Nodup)
    (perm : (answers.map Prod.fst ++ waiting).Perm names) :
    ((answers ++ missing cause answers names).map Prod.fst).Perm names := by
  have apart := List.nodup_append.mp (perm.nodup_iff.mpr distinct)
  have left : (missing cause answers names).map Prod.fst =
      names.filter (· ∉ answers.map Prod.fst) := by
    simp [missing, Function.comp_def]
  rw [List.map_append, left]
  refine (List.Perm.append_left _ ?_).trans perm
  refine (perm.symm.filter _).trans ?_
  rw [List.filter_append]
  have none : (answers.map Prod.fst).filter (· ∉ answers.map Prod.fst) = [] := by simp
  have all : waiting.filter (· ∉ answers.map Prod.fst) = waiting := by
    apply List.filter_eq_self.mpr
    intro name mem
    simpa using fun o answered => apart.2.2 name (List.mem_map_of_mem answered) name mem rfl
  rw [none, all, List.nil_append]

end Gathered

/-! ## The contract -/

/-- **The contract of a group** whose children have these names: the entries are one for each child
and say their status outright; the side is that of the status; a failure counts the children and
the failing entries, of which there is one; and the status is derived from the entries. -/
structure GroupContract (names : List String) (o : Outcome) : Prop where
  ascending : Services.Ascending o.health.services
  keys : ∀ name, name ∈ Services.names o.health.services ↔ name ∈ names
  explicit : ∀ e ∈ o.health.services, e.2.status.isSome
  passes : o.fault? = none ↔ o.health.Passing
  counts : ∀ fault, o.fault? = some fault →
    1 ≤ (o.health.services.countP fun e => e.2.Failing) ∧
      ∃ last, fault = .aggregate (o.health.services.countP fun e => e.2.Failing) names.length last
  unhealthy : o.health.status = some .unhealthy ↔ ∀ e ∈ o.health.services, e.2.Failing
  partiallyUnhealthy : o.health.status = some .partiallyUnhealthy ↔
    (∃ e ∈ o.health.services, e.2.Failing) ∧ ∃ e ∈ o.health.services, ¬ e.2.Failing
  degraded : o.health.status = some .degraded ↔
    (∀ e ∈ o.health.services, ¬ e.2.Failing) ∧
      ∃ e ∈ o.health.services, e.2.status = some .degraded
  healthy : o.health.status = some .healthy ↔
    (∀ e ∈ o.health.services, ¬ e.2.Failing) ∧
      ¬ ∃ e ∈ o.health.services, e.2.status = some .degraded

namespace Gathered

/-- Where every entry says its status, the outcome shows the entries as they were gathered. -/
theorem outcome_of_explicit {g : Gathered} (explicit : ∀ e ∈ g.services, e.2.status.isSome)
    (total : Nat) :
    (g.outcome total).health =
        ⟨some (Status.overall (g.services.map (·.2.status))), "", g.services⟩ ∧
      (g.outcome total).fault? = g.last.map (.aggregate g.failed total) := by
  simp only [outcome, Services.overall, resolveServices_of_explicit explicit]
  cases g.last <;> exact ⟨rfl, rfl⟩

/-- The status of a node whose services say theirs, in terms of the services. -/
private theorem overall_entries {services : Services} (inhabited : services ≠ [])
    (explicit : ∀ e ∈ services, e.2.status.isSome) :
    let status := Status.overall (services.map (·.2.status))
    (status = .unhealthy ↔ ∀ e ∈ services, e.2.Failing) ∧
    (status = .partiallyUnhealthy ↔
      (∃ e ∈ services, e.2.Failing) ∧ ∃ e ∈ services, ¬ e.2.Failing) ∧
    (status = .degraded ↔
      (∀ e ∈ services, ¬ e.2.Failing) ∧ ∃ e ∈ services, e.2.status = some .degraded) ∧
    (status = .healthy ↔
      (∀ e ∈ services, ¬ e.2.Failing) ∧ ¬ ∃ e ∈ services, e.2.status = some .degraded) := by
  have bad : ∀ e ∈ services, (Status.unhealthyClass e.2.status = true ↔ e.2.Failing) :=
    fun e mem => Health.unhealthyClass_iff (explicit e mem)
  have sound : ∀ e ∈ services, (Status.unhealthyClass e.2.status = false ↔ ¬ e.2.Failing) :=
    fun e mem => by rw [← bad e mem, Bool.not_eq_true]
  have nonempty : services.map (·.2.status) ≠ [] := by simpa using inhabited
  have one : ∀ p : Option Status → Prop,
      (∃ s ∈ services.map (·.2.status), p s) ↔ ∃ e ∈ services, p e.2.status := by simp
  simp only [Status.overall_eq_unhealthy_iff nonempty, Status.overall_eq_partiallyUnhealthy_iff,
    Status.overall_eq_degraded_iff, Status.overall_eq_healthy_iff, List.forall_mem_map, one]
  simp only [List.mem_map]
  refine ⟨?_, ?_, ?_, ?_⟩
  · exact forall₂_congr bad
  · exact and_congr (exists_congr fun e => and_congr_right (bad e))
      (exists_congr fun e => and_congr_right (sound e))
  · exact and_congr (forall₂_congr sound) .rfl
  · exact and_congr (forall₂_congr sound) .rfl

/-- **Answers of every child keep the contract**, whatever they were and in whatever order they
came, if the fault that is told is absent exactly when nothing failed. -/
theorem outcome_contract {answers : List (String × Outcome)} {names : List String}
    (distinct : names.Nodup) (inhabited : names ≠ [])
    (perm : (answers.map Prod.fst).Perm names) {last : Option Fault}
    (told : last = none ↔ (ofAnswers answers).failed = 0) :
    GroupContract names ({ ofAnswers answers with last := last }.outcome names.length) := by
  have entries := services_ofAnswers_perm (perm.nodup_iff.mpr distinct)
  have explicit : ∀ e ∈ (ofAnswers answers).services, e.2.status.isSome := fun e mem => by
    obtain ⟨a, _, rfl⟩ := List.mem_map.mp (entries.mem_iff.mp mem)
    exact (Outcome.judged_fits a.1 a.2).explicit
  have keys : ∀ name, name ∈ (ofAnswers answers).services.names ↔ name ∈ names := fun name => by
    rw [mem_names_ofAnswers, perm.mem_iff]
  have nonempty : (ofAnswers answers).services ≠ [] := fun empty => by
    obtain ⟨name, mem⟩ := List.exists_mem_of_ne_nil _ inhabited
    simpa [empty, Services.names] using (keys name).mpr mem
  have failed : (ofAnswers answers).failed =
      (ofAnswers answers).services.countP fun e => e.2.Failing := by
    rw [failed_ofAnswers, entries.countP_eq, List.countP_map]
    rfl
  obtain ⟨bad, some, worn, well⟩ := overall_entries nonempty explicit
  obtain ⟨health, fault⟩ :=
    outcome_of_explicit (g := { ofAnswers answers with last := last }) explicit names.length
  refine ⟨?_, ?_, ?_, ?_, ?_, ?_, ?_, ?_, ?_⟩
  all_goals simp only [health, fault, Option.some.injEq]
  · exact services_ofAnswers_ascending answers
  · exact keys
  · exact explicit
  · -- nothing is told exactly if no entry fails, and then the status is degraded or healthy
    rw [Option.map_eq_none_iff, told, failed, List.countP_eq_zero]
    simp only [Health.Passing, Option.some.injEq, worn, well, decide_eq_true_eq]
    constructor
    · intro sound
      by_cases one : ∃ e ∈ (ofAnswers answers).services, e.2.status = Option.some .degraded
      · exact .inr ⟨sound, one⟩
      · exact .inl ⟨sound, one⟩
    · rintro (⟨sound, _⟩ | ⟨sound, _⟩) <;> exact sound
  · intro f eq
    obtain ⟨cause, rfl, rfl⟩ := Option.map_eq_some_iff.mp eq
    refine ⟨?_, cause, by rw [failed]⟩
    rw [← failed]
    exact Nat.pos_of_ne_zero fun zero => Option.some_ne_none _ (told.mpr zero)
  · exact bad
  · exact some
  · exact worn
  · exact well

end Gathered

end HealthTree
