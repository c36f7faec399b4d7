import HealthTree.Proofs.Calls
import HealthTree.Proofs.GroupRun

/-!
# Groups that are interrupted

`Flight.recorded` is what the children of a group have answered in the steps taken so far. While the
scope is live the group gathers just these (`through_waits`), and it is over when every child is
among them (`through_done`). A step after the scope has ended looks at no child. It keeps what was
recorded and answers for the rest with the cause, which is also the fault that is told, although the
fill-in enters faults of its own.

So the outcome is read off what was recorded and the cause (`Interrupted`), whatever the point at
which the scope ends. The entry of a child that has answered is the one it has in a call that runs
to its end (`entry_uninterrupted`).
-/

namespace HealthTree

/-- **What an interruption makes of a group** whose children have these names, if the `recorded` of
them had answered: their entries are what the group makes of their answers, the others are unhealthy
leaves in the words of the cause, and the group fails with the cause for the last fault. -/
structure Interrupted (names : List String) (recorded : List (String × Outcome)) (cause : Fault)
    (f : Failure) : Prop where
  once : (recorded.map Prod.fst).Nodup
  known : ∀ a ∈ recorded, a.1 ∈ names
  unfinished : ∃ name ∈ names, name ∉ recorded.map Prod.fst
  ascending : Services.Ascending f.health.services
  keys : ∀ name, name ∈ Services.names f.health.services ↔ name ∈ names
  finished : ∀ a ∈ recorded,
    Services.get? a.1 f.health.services = some (a.2.judged a.1).health
  missing : ∀ name ∈ names, name ∉ recorded.map Prod.fst →
    Services.get? name f.health.services = some (.unhealthy cause.message)
  fault : f.fault = .aggregate
    (names.countP (· ∉ recorded.map Prod.fst) +
      recorded.countP fun a => (a.2.judged a.1).health.Failing) names.length cause
  interrupts : f.fault.interrupts = true ∧
    ∀ failed total, (Fault.aggregate failed total f.fault).interrupts = true
  partly : (∃ a ∈ recorded, (a.2.judged a.1).health.Passing) →
    f.health.status = some .partiallyUnhealthy
  wholly : (¬ ∃ a ∈ recorded, (a.2.judged a.1).health.Passing) →
    f.health.status = some .unhealthy

/-- A scope ends for a cause that shows as an interruption. -/
theorem World.cause?_interrupts {w : World} {scope : ScopeId} {cause : Fault}
    (ended : w.cause? scope = some cause) : cause.interrupts = true := by
  simp only [World.cause?, Scopes.cause?] at ended
  split at ended
  · cases ended
    rfl
  · split at ended
    · split at ended <;> cases ended
      rfl
    · cases ended

/-- Looking up a name gives what stands under it, in services that are in order. -/
theorem Services.get?_of_mem {name : String} {h : Health} {services : Services}
    (ascending : services.Ascending) (mem : (name, h) ∈ services) :
    services.get? name = some h := by
  induction services with
  | nil => cases mem
  | cons entry rest ih =>
    obtain ⟨first, g⟩ := entry
    obtain ⟨below, tail⟩ := List.pairwise_cons.mp ascending
    rcases List.mem_cons.mp mem with same | mem
    · cases same
      exact List.lookup_cons_self
    · have before : first < name := below name (List.mem_map_of_mem mem)
      have other : (name == first) = false := by
        rw [beq_eq_false_iff_ne]
        rintro rfl
        exact String.lt_irrefl name before
      show List.lookup name ((first, g) :: rest) = some h
      rw [List.lookup_cons, other]
      exact ih tail mem

namespace Gathered

variable {names : List String} {given : List (String × Outcome)}

/-- The entry of a name that answered is what the group made of its answer. -/
theorem get?_ofAnswers (once : (given.map Prod.fst).Nodup) {a : String × Outcome}
    (mem : a ∈ given) :
    (ofAnswers given).services.get? a.1 = some (a.2.judged a.1).health := by
  apply Services.get?_of_mem (services_ofAnswers_ascending given)
  exact (services_ofAnswers_perm once).mem_iff.mpr (List.mem_map_of_mem mem)

/-- Every entry says its status outright. -/
theorem explicit_ofAnswers (once : (given.map Prod.fst).Nodup) :
    ∀ e ∈ (ofAnswers given).services, e.2.status.isSome := by
  intro e mem
  obtain ⟨a, _, rfl⟩ := List.mem_map.mp ((services_ofAnswers_perm once).mem_iff.mp mem)
  exact (Outcome.judged_fits a.1 a.2).explicit

/-- A child that has not answered is entered as an unhealthy leaf in the words of the cause. -/
theorem judged_ofFault (name : String) (cause : Fault) :
    (Outcome.judged name (.error (.ofFault cause))).health = .unhealthy cause.message := by
  show Failure.normalHealth (.unhealthy cause.message) cause = .unhealthy cause.message
  unfold Failure.normalHealth
  rw [Health.resolve_of_explicit rfl]
  exact congrArg (fun words => Health.mk (some .unhealthy) words []) (ite_self _)

/-- An answer is missing from each name that has not given any. -/
theorem mem_missing {cause : Fault} {a : String × Outcome} :
    a ∈ missing cause given names ↔
      a.1 ∈ names ∧ a.1 ∉ given.map Prod.fst ∧ a.2 = .error (.ofFault cause) := by
  simp only [missing, List.mem_map, List.mem_filter, decide_eq_true_eq]
  constructor
  · rintro ⟨name, ⟨named, unanswered⟩, rfl⟩
    exact ⟨named, unanswered, rfl⟩
  · rintro ⟨named, unanswered, failed⟩
    exact ⟨a.1, ⟨named, unanswered⟩, by rw [← failed]⟩

/-- Every answer that is filled in is one that failed. -/
theorem countP_missing (cause : Fault) :
    ((missing cause given names).countP fun a => (entry a).2.Failing) =
      names.countP (· ∉ given.map Prod.fst) := by
  have failing : ∀ a ∈ missing cause given names, decide (entry a).2.Failing = true := by
    intro a mem
    obtain ⟨_, _, failed⟩ := mem_missing.mp mem
    simp only [entry, failed, judged_ofFault]
    exact decide_eq_true (.inl rfl)
  rw [List.countP_eq_length.mpr failing, missing, List.length_map, List.countP_eq_length_filter]

/-- **What a group comes to when an interruption answers for all that have not.** -/
theorem interrupted {cause : Fault} (ends : cause.interrupts = true) (distinct : names.Nodup)
    (once : (given.map Prod.fst).Nodup) (known : ∀ a ∈ given, a.1 ∈ names)
    (unfinished : ∃ name ∈ names, name ∉ given.map Prod.fst)
    (all : ((given ++ missing cause given names).map Prod.fst).Perm names) :
    ∃ f, Gathered.outcome
        { ofAnswers (given ++ missing cause given names) with last := some cause } names.length =
          .error f ∧
      Interrupted names given cause f := by
  let g : Gathered := { ofAnswers (given ++ missing cause given names) with last := some cause }
  have once' := all.nodup_iff.mpr distinct
  have entry_of : ∀ a ∈ given ++ missing cause given names,
      entry a ∈ g.services := fun a mem =>
    (services_ofAnswers_perm once').mem_iff.mpr (List.mem_map_of_mem mem)
  -- the entry that the interruption makes for a name
  have filled : ∀ name ∈ names, name ∉ given.map Prod.fst →
      (name, Health.unhealthy cause.message) ∈ g.services := by
    intro name named unanswered
    have mem := entry_of (name, .error (.ofFault cause))
      (List.mem_append_right _ (mem_missing.mpr ⟨named, unanswered, rfl⟩))
    rwa [entry, judged_ofFault] at mem
  have inhabited : names ≠ [] := by
    obtain ⟨name, named, _⟩ := unfinished
    exact List.ne_nil_of_mem named
  have failed : (ofAnswers (given ++ missing cause given names)).failed ≠ 0 := by
    rw [failed_ofAnswers, List.countP_append, countP_missing]
    have someone : 0 < names.countP (· ∉ given.map Prod.fst) :=
      List.countP_pos_iff.mpr (by simpa using unfinished)
    omega
  have contract : GroupContract names (g.outcome names.length) :=
    outcome_contract distinct inhabited all (by simp [failed])
  obtain ⟨health, fault⟩ := outcome_of_explicit (g := g) (explicit_ofAnswers once') names.length
  obtain ⟨f, told⟩ : ∃ f, g.outcome names.length = .error f := ⟨_, rfl⟩
  rw [told] at contract health fault
  have shown : f.health.services = g.services := congrArg Health.services health
  refine ⟨f, told, once, known, unfinished, contract.ascending, contract.keys, ?_, ?_, ?_, ?_, ?_,
    ?_⟩
  · intro a mem
    rw [shown]
    exact get?_ofAnswers once' (List.mem_append_left _ mem)
  · intro name named unanswered
    rw [shown]
    exact Services.get?_of_mem (services_ofAnswers_ascending _) (filled name named unanswered)
  · have counted : g.failed = names.countP (· ∉ given.map Prod.fst) +
        given.countP fun a => (a.2.judged a.1).health.Failing := by
      show (ofAnswers (given ++ missing cause given names)).failed = _
      rw [failed_ofAnswers, List.countP_append, countP_missing, Nat.add_comm]
      rfl
    rw [← counted]
    exact Option.some.inj fault
  · have last : f.fault = .aggregate g.failed names.length cause := Option.some.inj fault
    rw [last]
    exact ⟨ends, fun _ _ => ends⟩
  · rintro ⟨a, mem, passing⟩
    obtain ⟨name, named, unanswered⟩ := unfinished
    apply contract.partiallyUnhealthy.mpr
    refine ⟨⟨_, shown ▸ filled name named unanswered, .inl rfl⟩, entry a, ?_, passing.not_failing⟩
    exact shown ▸ entry_of a (List.mem_append_left _ mem)
  · intro none
    apply contract.unhealthy.mpr
    intro e mem
    obtain ⟨a, given', rfl⟩ := List.mem_map.mp
      ((services_ofAnswers_perm once').mem_iff.mp (shown ▸ mem))
    rcases List.mem_append.mp given' with answered | missed
    · have explicit := Health.explicit_iff.mp (Outcome.judged_fits a.1 a.2).explicit
      exact explicit.resolve_left fun passing => none ⟨a, answered, passing⟩
    · obtain ⟨_, _, failed⟩ := mem_missing.mp missed
      simp only [entry, failed, judged_ofFault]
      exact .inl rfl

end Gathered

namespace Flight

variable {scope : ScopeId}

/-- **What the children of a group have answered** in the steps taken in these worlds. -/
def recorded (scope : ScopeId) : Flight → List World → List (String × Outcome)
  | _, [] => []
  | flight, w :: ws =>
    flight.answers scope w ++
      match (flight.step scope w).1 with
      | .still next => next.recorded scope ws
      | .done _ | .panicked => []

/-- A group that still waits was never seen to be interrupted, and has gathered what was
recorded. -/
theorem Waits.through_still {names : List String} {given : List (String × Outcome)}
    {flight next : Flight} {ws : List World} (distinct : names.Nodup)
    (waits : Waits names given flight) (still : flight.through scope ws = .still next) :
    Waits names (given ++ flight.recorded scope ws) next := by
  induction ws generalizing flight given with
  | nil =>
    cases still
    simpa [recorded] using waits
  | cons w ws ih =>
    cases ended : w.cause? scope with
    | some cause =>
      obtain ⟨done, _⟩ := waits.step_ended distinct ended
      simp [through, done] at still
    | none =>
      rcases waits.step_live ended with ⟨next', taken, on⟩ | ⟨done, _⟩
      · simp only [through, taken] at still
        simp only [recorded, taken, ← List.append_assoc]
        exact ih on still
      · simp [through, done] at still

/-- A group that is over, and whose scope was live all the time, has gathered what was recorded, and
that is all. -/
theorem Waits.through_done {names : List String} {given : List (String × Outcome)}
    {flight : Flight} {o : Outcome} {ws : List World} (waits : Waits names given flight)
    (live : ∀ w ∈ ws, w.cause? scope = none) (done : flight.through scope ws = .done o) :
    o = (Gathered.ofAnswers (given ++ flight.recorded scope ws)).outcome names.length ∧
      ((given ++ flight.recorded scope ws).map Prod.fst).Perm names := by
  induction ws generalizing flight given with
  | nil => cases done
  | cons w ws ih =>
    obtain ⟨now, later⟩ := List.forall_mem_cons.mp live
    rcases waits.step_live now with ⟨next, taken, on⟩ | ⟨taken, all⟩
    · simp only [through, taken] at done
      simp only [recorded, taken, ← List.append_assoc]
      exact ih on later done
    · simp only [through, taken] at done
      simp only [recorded, taken, List.append_nil]
      exact ⟨(Turn.done.inj done).symm, all⟩

variable {name : String} {children : List Check}

/-- The first step of a group that finds its scope live sets the children out and records
nothing. -/
theorem through_fresh_group (inhabited : children ≠ []) {w : World}
    (live : w.cause? scope = none) (ws : List World) :
    (fresh (.group name children)).through scope (w :: ws) =
        (setOut name children).through scope ws ∧
      (fresh (.group name children)).recorded scope (w :: ws) =
        (setOut name children).recorded scope ws := by
  simp only [through, recorded, step_fresh_live inhabited live, answers, List.nil_append, and_self]

/-- A group that is still under way has either not begun, or waits and has gathered what was
recorded. -/
theorem waits_of_through {next : Flight} {ws : List World} (inhabited : children ≠ [])
    (distinct : (children.map Check.name).Nodup)
    (still : (fresh (.group name children)).through scope ws = .still next) :
    ws = [] ∧ next = fresh (.group name children) ∨
      Waits (children.map Check.name) ((fresh (.group name children)).recorded scope ws) next := by
  cases ws with
  | nil => exact .inl ⟨rfl, (Turn.still.inj still).symm⟩
  | cons w ws =>
    cases ended : w.cause? scope with
    | some cause =>
      have waits : Waits _ _ (setOut name children) := setOut_waits inhabited
      obtain ⟨done, _⟩ := waits.step_ended distinct ended
      simp [through, step_fresh_ended inhabited ended, done] at still
    | none =>
      obtain ⟨through, recorded⟩ := @through_fresh_group scope name children inhabited w ended ws
      rw [through] at still
      rw [recorded]
      exact .inr ((setOut_waits inhabited).through_still distinct still)

/-- **A call that is not interrupted enters what it made of each answer** that was recorded. -/
theorem entry_uninterrupted {o : Outcome} {ws : List World} (inhabited : children ≠ [])
    (distinct : (children.map Check.name).Nodup) (live : ∀ w ∈ ws, w.cause? scope = none)
    (done : (fresh (.group name children)).through scope ws = .done o) :
    ∀ a ∈ (fresh (.group name children)).recorded scope ws,
      Services.get? a.1 o.health.services = some (a.2.judged a.1).health := by
  cases ws with
  | nil => cases done
  | cons w ws =>
    obtain ⟨now, later⟩ := List.forall_mem_cons.mp live
    obtain ⟨through, recorded⟩ := @through_fresh_group scope name children inhabited w now ws
    rw [through] at done
    rw [recorded]
    obtain ⟨came, all⟩ := (setOut_waits inhabited).through_done later done
    rw [List.nil_append] at came all
    have once := all.nodup_iff.mpr distinct
    intro a mem
    rw [came, (Gathered.outcome_of_explicit (Gathered.explicit_ofAnswers once) _).1]
    exact Gathered.get?_ofAnswers once mem

end Flight

end HealthTree
