import HealthTree.Proofs.Unresolved
import Mathlib.Data.List.Dedup

/-!
# Groups whose children share a name

A group keeps two books. Each answer that failed is counted, and the fault of the last one is kept;
the health of each answer is entered under its name, where a later answer of the same name replaces
an earlier one. An interruption fills in the names that have no entry, and fails the group whether
or not there was any to fill in.

So the side of the outcome and the count tell of every answer, while the status tells only of those
that stand (`Reckoned`). Where all names differ every answer stands, and a failed group looks it and
counts a failure (`Reckoned.of_distinct`). Where two children share a name the books drift apart: an
answer that failed may be replaced by one that passed, and a child that was cut off goes unseen if
its namesake has answered (`failed_looks_healthy`). `group_reckoned` says that the two books are kept
like this in every call.
-/

namespace HealthTree

namespace Gathered

variable {names : List String} {given : List (String × Outcome)}

/-- The names under which nobody has answered, each of them once. -/
def unanswered (names : List String) (given : List (String × Outcome)) : List String :=
  names.dedup.filter (· ∉ given.map Prod.fst)

theorem mem_unanswered {name : String} :
    name ∈ unanswered names given ↔ name ∈ names ∧ name ∉ given.map Prod.fst := by
  simp only [unanswered, List.mem_filter, List.mem_dedup, decide_eq_true_eq]

/-- An interruption answers once for each name under which nobody has. -/
theorem foldl_addMissing_unanswered (cause : Fault) (names : List String)
    (given : List (String × Outcome)) :
    ∃ late : List String, late.Perm (unanswered names given) ∧
      names.foldl (addMissing cause) (ofAnswers given) =
        ofAnswers (given ++ late.map fun name => (name, .error (.ofFault cause))) := by
  suffices filled : ∃ late : List String, late.Nodup ∧
      (∀ name, name ∈ late ↔ name ∈ names ∧ name ∉ given.map Prod.fst) ∧
        names.foldl (addMissing cause) (ofAnswers given) =
          ofAnswers (given ++ late.map fun name => (name, .error (.ofFault cause))) by
    obtain ⟨late, once, named, gathered⟩ := filled
    have once' : (unanswered names given).Nodup := names.nodup_dedup.filter _
    refine ⟨late, (List.perm_ext_iff_of_nodup once once').mpr fun name => ?_, gathered⟩
    rw [named, mem_unanswered]
  induction names generalizing given with
  | nil => exact ⟨[], .nil, by simp, by simp⟩
  | cons first rest ih =>
    simp only [List.foldl_cons, addMissing, Services.has_iff, mem_names_ofAnswers]
    by_cases answered : first ∈ given.map Prod.fst
    · obtain ⟨late, once, named, gathered⟩ := ih given
      refine ⟨late, once, fun name => ?_, by rw [if_pos answered, gathered]⟩
      rw [named, List.mem_cons]
      constructor
      · rintro ⟨mem, unanswered⟩
        exact ⟨.inr mem, unanswered⟩
      · rintro ⟨rfl | mem, unanswered⟩
        · exact (unanswered answered).elim
        · exact ⟨mem, unanswered⟩
    · obtain ⟨late, once, named, gathered⟩ := ih (given ++ [(first, .error (.ofFault cause))])
      simp only [List.map_append, List.map_cons, List.map_nil, List.mem_append,
        List.mem_singleton, not_or] at named
      refine ⟨first :: late, ?_, fun name => ?_, ?_⟩
      · exact List.nodup_cons.mpr ⟨fun mem => ((named first).mp mem).2.2 rfl, once⟩
      · rw [List.mem_cons, List.mem_cons, named]
        by_cases same : name = first
        · subst same
          simp [answered]
        · simp [same]
      · rw [if_neg answered, ← ofAnswers_concat given (first, .error (.ofFault cause)), gathered,
          List.append_assoc, List.map_cons, List.singleton_append]

/-- What an interruption fills in has failed. -/
theorem failing_ofFault (name : String) (cause : Fault) :
    (Outcome.judged name (.error (.ofFault cause))).health.Failing := by
  rw [judged_ofFault]
  exact .inl rfl

/-- An interruption counts each name under which nobody has answered. -/
theorem failed_interrupt (cause : Fault) (names : List String) (given : List (String × Outcome)) :
    ((ofAnswers given).interrupt cause names).failed =
      (given.countP fun a => (a.2.judged a.1).health.Failing) + (unanswered names given).length := by
  obtain ⟨late, perm, gathered⟩ := foldl_addMissing_unanswered cause names given
  have failing : ∀ a ∈ late.map fun name => (name, (.error (.ofFault cause) : Outcome)),
      decide (entry a).2.Failing = true := by
    intro a mem
    obtain ⟨name, _, rfl⟩ := List.mem_map.mp mem
    exact decide_eq_true (failing_ofFault name cause)
  show (names.foldl (addMissing cause) (ofAnswers given)).failed = _
  rw [gathered, failed_ofAnswers, List.countP_append, List.countP_eq_length.mpr failing,
    List.length_map, perm.length_eq]
  rfl

/-- Every entry says its status outright, also where answers share a name. -/
theorem explicit_entries (answers : List (String × Outcome)) :
    ∀ e ∈ (ofAnswers answers).services, e.2.status.isSome := by
  have ascending := services_ofAnswers_ascending answers
  refine (Services.forall_iff_get? ascending fun _ h => h.status.isSome).mpr ?_
  intro name h found
  rw [get?_ofAnswers_standing] at found
  obtain ⟨o, _, rfl⟩ := Option.map_eq_some_iff.mp found
  exact (Outcome.judged_fits name o).explicit

/-- A node looks unhealthy if and only if one of its services does. -/
theorem failing_outcome {g : Gathered} (explicit : ∀ e ∈ g.services, e.2.status.isSome)
    (total : Nat) : (g.outcome total).health.Failing ↔ ∃ e ∈ g.services, e.2.Failing := by
  have listed : (∃ s ∈ g.services.map (·.2.status), Status.unhealthyClass s = true) ↔
      ∃ e ∈ g.services, e.2.Failing := by
    simp only [List.mem_map, exists_exists_and_eq_and]
    exact exists_congr fun e => and_congr_right fun mem => Health.unhealthyClass_iff (explicit e mem)
  rw [(outcome_of_explicit explicit total).1, ← listed]
  simp only [Health.Failing, Option.some.injEq]
  rcases Status.bad_or_sound (g.services.map (·.2.status)) with ⟨bad, _⟩ | ⟨sound, notBad⟩
  · rw [Status.overall_of_bad bad]
    refine iff_of_true ?_ bad
    split
    · exact .inl rfl
    · exact .inr rfl
  · rw [Status.overall_of_sound sound]
    refine iff_of_false ?_ notBad
    split <;> rintro (failing | failing) <;> cases failing

/-- **What a group makes of the answers that were given under these names**, also where names are
shared. -/
structure Reckoned (names : List String) (given : List (String × Outcome)) (o : Outcome) :
    Prop where
  /-- Who answers is a child, and no child answers twice. -/
  known : ∃ waiting, (given.map Prod.fst ++ waiting).Perm names
  explicit : o.health.status.isSome
  /-- The status is unhealthy-class if and only if under one of the names nobody has answered, or
  the answer that stands has failed. -/
  looks : o.health.Failing ↔ ∃ name ∈ names, ∀ answer, standing? given name = some answer →
    (answer.judged name).health.Failing
  /-- The group fails if and only if one of all answers has failed or a child has given none. -/
  fails : o.fault?.isSome ↔
    (∃ a ∈ given, (a.2.judged a.1).health.Failing) ∨ given.length < names.length
  /-- All answers that failed are counted, and the names under which nobody has answered. -/
  counts : ∀ fault, o.fault? = some fault → ∃ last, fault = .aggregate
    ((given.countP fun a => (a.2.judged a.1).health.Failing) + (unanswered names given).length)
      names.length last

/-- The status is read off the answers that stand, where everyone else fails with the cause. -/
theorem reckoned_looks {g : Gathered} {answers : List (String × Outcome)} {cause : Fault}
    (gathered : g.services = (ofAnswers answers).services)
    (stands : ∀ name, standing? answers name = (standing? given name).or
      (if name ∈ names then some (.error (.ofFault cause)) else none))
    (known : ∀ a ∈ given, a.1 ∈ names) (total : Nat) :
    (g.outcome total).health.status.isSome ∧
      ((g.outcome total).health.Failing ↔ ∃ name ∈ names, ∀ answer,
        standing? given name = some answer → (answer.judged name).health.Failing) := by
  have explicit : ∀ e ∈ g.services, e.2.status.isSome := gathered ▸ explicit_entries answers
  refine ⟨by rw [(outcome_of_explicit explicit total).1]; rfl, ?_⟩
  have ascending : g.services.Ascending := gathered ▸ services_ofAnswers_ascending answers
  have none : (∀ e ∈ g.services, ¬ e.2.Failing) ↔ ∀ name o, standing? answers name = some o →
      ¬ (o.judged name).health.Failing := by
    rw [Services.forall_iff_get? ascending fun _ h => ¬ h.Failing, gathered]
    simp only [get?_ofAnswers_standing, Option.map_eq_some_iff]
    constructor
    · exact fun all name o standing => all name _ ⟨o, standing, rfl⟩
    · rintro all name h ⟨o, standing, rfl⟩
      exact all name o standing
  have named {name : String} {o : Outcome} (standing : standing? given name = some o) :
      name ∈ names := by
    obtain ⟨a, mem, rfl⟩ := List.mem_map.mp (standing?_isSome.mp (Option.isSome_of_eq_some standing))
    exact known a mem
  rw [failing_outcome explicit, ← not_iff_not]
  push Not
  rw [none]
  constructor
  · intro sound name mem
    cases standing : standing? given name with
    | none =>
      have filled := stands name
      rw [standing, if_pos mem, Option.none_or] at filled
      exact (sound name _ filled (failing_ofFault name cause)).elim
    | some o => exact ⟨o, rfl, sound name o (by rw [stands, standing, Option.some_or])⟩
  · intro sound name o standing
    have mem : name ∈ names := by
      rw [stands, Option.or_eq_some_iff] at standing
      rcases standing with standing | ⟨_, filled⟩
      · exact named standing
      · by_contra unknown
        rw [if_neg unknown] at filled
        cases filled
    obtain ⟨answer, given', passes⟩ := sound name mem
    rw [stands, given', Option.some_or, Option.some.injEq] at standing
    exact standing ▸ passes

/-- The fault of an outcome is the aggregate of the one that was kept. -/
theorem fault?_outcome (g : Gathered) (total : Nat) :
    (g.outcome total).fault? = g.last.map (.aggregate g.failed total) := by
  simp only [outcome]
  cases g.last <;> rfl

/-- When every child has answered. -/
theorem reckoned_all (all : (given.map Prod.fst).Perm names) :
    Reckoned names given ((ofAnswers given).outcome names.length) := by
  have length : given.length = names.length := by simpa using all.length_eq
  have known : ∀ a ∈ given, a.1 ∈ names := fun a mem =>
    all.mem_iff.mp (List.mem_map_of_mem mem)
  have stands : ∀ name, standing? given name = (standing? given name).or
      (if name ∈ names then some (.error (.ofFault .cancelled)) else none) := by
    intro name
    by_cases mem : name ∈ names
    · obtain ⟨o, standing⟩ := Option.isSome_iff_exists.mp (standing?_isSome.mpr (all.mem_iff.mpr mem))
      rw [standing, Option.some_or]
    · rw [if_neg mem, Option.or_none]
  have nobody : unanswered names given = [] := List.eq_nil_iff_forall_not_mem.mpr fun name mem => by
    obtain ⟨named, not⟩ := mem_unanswered.mp mem
    exact not (all.mem_iff.mpr named)
  have failed : (ofAnswers given).failed =
      given.countP fun a => (a.2.judged a.1).health.Failing := failed_ofAnswers given
  obtain ⟨explicit, looks⟩ := reckoned_looks rfl stands known names.length
  refine ⟨⟨[], by simpa using all⟩, explicit, looks, ?_, fun fault told => ?_⟩
  · rw [fault?_outcome, Option.isSome_map, ← Option.ne_none_iff_isSome, ne_eq, last_ofAnswers,
      failed, List.countP_eq_zero]
    simp [length]
  · rw [fault?_outcome, Option.map_eq_some_iff] at told
    obtain ⟨last, _, rfl⟩ := told
    exact ⟨last, by rw [failed, nobody, List.length_nil, Nat.add_zero]⟩

/-- When some children were still waited for. -/
theorem reckoned_interrupt (cause : Fault) {waiting : List String} (some : waiting ≠ [])
    (perm : (given.map Prod.fst ++ waiting).Perm names) :
    Reckoned names given (((ofAnswers given).interrupt cause names).outcome names.length) := by
  obtain ⟨all, gathered, stands⟩ := foldl_addMissing_standing cause names given
  have same : ((ofAnswers given).interrupt cause names).services = (ofAnswers all).services := by
    rw [interrupt, gathered]
  have known : ∀ a ∈ given, a.1 ∈ names := fun a mem =>
    perm.mem_iff.mp (List.mem_append_left _ (List.mem_map_of_mem mem))
  have fewer : given.length < names.length := by
    have length := perm.length_eq
    have := List.length_pos_of_ne_nil some
    simp only [List.length_append, List.length_map] at length
    omega
  obtain ⟨explicit, looks⟩ := reckoned_looks same stands known names.length
  refine ⟨⟨waiting, perm⟩, explicit, looks, ?_, fun fault told => ?_⟩
  · rw [fault?_outcome]
    exact iff_of_true rfl (.inr fewer)
  · rw [fault?_outcome, Option.map_eq_some_iff] at told
    obtain ⟨last, _, rfl⟩ := told
    exact ⟨last, by rw [failed_interrupt]⟩

/-- Where no two answers share a name, every one of them stands. -/
theorem standing?_of_mem (once : (given.map Prod.fst).Nodup) {a : String × Outcome}
    (mem : a ∈ given) : standing? given a.1 = some a.2 := by
  induction given using List.reverseRecOn with
  | nil => cases mem
  | append_singleton given last ih =>
    rw [List.map_append, List.nodup_append] at once
    obtain ⟨tail, _, apart⟩ := once
    rw [standing?_concat]
    rcases List.mem_append.mp mem with before | now
    · rw [if_neg (apart a.1 (List.mem_map_of_mem before) last.1 (by simp)), ih tail before]
    · rw [List.mem_singleton.mp now, if_pos rfl]

/-- **With names of their own a failed group looks it**, and counts a failure. -/
theorem Reckoned.of_distinct {o : Outcome} {fault : Fault} (reckoned : Reckoned names given o)
    (distinct : names.Nodup) (told : o.fault? = some fault) :
    o.health.Failing ∧ ∃ failed last, fault = .aggregate failed names.length last ∧ 1 ≤ failed := by
  obtain ⟨waiting, perm⟩ := reckoned.known
  obtain ⟨once, _, apart⟩ := List.nodup_append.mp (perm.nodup_iff.mpr distinct)
  obtain ⟨last, counted⟩ := reckoned.counts fault told
  rcases reckoned.fails.mp (Option.isSome_of_eq_some told) with ⟨a, mem, failing⟩ | fewer
  · have named : a.1 ∈ names := perm.mem_iff.mp (List.mem_append_left _ (List.mem_map_of_mem mem))
    have some : 0 < given.countP fun a => (a.2.judged a.1).health.Failing :=
      List.countP_pos_iff.mpr ⟨a, mem, decide_eq_true failing⟩
    refine ⟨reckoned.looks.mpr ⟨a.1, named, fun answer stands => ?_⟩, _, last, counted, by omega⟩
    rw [standing?_of_mem once mem, Option.some.injEq] at stands
    exact stands ▸ failing
  · obtain ⟨name, waits⟩ : ∃ name, name ∈ waiting := by
      refine List.exists_mem_of_length_pos ?_
      have length := perm.length_eq
      simp only [List.length_append, List.length_map] at length
      omega
    have named : name ∈ names := perm.mem_iff.mp (List.mem_append_right _ waits)
    have nobody : name ∉ given.map Prod.fst := fun mem => apart name mem name waits rfl
    have some : 0 < (unanswered names given).length :=
      List.length_pos_of_mem (mem_unanswered.mpr ⟨named, nobody⟩)
    refine ⟨reckoned.looks.mpr ⟨name, named, fun answer stands => ?_⟩, _, last, counted, by omega⟩
    exact (nobody (standing?_isSome.mp (Option.isSome_of_eq_some stands))).elim

end Gathered

/-! ## Whole calls -/

namespace Flight

open Gathered

variable {scope : ScopeId} {name : String} {children : List Check} {ws : List World}

/-- **Every call of a group comes to what its two books say**, whatever the names, whatever the
children answer and in whatever order, and whether or not the scope ends first. So a failed group
looks healthy only where two children share a name, and exactly if under every name the answer that
stands has passed; and it counts no failure only if in addition none of the other answers failed. -/
theorem group_reckoned (isOver : ((fresh (.group name children)).through scope ws).Over) :
    let names := children.map Check.name
    let given := (fresh (.group name children)).recorded scope ws
    ∃ o, (fresh (.group name children)).through scope ws = .done o ∧ Reckoned names given o ∧
      (names.Nodup → ∀ fault, o.fault? = some fault → o.health.Failing ∧
        ∃ failed last, fault = .aggregate failed names.length last ∧ 1 ≤ failed) := by
  suffices reckoned : ∃ o, (fresh (.group name children)).through scope ws = .done o ∧
      Reckoned (children.map Check.name) ((fresh (.group name children)).recorded scope ws) o by
    obtain ⟨o, done, reckoned⟩ := reckoned
    exact ⟨o, done, reckoned, fun distinct _ told => reckoned.of_distinct distinct told⟩
  cases ws with
  | nil => exact isOver.elim
  | cons w ws =>
    by_cases empty : children = []
    · -- nobody is asked, and the group is healthy
      subst empty
      refine ⟨.ok .healthy, rfl, ⟨[], .nil⟩, rfl, ?_, ?_, fun fault told => by cases told⟩
      · exact iff_of_false (by decide) (by simp)
      · simp [Outcome.fault?, recorded, answers, step, Check.begin, World.gather]
    · obtain ⟨rest, through, recorded⟩ : ∃ rest,
          (fresh (.group name children)).through scope (w :: ws) = _ ∧ _ :=
        through_fresh_setOut empty w ws
      rw [through] at isOver ⊢
      rw [recorded]
      obtain ⟨g, done, ⟨rfl, all⟩ | ⟨cause, waiting, rfl, some, perm⟩⟩ :=
        (setOut_waits empty).through_ended isOver
      · refine ⟨_, done, ?_⟩
        simpa using reckoned_all all
      · refine ⟨_, done, ?_⟩
        simpa using reckoned_interrupt cause some perm

/-- A child that fails, one that is still waited for when the scope ends, and one that is degraded:
under names of their own they do not cover for one another. -/
theorem group_reckoned_apart :
    let slow : Check := .probe ⟨"b", "b", ⟨[⟨some 9, false⟩], .outcome (.ok .healthy)⟩, []⟩
    let group : Flight := .fresh (.group "g" [.fixed "a" .unhealthy "down", slow,
      .fixed "c" .degraded "slow"])
    let early : World := { scopes := ⟨[{ deadline := some 5 }]⟩ }
    let ws : List World := [early, early, { early with now := 9 }]
    (group.through 0 ws).Over ∧ ["a", "b", "c"].Nodup ∧
      ∃ o, group.through 0 ws = .done o ∧ o.health.Failing ∧
        o.fault? = some (.aggregate 2 3 .deadlineExceeded) := by
  intro slow group early ws
  have isOver : (group.through 0 ws).Over := by decide +kernel
  have distinct : ["a", "b", "c"].Nodup := by decide
  obtain ⟨o, done, reckoned, apart⟩ := group_reckoned isOver
  have told : (match group.through 0 ws with
      | .done o => o.fault?
      | _ => none) = some (.aggregate 2 3 .deadlineExceeded) := by decide +kernel
  rw [done] at told
  exact ⟨isOver, distinct, o, done, (apart distinct _ told).1, told⟩

/-- **A failed group can look healthy**: where the answer that failed was replaced by that of its
namesake, and, with no failure counted, where a child is cut off whose namesake has passed. -/
theorem failed_looks_healthy :
    let live : World := { scopes := ⟨[{ deadline := some 5 }]⟩ }
    let late : World := { live with now := 5 }
    let healthy : Health := ⟨some .healthy, "", [("a", .healthy)]⟩
    let slow : Check := .probe ⟨"a", "a", ⟨[⟨some 9, true⟩], .outcome (.ok .healthy)⟩, []⟩
    (fresh (.group "g" [.fixed "a" .unhealthy "down", .fixed "a" .healthy ""])).through 0
        [live, live] = .done (.error ⟨healthy, .aggregate 1 2 (.probe "down")⟩) ∧
      (fresh (.group "g" [.fixed "a" .healthy "", slow])).through 0 [live, live, late] =
        .done (.error ⟨healthy, .aggregate 0 2 .deadlineExceeded⟩) ∧
      ¬ healthy.Failing := by
  intro live late healthy slow
  exact ⟨rfl, rfl, by decide⟩

end Flight

end HealthTree
