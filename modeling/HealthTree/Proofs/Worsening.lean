import HealthTree.Proofs.OnePass
import HealthTree.Proofs.Readings

/-!
# Worse never looks better

A report is made worse where its statuses are, and a child's answer where it passes less well or
fails (`Health.Worsened`, `Outcome.Worsened`). Neither makes what is derived from it look better.
This is no pointwise maximum: of four statuses a derivation sees three classes, and whether *all* of
them are unhealthy-class. So a failure that is partial only may stand for one that is not, and the
order that carries the argument is the one of the classes (`Status.overall_mono`), at every level of
a report anew (`Health.Worsened.effective_le`).

A group that was not interrupted is told by what it reads off its children's answers
(`Flight.uninterrupted_outcome`), so it is enough to look at the answers one by one.
-/

namespace HealthTree

/-! ## Reports made worse -/

mutual
/-- **The second report is the first made worse**: the same services under the same names, the same
nodes that say their status, and none of these says a better one. Messages do not matter. -/
inductive Health.Worsened : Health → Health → Prop
  | said {s s' : Status} (m m' : String) {cs cs' : Services} (le : s ≤ s')
      (below : ServicesWorsened cs cs') : Health.Worsened ⟨some s, m, cs⟩ ⟨some s', m', cs'⟩
  | silent (m m' : String) {cs cs' : Services} (below : ServicesWorsened cs cs') :
      Health.Worsened ⟨none, m, cs⟩ ⟨none, m', cs'⟩
/-- The same names, and each service made worse. -/
inductive ServicesWorsened : Services → Services → Prop
  | nil : ServicesWorsened [] []
  | cons (name : String) {h h' : Health} {rest rest' : Services} (here : Health.Worsened h h')
      (later : ServicesWorsened rest rest') :
      ServicesWorsened ((name, h) :: rest) ((name, h') :: rest')
end

/-- What is derived from services is not better if each of them is matched by one that is no better,
and each of the others by one that is no worse. -/
theorem Services.overall_mono {services worse : Services}
    (up : ∀ e ∈ services, ∃ e' ∈ worse, e.2.effective ≤ e'.2.effective)
    (down : ∀ e' ∈ worse, ∃ e ∈ services, e.2.effective ≤ e'.2.effective) :
    services.overall ≤ worse.overall := by
  rw [Services.overall_eq_effective, Services.overall_eq_effective]
  apply Status.overall_mono <;> rw [List.forall_mem_map]
  · intro e mem
    obtain ⟨e', mem', le⟩ := up e mem
    exact ⟨_, List.mem_map_of_mem mem', Status.rank_mono le⟩
  · intro e' mem'
    obtain ⟨e, mem, le⟩ := down e' mem'
    exact ⟨_, List.mem_map_of_mem mem, Status.rank_mono le⟩

mutual
/-- **A report made worse does not come to a better status.** -/
theorem Health.Worsened.effective_le {h h' : Health} :
    h.Worsened h' → h.effective ≤ h'.effective
  | .said _ _ le _ => le
  | .silent _ _ below => by
    obtain ⟨up, down⟩ := below.matched
    cases below with
    | nil => exact Nat.le_refl _
    | cons name here later => exact Services.overall_mono up down
/-- Each service is matched by the one under its name. -/
theorem ServicesWorsened.matched {cs cs' : Services} : ServicesWorsened cs cs' →
    (∀ e ∈ cs, ∃ e' ∈ cs', e.2.effective ≤ e'.2.effective) ∧
      ∀ e' ∈ cs', ∃ e ∈ cs, e.2.effective ≤ e'.2.effective
  | .nil => by simp
  | .cons name here later => by
    have le := here.effective_le
    obtain ⟨up, down⟩ := later.matched
    simp only [List.forall_mem_cons]
    refine ⟨⟨⟨_, List.mem_cons_self, le⟩, fun e mem => ?_⟩,
      ⟨_, List.mem_cons_self, le⟩, fun e' mem => ?_⟩
    · obtain ⟨e', mem', le⟩ := up e mem
      exact ⟨e', List.mem_cons_of_mem _ mem', le⟩
    · obtain ⟨e, mem', le⟩ := down e' mem
      exact ⟨e, List.mem_cons_of_mem _ mem', le⟩
end

/-! ## Answers made worse -/

namespace Outcome

/-- A child that passes, with a status that does. -/
def Passes : Outcome → Prop
  | .ok h => h.effective.passing = true
  | .error _ => False

instance (o : Outcome) : Decidable o.Passes := by
  cases o <;> unfold Passes <;> infer_instance

/-- **The second answer is the first made worse**: it passes, and so did the first, with no worse a
status; or it does not pass. -/
inductive Worsened : Outcome → Outcome → Prop
  | passes {h h' : Health} (before : h.effective.passing = true)
      (after : h'.effective.passing = true) (le : h.effective ≤ h'.effective) :
      Worsened (.ok h) (.ok h')
  | fails {o o' : Outcome} (failed : ¬ o'.Passes) : Worsened o o'

theorem worsened_iff {o o' : Outcome} :
    o.Worsened o' ↔ ¬ o'.Passes ∨ o.Passes ∧ o.health.effective ≤ o'.health.effective := by
  constructor
  · rintro (⟨before, _, le⟩ | failed)
    · exact .inr ⟨before, le⟩
    · exact .inl failed
  · rintro (failed | ⟨before, le⟩)
    · exact .fails failed
    · by_cases after : o'.Passes
      · cases o with
        | error f => exact before.elim
        | ok h =>
          cases o' with
          | error f => exact after.elim
          | ok h' => exact .passes before after le
      · exact .fails after

instance (o o' : Outcome) : Decidable (o.Worsened o') := decidable_of_iff _ worsened_iff.symm

/-- A group reads a passing status off an answer that passes, and off no other. -/
theorem reading_passing (o : Outcome) : o.reading.passing = true ↔ o.Passes := by
  cases o with
  | ok h => exact Iff.rfl
  | error f =>
    have failing : (judged "" (.error f)).health.Failing := normalized_fits f
    exact iff_of_false (by simp [judged_failing.mp failing]) not_false

/-- Off an answer made worse no better class is read. -/
theorem Worsened.rank_le {o o' : Outcome} (worsened : o.Worsened o') :
    o.reading.rank ≤ o'.reading.rank := by
  cases worsened with
  | passes before after le => exact Status.rank_mono le
  | fails failed =>
    have worst : ¬ o'.reading.rank ≤ 1 := by
      rwa [Status.rank_le_one, reading_passing]
    have := o.reading.rank_le_two
    omega

/-- What fails, fails when it is made worse. -/
theorem Worsened.not_passes {o o' : Outcome} (worsened : o.Worsened o') (failed : ¬ o.Passes) :
    ¬ o'.Passes := by
  cases worsened with
  | passes before after le => exact (failed before).elim
  | fails failed => exact failed

end Outcome

/-! ## Groups -/

section Answers

variable {given worse : List (String × Outcome)}

private theorem answered_in_both (same : (given.map Prod.fst).Perm (worse.map Prod.fst))
    {child : String} {o : Outcome} (mem : (child, o) ∈ given) : ∃ o', (child, o') ∈ worse := by
  have named := same.mem_iff.mp (List.mem_map_of_mem mem)
  obtain ⟨⟨_, o'⟩, mem', rfl⟩ := List.mem_map.mp named
  exact ⟨o', mem'⟩

/-- **The answers of the same children, made worse**: what is derived from the readings is not
better, and they do not all pass unless they all did. -/
theorem Outcome.overall_worsened (same : (given.map Prod.fst).Perm (worse.map Prod.fst))
    (worsened : ∀ child o o', (child, o) ∈ given → (child, o') ∈ worse → o.Worsened o') :
    Status.overall ((given.map fun a => a.2.reading).map some) ≤
        Status.overall ((worse.map fun a => a.2.reading).map some) ∧
      ((∀ a ∈ worse, a.2.Passes) → ∀ a ∈ given, a.2.Passes) := by
  refine ⟨?_, fun all => ?_⟩
  · apply Status.overall_mono <;> rw [List.forall_mem_map]
    · rintro ⟨child, o⟩ mem
      obtain ⟨o', mem'⟩ := answered_in_both same mem
      exact ⟨_, List.mem_map_of_mem mem', (worsened _ _ _ mem mem').rank_le⟩
    · rintro ⟨child, o'⟩ mem'
      obtain ⟨o, mem⟩ := answered_in_both same.symm mem'
      exact ⟨_, List.mem_map_of_mem mem, (worsened _ _ _ mem mem').rank_le⟩
  · rintro ⟨child, o⟩ mem
    obtain ⟨o', mem'⟩ := answered_in_both same mem
    by_contra failed
    exact (worsened _ _ _ mem mem').not_passes failed (all _ mem')

end Answers

namespace Gathered

variable {given : List (String × Outcome)}

/-- A group derives its status from the readings of the answers. -/
theorem status_ofAnswers (once : (given.map Prod.fst).Nodup) (total : Nat) :
    ((ofAnswers given).outcome total).health.status =
      some (Status.overall ((given.map fun a => a.2.reading).map some)) := by
  have status (g : Gathered) : (g.outcome total).health.status = some g.services.overall := by
    simp only [outcome]
    cases g.last <;> rfl
  rw [status, Services.overall_eq_effective]
  refine congrArg some (Status.overall_congr fun s => ?_)
  have entries := (services_ofAnswers_perm once).map fun e => e.2.effective
  have read : (given.map entry).map (fun e => e.2.effective) = given.map fun a => a.2.reading := by
    rw [List.map_map]
    refine List.map_congr_left fun a _ => ?_
    simp only [Function.comp_apply, entry, Health.effective, Outcome.judged_status]
  rw [entries.mem_iff, read]

/-- It passes if all of them did. -/
theorem isOk_ofAnswers (total : Nat) :
    ((ofAnswers given).outcome total).isOk = true ↔ ∀ a ∈ given, a.2.Passes := by
  have passes (g : Gathered) : (g.outcome total).isOk = true ↔ g.last = none := by
    simp only [outcome]
    cases g.last <;> simp [Except.isOk, Except.toBool]
  rw [passes, last_ofAnswers, failed_ofAnswers, List.countP_eq_zero]
  simp only [entry, Outcome.judged_failing, decide_eq_true_eq, Bool.not_eq_false,
    Outcome.reading_passing]

end Gathered

namespace Flight

variable {scope : ScopeId} {name : String} {children : List Check} {ws : List World}

/-- **A group that was not interrupted** has every child's answer, derives its status from their
readings, and passes if all of them did. -/
theorem uninterrupted_outcome (distinct : (children.map Check.name).Nodup)
    (live : ∀ w ∈ ws, w.cause? scope = none)
    (isOver : ((fresh (.group name children)).through scope ws).Over) :
    let given := (fresh (.group name children)).recorded scope ws
    ∃ o, (fresh (.group name children)).through scope ws = .done o ∧
      (given.map Prod.fst).Perm (children.map Check.name) ∧
      o.health.status = some (Status.overall ((given.map fun a => a.2.reading).map some)) ∧
      (o.isOk = true ↔ ∀ a ∈ given, a.2.Passes) := by
  cases ws with
  | nil => exact isOver.elim
  | cons w ws =>
    by_cases empty : children = []
    · -- nobody is asked, and the group is healthy
      subst empty
      exact ⟨.ok .healthy, rfl, .nil, rfl, iff_of_true rfl (List.forall_mem_nil _)⟩
    · obtain ⟨now, later⟩ := List.forall_mem_cons.mp live
      obtain ⟨through, recorded⟩ := @through_fresh_group scope name children empty w now ws
      rw [through] at isOver ⊢
      rw [recorded]
      obtain ⟨g, done, -⟩ := (setOut_waits empty).through_over isOver
      obtain ⟨same, all⟩ := (setOut_waits empty).through_done later done
      rw [List.nil_append] at same all
      refine ⟨_, done, all, ?_⟩
      rw [same]
      exact ⟨Gathered.status_ofAnswers (all.nodup_iff.mpr distinct) _, Gathered.isOk_ofAnswers _⟩

/-- **Worse never looks better.** A report made worse does not come to a better status. And of two
groups of children with the same names, where each child's answer in the second is the one in the
first made worse, neither of them interrupted, the second does not come to a better status, and
fails if the first does; whatever the children are, and in whatever order they answer. -/
theorem worse_never_looks_better :
    (∀ h h' : Health, h.Worsened h' → h.effective ≤ h'.effective) ∧
    ∀ (scope scope' : ScopeId) (name name' : String) (children children' : List Check)
      (ws ws' : List World),
      (children.map Check.name).Nodup → children'.map Check.name = children.map Check.name →
      (∀ w ∈ ws, w.cause? scope = none) → (∀ w ∈ ws', w.cause? scope' = none) →
      ((fresh (.group name children)).through scope ws).Over →
      ((fresh (.group name' children')).through scope' ws').Over →
      (∀ child o o', (child, o) ∈ (fresh (.group name children)).recorded scope ws →
        (child, o') ∈ (fresh (.group name' children')).recorded scope' ws' → o.Worsened o') →
      ∃ o o' s s', (fresh (.group name children)).through scope ws = .done o ∧
        (fresh (.group name' children')).through scope' ws' = .done o' ∧
        o.health.status = some s ∧ o'.health.status = some s' ∧ s ≤ s' ∧
        (o.isOk = false → o'.isOk = false) := by
  refine ⟨fun h h' worsened => worsened.effective_le, ?_⟩
  intro scope scope' name name' children children' ws ws' distinct names live live' isOver isOver'
    worsened
  obtain ⟨o, done, all, status, passes⟩ := uninterrupted_outcome distinct live isOver
  obtain ⟨o', done', all', status', passes'⟩ :=
    uninterrupted_outcome (names ▸ distinct) live' isOver'
  rw [names] at all'
  obtain ⟨le, allPass⟩ := Outcome.overall_worsened (all.trans all'.symm) worsened
  refine ⟨o, o', _, _, done, done', status, status', le, fun failed => ?_⟩
  rw [← Bool.not_eq_true] at failed ⊢
  exact fun passed => failed (passes.mpr (allPass (passes'.mp passed)))

/-- Three children, of which one is degraded, one healthy and one unhealthy; then the first passes
with a silent health over a service that is down, the second with a status that does not pass, and
the third fails less badly, all of them at other instants. The report of the first is made worse in
a node that says its status, and comes to unhealthy where it came to degraded. -/
theorem worse_never_looks_better_apart :
    let silent (s : Status) : Health := ⟨none, "", [("x", ⟨some s, "", []⟩)]⟩
    let ask (name : String) (after : Nat) (o : Outcome) : Check :=
      .probe ⟨name, name, ⟨[⟨some after, true⟩], .outcome o⟩, []⟩
    let partly : Health := ⟨some .partiallyUnhealthy, "", []⟩
    let group : Flight := .fresh (.group "g" [ask "a" 1 (.ok (silent .degraded)),
      ask "b" 2 (.ok .healthy), .fixed "c" .unhealthy "down"])
    let worse : Flight := .fresh (.group "g" [ask "a" 2 (.ok (silent .unhealthy)),
      ask "b" 1 (.ok partly), ask "c" 2 (.error ⟨partly, .probe "half"⟩)])
    let world (now : Nat) : World := { now := now, scopes := ⟨[{}]⟩ }
    let ws : List World := [world 0, world 0, world 1, world 2]
    (group.through 0 ws).Over ∧ (worse.through 0 ws).Over ∧
      (silent .degraded).effective ≤ (silent .unhealthy).effective ∧
      ∃ o o' s s', group.through 0 ws = .done o ∧ worse.through 0 ws = .done o' ∧
        o.health.status = some s ∧ o'.health.status = some s' ∧ s ≤ s' ∧
        s = .partiallyUnhealthy ∧ s' = .unhealthy := by
  intro silent ask partly group worse world ws
  obtain ⟨reports, groups⟩ := worse_never_looks_better
  have isOver : (group.through 0 ws).Over := by decide +kernel
  have isOver' : (worse.through 0 ws).Over := by decide +kernel
  have answers : ∀ a ∈ group.recorded 0 ws, ∀ a' ∈ worse.recorded 0 ws,
      a.1 = a'.1 → a.2.Worsened a'.2 := by decide +kernel
  obtain ⟨o, o', s, s', done, done', status, status', le, _⟩ :=
    groups 0 0 "g" "g" _ _ ws ws (by decide) (by decide) (by decide) (by decide) isOver isOver'
      fun child _ _ mem mem' => answers _ mem _ mem' rfl
  have partially : (group.through 0 ws).outcome?.bind (fun o => o.health.status) =
      some .partiallyUnhealthy := by decide +kernel
  have wholly : (worse.through 0 ws).outcome?.bind (fun o => o.health.status) =
      some .unhealthy := by decide +kernel
  rw [done] at partially
  rw [done'] at wholly
  refine ⟨isOver, isOver', reports _ _ ?_, o, o', s, s', done, done', status, status', le, ?_, ?_⟩
  · exact .silent _ _ (.cons "x" (.said _ _ (by decide) .nil) .nil)
  · exact Option.some.inj (status.symm.trans partially)
  · exact Option.some.inj (status'.symm.trans wholly)

end Flight

end HealthTree
