import HealthTree.Proofs.Calls
import HealthTree.Proofs.Gathering

/-!
# What a check comes to when nothing is in its way

The leaves of a configured tree always answer the same. So there is one outcome that a call of such
a check should come to, the `Check.ideal`: that of its leaves, gathered group by group. Caches and
debounced checks have no part in it. A cached check serves the ideal if it is primed and not stale,
a debounced check passes it on if it hides nothing.

The children of a group answer in some order, and the fault that the group keeps is the one entered
last. Nothing else depends on the order (`outcome_surface`), so outcomes are compared without the
fault that an aggregate wraps (`Outcome.surface`), except that it has to be one of the checks' own
(`Fault.own`) and not come from a cache that had nothing to serve or from a scope.
-/

namespace HealthTree

/-- **The fault comes from a probe**: it is one's own, or an aggregate of one. -/
def Fault.own : Fault → Bool
  | probe _ => true
  | aggregate _ _ last => last.own
  | pending _ | panicked _ | cancelled | deadlineExceeded => false

/-- **The fault without the one it wraps**, if that is a probe's own; what an aggregate counts
stays. -/
def Fault.surface : Fault → Fault
  | aggregate failed total last => aggregate failed total (if last.own then probe "" else last)
  | probe message => probe message
  | pending name => pending name
  | panicked name => panicked name
  | cancelled => cancelled
  | deadlineExceeded => deadlineExceeded

theorem Fault.message_surface (f : Fault) : f.surface.message = f.message := by
  cases f <;> rfl

theorem Fault.own_surface (f : Fault) : f.surface.own = f.own := by
  cases f with
  | aggregate failed total last =>
    show (if last.own then probe "" else last).own = last.own
    split
    · next own => exact own.symm
    · rfl
  | _ => rfl

namespace Outcome

/-- If the outcome is a failure, its fault comes from a probe. -/
def own (o : Outcome) : Bool :=
  o.fault?.all Fault.own

/-- **An outcome without the fault that its own wraps**: the side, the health, and of an aggregate
the two counts. -/
def surface : Outcome → Outcome
  | .ok h => .ok h
  | .error f => .error ⟨f.health, f.fault.surface⟩

@[simp] theorem surface_isOk (o : Outcome) : o.surface.isOk = o.isOk := by
  cases o <;> rfl

@[simp] theorem surface_health (o : Outcome) : o.surface.health = o.health := by
  cases o <;> rfl

@[simp] theorem surface_fault? (o : Outcome) : o.surface.fault? = o.fault?.map Fault.surface := by
  cases o <;> rfl

@[simp] theorem own_surface (o : Outcome) : o.surface.own = o.own := by
  cases o with
  | ok h => rfl
  | error f => exact f.fault.own_surface

theorem own_of_surface {o o' : Outcome} (same : o.surface = o'.surface) : o.own = o'.own := by
  rw [← own_surface, same, own_surface]

/-- What a group makes of an outcome comes from a probe if the outcome does. -/
theorem own_judged (name : String) {o : Outcome} (own : o.own = true) :
    (o.judged name).own = true := by
  cases o with
  | error f => exact own
  | ok h =>
    unfold judged
    simp only
    split
    · split <;> rfl
    · rfl

/-- Outcomes of one surface are on one side. -/
theorem isOk_of_surface {o o' : Outcome} (same : o.surface = o'.surface) : o.isOk = o'.isOk := by
  rw [← surface_isOk, same, surface_isOk]

/-- A group sees the surface of an answer only. -/
theorem judged_surface (name : String) (o : Outcome) :
    (o.surface.judged name).health = (o.judged name).health := by
  cases o with
  | ok h => rfl
  | error f =>
    show (Failure.normalized _).health = f.normalized.health
    unfold Failure.normalized Failure.normalHealth
    rw [Fault.message_surface]

end Outcome

namespace Gathered

/-- The fault that is kept comes from a probe if those of all answers do. -/
theorem own_last {answers : List (String × Outcome)} (own : ∀ a ∈ answers, a.2.own = true) :
    (ofAnswers answers).last.all Fault.own = true := by
  induction answers using List.reverseRecOn with
  | nil => rfl
  | append_singleton answers a ih =>
    have last : a ∈ answers ++ [a] := List.mem_append_right _ (List.mem_singleton.mpr rfl)
    have first := Outcome.own_judged a.1 (own a last)
    have rest := ih fun b mem => own b (List.mem_append_left _ mem)
    rw [ofAnswers_concat, add_eq]
    simp only
    unfold Outcome.own at first
    cases fault : (a.2.judged a.1).fault? with
    | none => exact rest
    | some f =>
      rw [fault] at first
      exact first

/-- A group fails with a fault that comes from a probe if its children do. -/
theorem own_outcome {answers : List (String × Outcome)} (own : ∀ a ∈ answers, a.2.own = true)
    (total : Nat) : Outcome.own ((ofAnswers answers).outcome total) = true := by
  have kept := own_last own
  unfold outcome
  cases last : (ofAnswers answers).last with
  | none => rfl
  | some fault =>
    rw [last] at kept
    exact kept

/-- The same entries come to one surface, in whatever order they came. -/
theorem outcome_surface {answers answers' : List (String × Outcome)}
    (distinct : (answers.map Prod.fst).Nodup)
    (own : ∀ a ∈ answers, a.2.own = true) (own' : ∀ a ∈ answers', a.2.own = true)
    (perm : (answers.map entry).Perm (answers'.map entry)) (total : Nat) :
    Outcome.surface ((ofAnswers answers).outcome total) =
      Outcome.surface ((ofAnswers answers').outcome total) := by
  obtain ⟨services, failed, told⟩ := ofAnswers_perm distinct perm
  have kept := own_last own
  have kept' := own_last own'
  unfold outcome
  rw [services, failed]
  cases last : (ofAnswers answers).last with
  | none => rw [told.mp last]
  | some fault =>
    cases last' : (ofAnswers answers').last with
    | none =>
      rw [told.mpr last'] at last
      cases last
    | some fault' =>
      have kept : fault.own = true := by rwa [last] at kept
      have kept' : fault'.own = true := by rwa [last'] at kept'
      simp only [Outcome.surface, Fault.surface]
      rw [if_pos kept, if_pos kept']

end Gathered

namespace Check

mutual
/-- **What a check comes to when nothing is in its way.** -/
def ideal : Check → Outcome
  | fixed name status message => fixedOutcome name status message
  | probe _ => .ok .blank
  | group _ children => (Gathered.ofAnswers (ideals children)).outcome children.length
  | cached _ _ inner => inner.ideal
  | debounced _ _ inner => inner.ideal
/-- The same for the children of a group, under their names. -/
def ideals : List Check → List (String × Outcome)
  | [] => []
  | c :: rest => (c.name, c.ideal) :: ideals rest
end

theorem ideals_eq (children : List Check) :
    ideals children = children.map fun c => (c.name, c.ideal) := by
  induction children with
  | nil => rfl
  | cons c rest ih => rw [ideals, ih, List.map_cons]

mutual
/-- The ideal fails with a fault that comes from a probe. -/
theorem ideal_own (c : Check) : c.ideal.own = true := by
  cases c with
  | fixed name status message =>
    unfold ideal fixedOutcome
    split <;> rfl
  | probe => rfl
  | group name children =>
    rw [ideal]
    exact Gathered.own_outcome (ideals_own children) children.length
  | cached slot interval inner =>
    rw [ideal]
    exact ideal_own inner
  | debounced slot budget inner =>
    rw [ideal]
    exact ideal_own inner
theorem ideals_own (children : List Check) : ∀ a ∈ ideals children, a.2.own = true := by
  cases children with
  | nil => exact List.forall_mem_nil _
  | cons c rest =>
    intro a mem
    rcases List.mem_cons.mp mem with rfl | mem
    · exact ideal_own c
    · exact ideals_own rest a mem
end

/-- **Nothing about the check depends on when it is called**: its leaves are fixed, the children of
a group have names of their own, and no budget is so large that the count of failures cannot pass
it. -/
structure Steady (c : Check) : Prop where
  fixed : ∀ p, ¬ c.Has (.probe p)
  names : ∀ name children, c.Has (.group name children) → (children.map Check.name).Nodup
  budgets : ∀ slot budget inner, c.Has (.debounced slot budget inner) →
    budget.toNat < Debounce.countLimit

theorem Steady.below {c d : Check} (steady : c.Steady) (has : c.Has d) : d.Steady :=
  ⟨fun p below => steady.fixed p (has.trans below),
    fun name children below => steady.names name children (has.trans below),
    fun slot budget inner below => steady.budgets slot budget inner (has.trans below)⟩

namespace Steady

theorem leaf {name : String} {status : Status} {message : String} :
    (Check.fixed name status message).Steady :=
  ⟨nofun, nofun, nofun⟩

theorem group {name : String} {children : List Check}
    (distinct : (children.map Check.name).Nodup) (all : ∀ c ∈ children, c.Steady) :
    (Check.group name children).Steady := by
  refine ⟨?_, ?_, ?_⟩
  · rintro p (_ | ⟨mem, has⟩)
    exact (all _ mem).fixed p has
  · rintro name children (_ | ⟨mem, has⟩)
    · exact distinct
    · exact (all _ mem).names _ _ has
  · rintro slot budget inner (_ | ⟨mem, has⟩)
    exact (all _ mem).budgets _ _ _ has

theorem cached {slot interval : Nat} {inner : Check} (steady : inner.Steady) :
    (Check.cached slot interval inner).Steady := by
  refine ⟨?_, ?_, ?_⟩
  · rintro p (_ | _ | has)
    exact steady.fixed p ‹_›
  · rintro name children (_ | _ | has)
    exact steady.names _ _ ‹_›
  · rintro slot budget inner (_ | _ | has)
    exact steady.budgets _ _ _ ‹_›

theorem debounced {slot : Nat} {budget : UInt32} {inner : Check}
    (small : budget.toNat < Debounce.countLimit) (steady : inner.Steady) :
    (Check.debounced slot budget inner).Steady := by
  refine ⟨?_, ?_, ?_⟩
  · rintro p (_ | _ | _ | has)
    exact steady.fixed p ‹_›
  · rintro name children (_ | _ | _ | has)
    exact steady.names _ _ ‹_›
  · rintro slot budget inner (_ | _ | _ | has)
    · exact small
    · exact steady.budgets _ _ _ ‹_›

end Steady

mutual
/-- The check without its caches and debounced checks. -/
def bare : Check → Check
  | fixed name status message => fixed name status message
  | probe p => probe p
  | group name children => group name (bares children)
  | cached _ _ inner => inner.bare
  | debounced _ _ inner => inner.bare
/-- The same for the children of a group. -/
def bares : List Check → List Check
  | [] => []
  | c :: rest => c.bare :: bares rest
end

@[simp] theorem bare_name : (c : Check) → c.bare.name = c.name
  | fixed _ _ _ | probe _ | group _ _ => rfl
  | cached _ _ inner | debounced _ _ inner => bare_name inner

mutual
/-- **The ideal does not see caches and debounced checks.** -/
theorem bare_ideal (c : Check) : c.bare.ideal = c.ideal := by
  cases c with
  | fixed | probe => rw [bare]
  | group name children =>
    have lengths : (bares children).length = children.length := by
      have same := congrArg List.length (bares_ideals children)
      rwa [ideals_eq, ideals_eq, List.length_map, List.length_map] at same
    rw [bare, ideal, ideal, bares_ideals children, lengths]
  | cached slot interval inner =>
    rw [bare, ideal]
    exact bare_ideal inner
  | debounced slot budget inner =>
    rw [bare, ideal]
    exact bare_ideal inner
theorem bares_ideals (children : List Check) : ideals (bares children) = ideals children := by
  cases children with
  | nil => rfl
  | cons c rest => rw [bares, ideals, ideals, bare_name, bare_ideal c, bares_ideals rest]
end

end Check

end HealthTree
