import HealthTree.Proofs.Debouncing

/-!
# Before the first success

What a debounced check keeps in place of a success before there was one is blank, and only the count
of failures keeps it out of sight: the count starts at the budget, so one failure makes more of them
than the budget hides. This rests on the count going up. At the largest budget it cannot, and then a
failure before the first success is answered with the blank health as if the check had passed
(`invents_at_largest_budget_only`). Under every other budget each success that is answered was
reported by the inner check.
-/

namespace HealthTree

namespace Debounce

/-- The success that is kept is one of those seen, unless all failed. -/
theorem afterAll_success (d : Debounce) (inners : List Outcome) :
    Except.ok (d.afterAll inners).success ∈ inners ∨
      (∀ o ∈ inners, o.isOk = false) ∧ (d.afterAll inners).success = d.success := by
  induction inners generalizing d with
  | nil => exact .inr ⟨nofun, rfl⟩
  | cons o rest ih =>
    rcases ih (d.after o) with seen | ⟨failed, kept⟩
    · exact .inl (List.mem_cons_of_mem _ seen)
    cases o with
    | ok h =>
      left
      rw [afterAll, List.foldl_cons, ← afterAll, kept]
      exact List.mem_cons_self
    | error f => exact .inr ⟨List.forall_mem_cons.mpr ⟨rfl, failed⟩, kept⟩

/-- **Before the first success** a failure is passed on, unless the budget is the largest count. -/
theorem initial_hides (budget : UInt32) {inners : List Outcome}
    (failed : ∀ o ∈ inners, o.isOk = false) :
    ((initial budget).afterAll inners).hides budget = decide (budget.toNat = countLimit) := by
  have small : budget.toNat ≤ countLimit := Nat.le_sub_one_of_lt budget.toNat_lt
  have counted := afterAll_failures (d := initial budget) small failed
  simp only [hides, countUp, counted, decide_eq_decide]
  simp only [initial] at small ⊢
  omega

/-- **What is answered was seen**: a success that is answered is one of the inner check's, unless
the budget is the largest count and there was none. -/
theorem answer_seen {budget : UInt32} {inners : List Outcome} {o : Outcome} {h : Health}
    (answered : ((initial budget).afterAll inners).answer budget o = .ok h) :
    Except.ok h ∈ inners ++ [o] ∨
      budget.toNat = countLimit ∧ h = .blank ∧ ∀ y ∈ inners ++ [o], y.isOk = false := by
  cases o with
  | ok h' =>
    cases answered
    exact .inl (List.mem_append_right _ List.mem_cons_self)
  | error f =>
    simp only [answer] at answered
    split at answered
    case isFalse => cases answered
    case isTrue hidden =>
      cases answered
      rcases afterAll_success (initial budget) inners with seen | ⟨failed, blank⟩
      · exact .inl (List.mem_append_left _ seen)
      · rw [initial_hides budget failed, decide_eq_true_eq] at hidden
        refine .inr ⟨hidden, blank, fun y mem => ?_⟩
        rcases List.mem_append.mp mem with mem | mem
        · exact failed y mem
        · cases List.mem_singleton.mp mem
          rfl

end Debounce

namespace Scenario.Session

open CheckTree (ofBlueprint?)

/-- A debounced check of a tree answers, over a run, as one that has seen nothing at first. -/
theorem answers_initial {b : Blueprint} {t : CheckTree} (built : ofBlueprint? b = some t)
    (before : List Event) (run : List Move) {slot : Nat} {budget : UInt32} {inner : Check}
    (node : t.root.Has (.debounced slot budget inner)) :
    (Debounce.initial budget).Answers budget
      (((ofTree (some t) before).observations run).filter (·.slot == slot)) := by
  obtain ⟨plan, planned⟩ := CheckTree.planned_ofBlueprint built
  have here := planned.root.debounced slot budget inner node
  have kept : (ofTree (some t) before).machine.world.debounces[slot]? =
      some (.initial budget) := by
    have debounces : (ofTree (some t) before).machine.world.debounces = _ :=
      planned.assembled.debounces
    rw [debounces, List.getElem?_map, here]
    rfl
  obtain ⟨answers, -⟩ :=
    moves_observations (planned.within before) (ofTree_calls planned before) run
  exact (answers slot budget inner _ here kept).1

/-- **Which successes are invented.** Over every run, of a debounced check of the tree: a success
that a call of it comes to was reported by the inner check in this call or in an earlier one, unless
the budget is the largest count and the inner check has never passed, when the success is blank. As
long as the inner check has not passed, a failure is passed on as it is under every other budget,
and under that one it is always answered with the blank success. What a call of the debounced check
replies is what the last observation of its last step shows. -/
theorem invents_at_largest_budget_only {b : Blueprint} {t : CheckTree}
    (built : ofBlueprint? b = some t) (before : List Event) (run : List Move) {slot : Nat}
    {budget : UInt32} {inner : Check} (node : t.root.Has (.debounced slot budget inner)) :
    let s := (ofTree (some t) before).moves run
    let seen := ((ofTree (some t) before).observations run).filter (·.slot == slot)
    (∀ earlier x later, seen = earlier ++ x :: later →
      (∀ h, x.answer = .done (.ok h) → (∃ y ∈ earlier ++ [x], y.inner = .ok h) ∨
        budget.toNat = Debounce.countLimit ∧ h = .blank ∧
          ∀ y ∈ earlier ++ [x], y.inner.isOk = false) ∧
      ∀ f, (∀ y ∈ earlier, y.inner.isOk = false) → x.inner = .error f →
        x.answer = .done
          (if budget.toNat = Debounce.countLimit then .ok .blank else .error f)) ∧
    ∀ i id name scope flight o, s.machine.jobs[i]? = some (id, .call name scope flight) →
      flight.Of (.debounced slot budget inner) →
      (s.move (.turn i)).machine.finished =
        (id, s.machine.now, .answered name o) :: s.machine.finished →
      ∃ others x, s.observed (.turn i) = others ++ [x] ∧ x.slot = slot ∧ x.answer = .done o := by
  intro s seen
  have answers : Debounce.Answers budget (.initial budget) seen :=
    answers_initial built before run node
  refine ⟨fun earlier x later split => ?_,
    fun i id name scope flight o found of finished => observed_answer found of finished⟩
  rw [split] at answers
  have answered := (Debounce.answers_append.mp answers).2.2.1
  refine ⟨fun h ok => ?_, fun f failed failure => ?_⟩
  · have given := Debounce.answer_seen (Turn.done.inj (answered.symm.trans ok))
    have inners : (earlier ++ [x]).map (·.inner) = earlier.map (·.inner) ++ [x.inner] :=
      List.map_append
    rw [← inners] at given
    rcases given with given | ⟨largest, blank, failed⟩
    · exact .inl (List.mem_map.mp given)
    · exact .inr ⟨largest, blank, List.forall_mem_map.mp failed⟩
  · replace failed : ∀ o ∈ earlier.map (·.inner), o.isOk = false := List.forall_mem_map.mpr failed
    obtain seen | ⟨-, blank⟩ :=
      Debounce.afterAll_success (.initial budget) (earlier.map (·.inner))
    · cases failed _ seen
    · rw [answered, failure, Debounce.answer, Debounce.initial_hides budget failed, blank]
      simp only [decide_eq_true_eq]
      rfl

/-- One below the largest budget, the first failure is passed on, and so it is the reply. -/
theorem first_failure_passed_on :
    let b : Blueprint := .debounced 4294967294 (.fixed "a" .unhealthy "down")
    let run : List Move := [.begin (.check .root {}), .turn 0]
    ∃ t, ofBlueprint? b = some t ∧
      (∃ x, (ofTree (some t) []).observations run = [x] ∧ x.inner.isOk = false ∧
        x.answer = .done x.inner) ∧
      ((ofTree (some t) []).moves run).machine.finished =
        [(0, 0, .answered "a" (Check.fixedOutcome "a" .unhealthy "down"))] := by
  intro b run
  refine ⟨_, rfl, ⟨_, rfl, rfl, ?_⟩, by rfl⟩
  have node : Check.Has (.debounced 0 4294967294 (.fixed "a" .unhealthy "down"))
      (.debounced 0 4294967294 (.fixed "a" .unhealthy "down")) := .self _
  obtain ⟨first, -⟩ := invents_at_largest_budget_only (b := b) rfl [] run node
  exact (first [] _ [] rfl).2 _ (by simp) rfl

/-- With the largest budget and an inner check that is always down, the first call is answered with
a blank success. -/
theorem invents_first_success :
    let b : Blueprint := .debounced 4294967295 (.fixed "a" .unhealthy "down")
    let run : List Move := [.begin (.check .root {}), .turn 0]
    ∃ t, ofBlueprint? b = some t ∧
      t.root.Has (.debounced 0 4294967295 (.fixed "a" .unhealthy "down")) ∧
      (∃ x, (ofTree (some t) []).observations run = [x] ∧
        x.inner = Check.fixedOutcome "a" .unhealthy "down" ∧ x.inner.isOk = false ∧
        x.answer = .done (.ok .blank)) ∧
      ((ofTree (some t) []).moves run).machine.finished =
        [(0, 0, .answered "a" (.ok .blank))] :=
  ⟨_, rfl, .self _, ⟨_, rfl, rfl, rfl, rfl⟩, by rfl⟩

end Scenario.Session

end HealthTree
