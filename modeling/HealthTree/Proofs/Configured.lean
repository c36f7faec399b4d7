import HealthTree.Config.Validate
import HealthTree.Proofs.Progress

/-!
# Trees that are configured

A configured tree without problems has names of their own for the children of each group
(`CheckSpec.Fit`). So the tree that is assembled for it is laid out as the proofs about its caches
need it (`Fit.tree`), and the tree that is assembled for what is left without its refreshed and
debounced nodes (`CheckSpec.erased`) is the same check without its caches (`tree_erased`).
-/

namespace HealthTree

namespace CheckSpec

mutual
/-- **The tree with every refreshed and every debounced node replaced by the one inside it.** -/
def erased : CheckSpec → CheckSpec
  | group name checks => group name (erasedAll checks)
  | cached _ check => check.erased
  | debounced _ check => check.erased
  | fixed name status message => fixed name status message
/-- The same for several trees. -/
def erasedAll : List CheckSpec → List CheckSpec
  | [] => []
  | c :: rest => c.erased :: erasedAll rest
end

mutual
/-- **Every budget in the tree is below the largest count of failures.** -/
def bounded : CheckSpec → Bool
  | group _ checks => boundedAll checks
  | cached _ check => check.bounded
  | debounced budget check => decide (budget.toNat < Debounce.countLimit) && check.bounded
  | fixed _ _ _ => true
/-- The same for several trees. -/
def boundedAll : List CheckSpec → Bool
  | [] => true
  | c :: rest => c.bounded && boundedAll rest
end

/-- Siblings have names of their own, and no budget is too large. -/
inductive Fit : CheckSpec → Prop
  | group {name : String} {checks : List CheckSpec} (names : (checks.map CheckSpec.name).Nodup)
      (all : ∀ c ∈ checks, Fit c) : Fit (group name checks)
  | cached {interval : UInt64} {check : CheckSpec} (fit : Fit check) : Fit (cached interval check)
  | debounced {budget : UInt32} {check : CheckSpec} (small : budget.toNat < Debounce.countLimit)
      (fit : Fit check) : Fit (debounced budget check)
  | fixed {name : String} {status : Status} {message : String} : Fit (fixed name status message)

/-- What it says of the children of a group that they have no problems. -/
theorem childProblems_nil {parent : String} {i : Nat} {before : List String}
    {checks : List CheckSpec} (valid : childProblems parent i before checks = []) :
    (checks.map name).Nodup ∧ (∀ c ∈ checks, c.name ∉ before) ∧ ∀ c ∈ checks, c.problems = [] := by
  induction checks generalizing i before with
  | nil => exact ⟨List.nodup_nil, List.forall_mem_nil _, List.forall_mem_nil _⟩
  | cons c rest ih =>
    rw [childProblems, List.append_eq_nil_iff, List.append_eq_nil_iff] at valid
    obtain ⟨⟨fresh, own⟩, others⟩ := valid
    obtain ⟨distinct, apart, valid⟩ := ih others
    have fresh : c.name ∉ before := by
      intro known
      rw [if_pos known] at fresh
      cases fresh
    refine ⟨?_, ?_, ?_⟩
    · refine List.nodup_cons.mpr ⟨?_, distinct⟩
      intro mem
      obtain ⟨d, mem, same⟩ := List.mem_map.mp mem
      exact apart d mem (same ▸ List.mem_cons_self)
    · intro d mem
      rcases List.mem_cons.mp mem with rfl | mem
      · exact fresh
      · exact fun known => apart d mem (List.mem_cons_of_mem _ known)
    · intro d mem
      rcases List.mem_cons.mp mem with rfl | mem
      · exact List.map_eq_nil_iff.mp own
      · exact valid d mem

mutual
/-- **A tree without problems fits.** -/
theorem fit_of_problems (c : CheckSpec) (valid : c.problems = []) (bounded : c.bounded = true) :
    c.Fit := by
  cases c with
  | fixed => exact .fixed
  | cached interval check =>
    rw [problems, List.append_eq_nil_iff, List.map_eq_nil_iff] at valid
    exact .cached (fit_of_problems check valid.2 bounded)
  | debounced budget check =>
    rw [problems, List.append_eq_nil_iff, List.map_eq_nil_iff] at valid
    rw [CheckSpec.bounded, Bool.and_eq_true] at bounded
    exact .debounced (of_decide_eq_true bounded.1) (fit_of_problems check valid.2 bounded.2)
  | group name checks =>
    rw [problems, List.append_eq_nil_iff] at valid
    obtain ⟨distinct, -, valid⟩ := childProblems_nil valid.2
    exact .group distinct (fitAll_of_problems checks valid bounded)
theorem fitAll_of_problems (checks : List CheckSpec) (valid : ∀ c ∈ checks, c.problems = [])
    (bounded : boundedAll checks = true) : ∀ c ∈ checks, c.Fit := by
  cases checks with
  | nil => exact List.forall_mem_nil _
  | cons first rest =>
    rw [boundedAll, Bool.and_eq_true] at bounded
    intro c mem
    rcases List.mem_cons.mp mem with same | later
    · rw [same]
      exact fit_of_problems first (valid first List.mem_cons_self) bounded.1
    · exact fitAll_of_problems rest (fun d mem => valid d (List.mem_cons_of_mem _ mem)) bounded.2 c
        later
end

/-! ## Assembling -/

/-- What is refreshed in the background is steady, and nothing has a label. -/
def Sound (a : Assembly) : Prop :=
  (∀ cache ∈ a.caches, cache.inner.Steady) ∧ a.labels = []

/-- **A tree that fits is assembled**, under its own name, and to a check that is steady. -/
theorem Fit.assembles {c : CheckSpec} (fit : c.Fit) {a : Assembly} (sound : Sound a) :
    ∃ d a', c.blueprint.assemble a = some (d, a') ∧ d.name = c.name ∧ d.Steady ∧ Sound a' := by
  induction fit generalizing a with
  | fixed => exact ⟨_, a, rfl, rfl, .leaf, sound⟩
  | @cached interval check _ ih =>
    obtain ⟨d, a', built, named, steady, caches, labels⟩ := ih sound
    refine ⟨.cached a'.caches.length (max interval.toNat 1) d, (a'.addCache interval.toNat d).2, ?_,
      named, .cached steady, ?_, labels⟩
    · rw [blueprint, Blueprint.assemble, built]
      rfl
    · intro cache mem
      rcases List.mem_append.mp mem with mem | mem
      · exact caches cache mem
      · cases List.mem_singleton.mp mem
        exact steady
  | @debounced budget check small _ ih =>
    obtain ⟨d, a', built, named, steady, sound'⟩ := ih sound
    refine ⟨.debounced a'.debounces.length budget d, (a'.addDebounce budget d).2, ?_, named,
      .debounced small steady, sound'⟩
    rw [blueprint, Blueprint.assemble, built]
    rfl
  | @group name checks names _ ih =>
    have all (checks : List CheckSpec) (a : Assembly) (sound : Sound a)
        (ih : ∀ c ∈ checks, ∀ {a : Assembly}, Sound a → ∃ d a',
          c.blueprint.assemble a = some (d, a') ∧ d.name = c.name ∧ d.Steady ∧ Sound a') :
        ∃ ds a', Blueprint.assembleAll (blueprints checks) a = some (ds, a') ∧
          ds.map Check.name = checks.map CheckSpec.name ∧ (∀ d ∈ ds, d.Steady) ∧ Sound a' := by
      induction checks generalizing a with
      | nil => exact ⟨[], a, rfl, rfl, List.forall_mem_nil _, sound⟩
      | cons c rest later =>
        obtain ⟨d, a₁, built, named, steady, sound₁⟩ := ih c List.mem_cons_self sound
        obtain ⟨ds, a₂, built', named', steady', sound₂⟩ :=
          later a₁ sound₁ fun c mem => ih c (List.mem_cons_of_mem _ mem)
        refine ⟨d :: ds, a₂, ?_, ?_, ?_, sound₂⟩
        · rw [blueprints, Blueprint.assembleAll, built]
          simp only [Option.bind_eq_bind, Option.bind_some, built']
          rfl
        · rw [List.map_cons, List.map_cons, named, named']
        · intro e mem
          rcases List.mem_cons.mp mem with rfl | mem
          · exact steady
          · exact steady' e mem
    obtain ⟨ds, a', built, named, steady, sound'⟩ := all checks a sound ih
    refine ⟨.group name ds, a', ?_, rfl, .group (named ▸ names) steady, sound'⟩
    rw [blueprint, Blueprint.assemble, built]
    rfl

/-! ## What is left without refreshed and debounced nodes -/

@[simp] theorem erased_name : (c : CheckSpec) → c.erased.name = c.name
  | group _ _ | fixed _ _ _ => rfl
  | cached _ check | debounced _ check => erased_name check

theorem erasedAll_eq (checks : List CheckSpec) : erasedAll checks = checks.map erased := by
  induction checks with
  | nil => rfl
  | cons c rest ih => rw [erasedAll, ih, List.map_cons]

/-- What is left of a tree that fits does so too. -/
theorem Fit.erased {c : CheckSpec} (fit : c.Fit) : c.erased.Fit := by
  induction fit with
  | fixed => exact .fixed
  | cached _ ih => exact ih
  | debounced _ _ ih => exact ih
  | @group name checks names _ ih =>
    rw [CheckSpec.erased, erasedAll_eq]
    refine .group ?_ ?_
    · rw [List.map_map]
      have same : CheckSpec.name ∘ CheckSpec.erased = CheckSpec.name := funext erased_name
      rw [same]
      exact names
    · intro c mem
      obtain ⟨d, inside, rfl⟩ := List.mem_map.mp mem
      exact ih d inside

mutual
/-- **What is left of a tree is assembled to what is left of its check**, and needs no place to keep
anything. -/
theorem assemble_erased (c : CheckSpec) {a a' : Assembly} {d : Check}
    (built : c.blueprint.assemble a = some (d, a')) (b : Assembly) :
    c.erased.blueprint.assemble b = some (d.bare, b) := by
  cases c with
  | fixed =>
    cases built
    rfl
  | cached interval check =>
    rw [blueprint] at built
    obtain ⟨⟨inner, a₁⟩, inside, built⟩ := Option.bind_eq_some_iff.mp built
    cases built
    exact assemble_erased check inside b
  | debounced budget check =>
    rw [blueprint] at built
    obtain ⟨⟨inner, a₁⟩, inside, built⟩ := Option.bind_eq_some_iff.mp built
    cases built
    exact assemble_erased check inside b
  | group name checks =>
    rw [blueprint] at built
    obtain ⟨⟨ds, a₁⟩, all, built⟩ := Option.bind_eq_some_iff.mp built
    cases built
    rw [erased, blueprint, Blueprint.assemble, assembleAll_erased checks all b]
    rfl
theorem assembleAll_erased (checks : List CheckSpec) {a a' : Assembly} {ds : List Check}
    (built : Blueprint.assembleAll (blueprints checks) a = some (ds, a')) (b : Assembly) :
    Blueprint.assembleAll (blueprints (erasedAll checks)) b = some (Check.bares ds, b) := by
  cases checks with
  | nil =>
    cases built
    rfl
  | cons c rest =>
    rw [blueprints] at built
    obtain ⟨⟨d, a₁⟩, first, built⟩ := Option.bind_eq_some_iff.mp built
    obtain ⟨⟨ds', a₂⟩, others, built⟩ := Option.bind_eq_some_iff.mp built
    cases built
    rw [erasedAll, blueprints, Blueprint.assembleAll, assemble_erased c first b]
    simp only [Option.bind_eq_bind, Option.bind_some, assembleAll_erased rest others b]
    rfl
end

/-! ## Trees -/

/-- **The tree of a configuration that fits is laid out**: its caches look only at caches before
them, and nothing in it depends on when it is called. -/
theorem Fit.tree {c : CheckSpec} (fit : c.Fit) :
    ∃ t plan, c.tree? = some t ∧ t.Planned plan ∧ t.labels = [] ∧ t.root.name = c.name ∧
      Layout (t.caches.map Cache.make) plan ∧ t.root.Known (t.caches.map Cache.make) plan := by
  obtain ⟨d, a, built, named, steady, caches, labels⟩ :=
    fit.assembles (a := {}) ⟨List.forall_mem_nil _, rfl⟩
  have tree : c.tree? = some ⟨d, a.caches, a.debounces, a.labels, a.events⟩ := by
    unfold tree? CheckTree.ofBlueprint?
    rw [built]
    rfl
  obtain ⟨plan, planned⟩ := CheckTree.planned_ofBlueprint tree
  have there {slot : Nat} {make : Check × Nat}
      (found : (a.caches.map Cache.make)[slot]? = some make) :
      ∃ cache, a.caches[slot]? = some cache ∧ cache.make = make :=
    Option.map_eq_some_iff.mp (List.getElem?_map ▸ found)
  refine ⟨_, plan, tree, planned, labels, named, ⟨?_, ?_, ?_⟩, planned.root, steady⟩
  · intro slot make found
    obtain ⟨cache, here, rfl⟩ := there found
    have mem := List.mem_of_getElem? here
    exact ⟨planned.assembled.caches cache mem, caches cache mem⟩
  · intro slot make found other interval inner has
    obtain ⟨cache, here, rfl⟩ := there found
    exact planned.assembled.ordered slot cache here other interval inner has
  · intro slot make found
    obtain ⟨cache, here, rfl⟩ := there found
    exact planned.assembled.positive cache (List.mem_of_getElem? here)

/-- **What is left of a tree is the same check without its caches.** -/
theorem tree_erased {c : CheckSpec} {t : CheckTree} (built : c.tree? = some t) :
    c.erased.tree? = some ⟨t.root.bare, [], [], [], []⟩ := by
  obtain ⟨⟨root, a⟩, assembled, built⟩ := Option.bind_eq_some_iff.mp built
  cases built
  unfold tree? CheckTree.ofBlueprint?
  rw [assemble_erased c assembled {}]
  rfl

end CheckSpec

end HealthTree
