import HealthTree.Proofs.Calls
import HealthTree.Proofs.Interleaving

/-!
# How a tree is numbered

Assembling a blueprint gives every cached and every debounced node a number, and what stands under a
number never changes (`Check.Listed`): two nodes with one number are one node used at two places,
with one interval or one budget, and one check inside. A cache only looks at caches with smaller
numbers than its own. `assemble_planned` says so of what is assembled, and
`CheckTree.planned_ofBlueprint` of a whole tree.

Whatever has a number or a label stands for a node of the tree (`CheckTree.nodes_ofBlueprint`), so
what holds of all nodes holds of every check that can be asked for.
-/

namespace HealthTree

/-- What the debounced nodes are made of, by their numbers: the budget and the check inside. -/
abbrev Plan := List (UInt32 × Check)

/-- **Every node of the check is what these tables list under its number.** -/
structure Check.Listed (c : Check) (makes : List (Check × Nat)) (plan : Plan) : Prop where
  cached : ∀ slot interval inner, c.Has (.cached slot interval inner) →
    makes[slot]? = some (inner, interval)
  debounced : ∀ slot budget inner, c.Has (.debounced slot budget inner) →
    plan[slot]? = some (budget, inner)

namespace Check.Listed

variable {c d : Check} {makes makes' : List (Check × Nat)} {plan plan' : Plan}

theorem mono (listed : c.Listed makes plan) (more : makes <+: makes') (more' : plan <+: plan') :
    c.Listed makes' plan' := by
  obtain ⟨new, rfl⟩ := more
  obtain ⟨new', rfl⟩ := more'
  refine ⟨?_, ?_⟩
  · intro slot interval inner has
    have there := listed.cached slot interval inner has
    rw [List.getElem?_append_left (List.getElem?_eq_some_iff.mp there).1, there]
  · intro slot budget inner has
    have there := listed.debounced slot budget inner has
    rw [List.getElem?_append_left (List.getElem?_eq_some_iff.mp there).1, there]

theorem below (listed : c.Listed makes plan) (has : c.Has d) : d.Listed makes plan :=
  ⟨fun slot interval inner below => listed.cached slot interval inner (has.trans below),
    fun slot budget inner below => listed.debounced slot budget inner (has.trans below)⟩

theorem fixed {name : String} {status : Status} {message : String} :
    (Check.fixed name status message).Listed makes plan :=
  ⟨nofun, nofun⟩

theorem probe {p : Probe} : (Check.probe p).Listed makes plan :=
  ⟨nofun, nofun⟩

theorem group {name : String} {children : List Check}
    (all : ∀ c ∈ children, c.Listed makes plan) :
    (Check.group name children).Listed makes plan := by
  constructor
  · rintro slot interval inner (_ | ⟨mem, has⟩)
    exact (all _ mem).cached slot interval inner has
  · rintro slot budget inner (_ | ⟨mem, has⟩)
    exact (all _ mem).debounced slot budget inner has

theorem cache {slot interval : Nat} (inside : c.Listed makes plan)
    (here : makes[slot]? = some (c, interval)) :
    (Check.cached slot interval c).Listed makes plan := by
  constructor
  · rintro slot' interval' inner (_ | _ | has)
    · exact here
    · exact inside.cached _ _ _ ‹_›
  · rintro slot' budget inner (_ | _ | has)
    exact inside.debounced _ _ _ ‹_›

theorem debounce {slot : Nat} {budget : UInt32} (inside : c.Listed makes plan)
    (here : plan[slot]? = some (budget, c)) :
    (Check.debounced slot budget c).Listed makes plan := by
  constructor
  · rintro slot' interval' inner (_ | _ | _ | has)
    exact inside.cached _ _ _ ‹_›
  · rintro slot' budget inner (_ | _ | _ | has)
    · exact here
    · exact inside.debounced _ _ _ ‹_›

end Check.Listed

/-- **What is assembled keeps to its numbers**: every debounced check starts with the budget that
the plan lists, every cache starts empty and looks at caches before it only. -/
structure Assembly.Planned (a : Assembly) (plan : Plan) : Prop where
  debounces : a.debounces = plan.map fun p => .initial p.1
  labels : ∀ label c, a.labels.lookup label = some c → c.Listed (a.caches.map Cache.make) plan
  caches : ∀ c ∈ a.caches, c.inner.Listed (a.caches.map Cache.make) plan
  empty : ∀ c ∈ a.caches, c = { inner := c.inner, interval := c.interval }
  positive : ∀ c ∈ a.caches, 0 < c.interval
  ordered : ∀ k (c : Cache), a.caches[k]? = some c → ∀ slot interval inner,
    c.inner.Has (.cached slot interval inner) → slot < k

namespace Assembly.Planned

variable {a : Assembly} {plan : Plan} {c : Check}

theorem addCache (planned : a.Planned plan) (interval : Nat)
    (listed : c.Listed (a.caches.map Cache.make) plan) :
    (a.addCache interval c).2.Planned plan ∧
      (a.addCache interval c).1.Listed ((a.addCache interval c).2.caches.map Cache.make) plan := by
  have more : a.caches.map Cache.make <+: (a.addCache interval c).2.caches.map Cache.make := by
    simp [Assembly.addCache]
  have listed' := listed.mono more (List.prefix_refl plan)
  refine ⟨⟨planned.debounces, ?_, ?_, ?_, ?_, ?_⟩, .cache listed' ?_⟩
  · exact fun label c found => (planned.labels label c found).mono more (List.prefix_refl plan)
  · intro cache mem
    rcases List.mem_append.mp mem with mem | mem
    · exact (planned.caches cache mem).mono more (List.prefix_refl plan)
    · cases List.mem_singleton.mp mem
      exact listed'
  · intro cache mem
    rcases List.mem_append.mp mem with mem | mem
    · exact planned.empty cache mem
    · cases List.mem_singleton.mp mem
      rfl
  · intro cache mem
    rcases List.mem_append.mp mem with mem | mem
    · exact planned.positive cache mem
    · cases List.mem_singleton.mp mem
      exact Nat.le_max_right interval 1
  · intro k cache found slot interval' inner has
    rcases Nat.lt_or_ge k a.caches.length with before | after
    · exact planned.ordered k cache
        (by simpa [Assembly.addCache, List.getElem?_append_left before] using found) _ _ _ has
    · have there : k = a.caches.length := by
        have := (List.getElem?_eq_some_iff.mp found).1
        simp only [Assembly.addCache, List.length_append, List.length_singleton] at this
        omega
      subst there
      simp only [Assembly.addCache, List.getElem?_concat_length, Option.some.injEq] at found
      subst found
      have := (List.getElem?_eq_some_iff.mp (listed.cached slot interval' inner has)).1
      simpa using this
  · simp [Assembly.addCache, Cache.make]

theorem addDebounce (planned : a.Planned plan) (budget : UInt32)
    (listed : c.Listed (a.caches.map Cache.make) plan) :
    (a.addDebounce budget c).2.Planned (plan ++ [(budget, c)]) ∧
      (a.addDebounce budget c).1.Listed (a.caches.map Cache.make) (plan ++ [(budget, c)]) := by
  have more : plan <+: plan ++ [(budget, c)] := List.prefix_append ..
  refine ⟨⟨?_, ?_, ?_, planned.empty, planned.positive, planned.ordered⟩,
    .debounce (listed.mono (List.prefix_refl _) more) ?_⟩
  · simp [Assembly.addDebounce, planned.debounces]
  · exact fun label c found => (planned.labels label c found).mono (List.prefix_refl _) more
  · exact fun cache mem => (planned.caches cache mem).mono (List.prefix_refl _) more
  · simp [planned.debounces]

theorem addLabel (planned : a.Planned plan) (label : String)
    (listed : c.Listed (a.caches.map Cache.make) plan) : (a.addLabel label c).Planned plan where
  debounces := planned.debounces
  labels other d found := by
    simp only [Assembly.addLabel, List.lookup_cons] at found
    split at found
    · cases found
      exact listed
    · exact planned.labels other d found
  caches := planned.caches
  empty := planned.empty
  positive := planned.positive
  ordered := planned.ordered

end Assembly.Planned

namespace Blueprint

mutual
/-- **Assembling keeps to the numbers given before**, and lists every node of the check it makes. -/
theorem assemble_planned (b : Blueprint) {a a' : Assembly} {plan : Plan} {c : Check}
    (planned : a.Planned plan) (built : b.assemble a = some (c, a')) :
    ∃ plan', a'.Planned plan' ∧ a.caches <+: a'.caches ∧ plan <+: plan' ∧
      c.Listed (a'.caches.map Cache.make) plan' := by
  cases b with
  | fixed name status message =>
    cases built
    exact ⟨plan, planned, List.prefix_refl _, List.prefix_refl _, .fixed⟩
  | probe p =>
    cases built
    exact ⟨plan, planned, List.prefix_refl _, List.prefix_refl _, .probe⟩
  | group name children =>
    obtain ⟨⟨cs, a₁⟩, all, built⟩ := Option.bind_eq_some_iff.mp built
    cases built
    obtain ⟨plan', planned', caches, more, listed⟩ := assembleAll_planned children planned all
    exact ⟨plan', planned', caches, more, .group listed⟩
  | cached interval inner =>
    obtain ⟨⟨d, a₁⟩, inside, built⟩ := Option.bind_eq_some_iff.mp built
    cases built
    obtain ⟨plan', planned', caches, more, listed⟩ := assemble_planned inner planned inside
    obtain ⟨planned'', listed'⟩ := planned'.addCache interval listed
    exact ⟨plan', planned'', caches.trans (List.prefix_append ..), more, listed'⟩
  | debounced budget inner =>
    obtain ⟨⟨d, a₁⟩, inside, built⟩ := Option.bind_eq_some_iff.mp built
    cases built
    obtain ⟨plan', planned', caches, more, listed⟩ := assemble_planned inner planned inside
    obtain ⟨planned'', listed'⟩ := planned'.addDebounce budget listed
    exact ⟨_, planned'', caches, more.trans (List.prefix_append ..), listed'⟩
  | labelled label node =>
    obtain ⟨⟨d, a₁⟩, inside, built⟩ := Option.bind_eq_some_iff.mp built
    cases built
    obtain ⟨plan', planned', caches, more, listed⟩ := assemble_planned node planned inside
    exact ⟨plan', planned'.addLabel label listed, caches, more, listed⟩
  | use label =>
    obtain ⟨d, found, built⟩ := Option.bind_eq_some_iff.mp built
    cases built
    exact ⟨plan, planned, List.prefix_refl _, List.prefix_refl _, planned.labels label _ found⟩
theorem assembleAll_planned (bs : List Blueprint) {a a' : Assembly} {plan : Plan}
    {cs : List Check} (planned : a.Planned plan) (built : assembleAll bs a = some (cs, a')) :
    ∃ plan', a'.Planned plan' ∧ a.caches <+: a'.caches ∧ plan <+: plan' ∧
      ∀ c ∈ cs, c.Listed (a'.caches.map Cache.make) plan' := by
  cases bs with
  | nil =>
    cases built
    exact ⟨plan, planned, List.prefix_refl _, List.prefix_refl _, nofun⟩
  | cons b rest =>
    obtain ⟨⟨c, a₁⟩, first, built⟩ := Option.bind_eq_some_iff.mp built
    obtain ⟨⟨cs, a₂⟩, others, built⟩ := Option.bind_eq_some_iff.mp built
    cases built
    obtain ⟨plan₁, planned₁, caches₁, more₁, listed₁⟩ := assemble_planned b planned first
    obtain ⟨plan₂, planned₂, caches₂, more₂, listed₂⟩ := assembleAll_planned rest planned₁ others
    refine ⟨plan₂, planned₂, caches₁.trans caches₂, more₁.trans more₂, ?_⟩
    intro d mem
    rcases List.mem_cons.mp mem with rfl | mem
    · exact listed₁.mono (caches₂.map _) more₂
    · exact listed₂ d mem
end

end Blueprint

/-! ## What a tree keeps is kept of its nodes -/

/-- What is assembled after `a` is kept of the nodes of this check: each cache that is new stands
for one, and so does each label that stands for another check than before. -/
structure Assembly.KeepsOf (a a' : Assembly) (c : Check) : Prop where
  caches : ∀ k (cache : Cache), a'.caches[k]? = some cache →
    a.caches[k]? = some cache ∨ c.Has (.cached k cache.interval cache.inner)
  labels : ∀ label d, a'.labels.lookup label = some d → a.labels.lookup label = some d ∨ c.Has d

namespace Assembly.KeepsOf

variable {a a' a'' : Assembly} {c d : Check}

theorem refl (a : Assembly) (c : Check) : a.KeepsOf a c :=
  ⟨fun _ _ found => .inl found, fun _ _ found => .inl found⟩

theorem above (keeps : a.KeepsOf a' d) (has : c.Has d) : a.KeepsOf a' c :=
  ⟨fun k cache found => (keeps.caches k cache found).imp_right has.trans,
    fun label e found => (keeps.labels label e found).imp_right has.trans⟩

theorem trans (first : a.KeepsOf a' c) (second : a'.KeepsOf a'' c) : a.KeepsOf a'' c where
  caches k cache found := (second.caches k cache found).elim (first.caches k cache) .inr
  labels label d found := (second.labels label d found).elim (first.labels label d) .inr

theorem addCache (keeps : a.KeepsOf a' d) (interval : Nat) :
    a.KeepsOf (a'.addCache interval d).2 (a'.addCache interval d).1 := by
  refine (keeps.above (.cached (.self d))).trans ⟨?_, fun _ _ found => .inl found⟩
  intro k cache found
  rcases Nat.lt_or_ge k a'.caches.length with before | after
  · exact .inl (by simpa [Assembly.addCache, List.getElem?_append_left before] using found)
  · have there : k = a'.caches.length := by
      have := (List.getElem?_eq_some_iff.mp found).1
      simp only [Assembly.addCache, List.length_append, List.length_singleton] at this
      omega
    subst there
    simp only [Assembly.addCache, List.getElem?_concat_length, Option.some.injEq] at found
    subst found
    exact .inr (.self _)

theorem addLabel (keeps : a.KeepsOf a' c) (label : String) :
    a.KeepsOf (a'.addLabel label c) c := by
  refine keeps.trans ⟨fun _ _ found => .inl found, ?_⟩
  intro other d found
  simp only [Assembly.addLabel, List.lookup_cons] at found
  split at found
  · cases found
    exact .inr (.self _)
  · exact .inl found

end Assembly.KeepsOf

namespace Blueprint

mutual
/-- **What assembling adds is kept of the nodes of the check that is made.** -/
theorem assemble_keeps (b : Blueprint) {a a' : Assembly} {c : Check}
    (built : b.assemble a = some (c, a')) : a.KeepsOf a' c := by
  cases b with
  | fixed | probe =>
    cases built
    exact .refl a _
  | group name children =>
    obtain ⟨⟨cs, a₁⟩, all, built⟩ := Option.bind_eq_some_iff.mp built
    cases built
    exact assembleAll_keeps name children all (List.Subset.refl _)
  | cached interval inner =>
    obtain ⟨⟨d, a₁⟩, inside, built⟩ := Option.bind_eq_some_iff.mp built
    cases built
    exact (assemble_keeps inner inside).addCache interval
  | debounced budget inner =>
    obtain ⟨⟨d, a₁⟩, inside, built⟩ := Option.bind_eq_some_iff.mp built
    cases built
    obtain ⟨caches, labels⟩ := (assemble_keeps inner inside).above
      (.debounced (.self _) : (Check.debounced a₁.debounces.length budget d).Has d)
    exact ⟨caches, labels⟩
  | labelled label node =>
    obtain ⟨⟨d, a₁⟩, inside, built⟩ := Option.bind_eq_some_iff.mp built
    cases built
    exact (assemble_keeps node inside).addLabel label
  | use label =>
    obtain ⟨d, found, built⟩ := Option.bind_eq_some_iff.mp built
    cases built
    exact .refl a _
theorem assembleAll_keeps (name : String) (bs : List Blueprint) {a a' : Assembly}
    {cs all : List Check} (built : assembleAll bs a = some (cs, a')) (sub : cs ⊆ all) :
    a.KeepsOf a' (.group name all) := by
  cases bs with
  | nil =>
    cases built
    exact .refl a _
  | cons b rest =>
    obtain ⟨⟨c, a₁⟩, first, built⟩ := Option.bind_eq_some_iff.mp built
    obtain ⟨⟨cs, a₂⟩, others, built⟩ := Option.bind_eq_some_iff.mp built
    cases built
    have here : (Check.group name all).Has c := .child (sub List.mem_cons_self) (.self c)
    exact ((assemble_keeps b first).above here).trans
      (assembleAll_keeps name rest others fun _ mem => sub (List.mem_cons_of_mem _ mem))
end

end Blueprint

/-- **Every cache and every label of a tree that is built stands for a node of it.** -/
theorem CheckTree.nodes_ofBlueprint {b : Blueprint} {t : CheckTree}
    (built : CheckTree.ofBlueprint? b = some t) :
    (∀ k (c : Cache), t.caches[k]? = some c → t.root.Has (.cached k c.interval c.inner)) ∧
      ∀ label c, t.labels.lookup label = some c → t.root.Has c := by
  obtain ⟨⟨root, a⟩, assembled, built⟩ := Option.bind_eq_some_iff.mp built
  cases built
  have keeps := b.assemble_keeps assembled
  exact ⟨fun k c found => (keeps.caches k c found).resolve_left nofun,
    fun label c found => (keeps.labels label c found).resolve_left nofun⟩

/-- A tree keeps to its numbers. -/
structure CheckTree.Planned (t : CheckTree) (plan : Plan) : Prop where
  assembled : Assembly.Planned ⟨t.caches, t.debounces, t.labels, t.events⟩ plan
  root : t.root.Listed (t.caches.map Cache.make) plan

/-- **Every tree that is built keeps to its numbers.** -/
theorem CheckTree.planned_ofBlueprint {b : Blueprint} {t : CheckTree}
    (built : CheckTree.ofBlueprint? b = some t) : ∃ plan, t.Planned plan := by
  obtain ⟨⟨root, a⟩, assembled, built⟩ := Option.bind_eq_some_iff.mp built
  cases built
  have none : Assembly.Planned {} [] := ⟨rfl, nofun, nofun, nofun, nofun, nofun⟩
  obtain ⟨plan, planned, -, -, listed⟩ := b.assemble_planned none assembled
  exact ⟨plan, planned, listed⟩

/-- What a session knows by name at first are listed checks, and the scope of the shutdown. -/
theorem CheckTree.Planned.within {t : CheckTree} {plan : Plan} (planned : t.Planned plan)
    (before : List Event) :
    let s := Scenario.Session.ofTree (some t) before
    s.Within (·.Listed (t.caches.map Cache.make) plan) [s.shutdown] where
  shutdown := List.mem_cons_self
  scopes := nofun
  root := by
    rintro _ ⟨⟩
    exact planned.root
  labels := planned.assembled.labels
  caches slot make found := by
    obtain ⟨c, mem, rfl⟩ := List.mem_map.mp (List.mem_of_getElem? found)
    exact .cache (planned.assembled.caches c mem) found

end HealthTree
