import HealthTree.Proofs.Loops

/-!
# What keeps a loop running

The scope of a loop comes from the scope of the start that set it off, and is tied to it. So once a
start has set off a loop, the loop runs until the scope of that start has ended, unless it is
stopped: what other jobs do, and other starts among them, takes nothing from it
(`runs_until_scope_ends`).

A start that finds a loop running only resets its timer, and the loop goes on under the scope of the
start before. When that ends the loop ends, although the scope of the later start may be live
(`ends_with_first_start`).
-/

namespace HealthTree

/-- The loop of a cache is running. -/
def Machine.runs (m : Machine) (slot : Nat) : Bool :=
  (m.world.cache? slot).any m.world.loopRuns

theorem Machine.runs_iff {m : Machine} {slot : Nat} :
    m.runs slot = true ↔
      ∃ l, m.world.loops[slot]? = some (some l) ∧ m.world.cause? l.scope = none := by
  unfold Machine.runs World.loopRuns World.loops World.cache?
  rw [List.getElem?_map]
  cases m.world.caches[slot]? with
  | none => simp
  | some c => cases loop : c.loop <;> simp [loop]

/-- The scope that the loop of a cache comes from. -/
def World.loopParent? (w : World) (slot : Nat) : Option ScopeId :=
  ((w.cache? slot).bind (·.loop)).bind fun l => w.scopes.parent? l.scope

theorem World.loopParent?_eq_some {w : World} {slot : Nat} {scope : ScopeId} :
    w.loopParent? slot = some scope ↔
      ∃ l, w.loops[slot]? = some (some l) ∧ w.scopes.parent? l.scope = some scope := by
  unfold loopParent? loops World.cache?
  rw [List.getElem?_map]
  cases w.caches[slot]? with
  | none => simp
  | some c => cases loop : c.loop <;> simp [loop]

namespace Scenario

/-- The command stops the loop of this cache. -/
def Command.stops (slot : Nat) : Command → Bool
  | .stop there => there == slot
  | .stopAll => true
  | _ => false

/-- The move is a command that stops the loop of this cache. -/
def Move.stops (slot : Nat) : Move → Bool
  | .begin c | .aside _ c => c.stops slot
  | .turn _ | .pass _ | .grace _ => false

namespace Session

/-- What a move does to the loop of a cache. -/
def loopEvent? (s : Session) : Move → Option LoopEvent
  | .turn i => s.machine.loopEvent? i
  | .begin _ | .aside _ _ | .pass _ | .grace _ => none

variable {known : Check → Prop} {s : Session} {held : List ScopeId} {slot : Nat}

/-! ## Commands -/

theorem instant_loops {c : Command} (goes : c.stops slot = false) :
    (s.instant c).2.machine.world.loops[slot]? = s.machine.world.loops[slot]? := by
  cases c with
  | stop there =>
    have apart : there ≠ slot := by simpa [Command.stops] using goes
    simp only [instant, Machine.stop_loops, List.getElem?_modify, if_neg apart]
    simp
  | stopAll => cases goes
  | state there =>
    simp only [instant]
    split <;> rfl
  | derive name source timeout =>
    simp only [instant]
    cases found : s.scopeNamed? source with
    | none => rfl
    | some p =>
      obtain ⟨parent, s₁⟩ := p
      obtain ⟨_, rfl⟩ := scopeNamed_withScopes found
      rfl
  | scopeState under | cancel under =>
    simp only [instant]
    cases found : s.scope? under with
    | none => rfl
    | some p =>
      obtain ⟨id, s₁⟩ := p
      obtain ⟨_, rfl⟩ := scope_withScopes found
      rfl
  | abort name =>
    simp only [instant]
    split
    · rw [(Machine.abort_loops _ _).1]
    · rfl
    · rfl
  | _ => rfl

/-- **A command that does not stop a loop leaves it alone**, until its job takes a step. -/
theorem begin_loops {c : Command} (goes : c.stops slot = false) :
    (s.begin c).machine.world.loops[slot]? = s.machine.world.loops[slot]? := by
  unfold begin
  cases is : s.job? c with
  | none => exact instant_loops goes
  | some p =>
    obtain ⟨job, s'⟩ := p
    obtain ⟨scopes, rfl⟩ := job_withScopes is
    rfl

theorem setAside_loops (name : String) {c : Command} (goes : c.stops slot = false) :
    (s.setAside name c).2.machine.world.loops[slot]? = s.machine.world.loops[slot]? := by
  unfold setAside
  cases is : s.job? c with
  | none => exact instant_loops goes
  | some p =>
    obtain ⟨job, s'⟩ := p
    obtain ⟨scopes, rfl⟩ := job_withScopes is
    rfl

end Session

end Scenario

/-! ## Steps of jobs -/

namespace World

variable {w w' : World} {e : Option LoopEvent} {spawned : Spawned} {slot : Nat} {l : Loop}

/-- **A loop that runs keeps its scope** in a step, whatever the step does. -/
theorem LoopChange.scope_of_runs (change : w.LoopChange e spawned w')
    (loop : w.loops[slot]? = some (some l)) (runs : w.cause? l.scope = none) :
    ∃ l', w'.loops[slot]? = some (some l') ∧ l'.scope = l.scope := by
  have there : slot < w.loops.length := (List.getElem?_eq_some_iff.mp loop).1
  have same {other : Nat} {c : Cache} {l₁ l₂ : Loop} (cached : w.cache? other = some c)
      (own : c.loop = some l₁) (loops : w'.loops = w.loops.set other (some l₂))
      (kept : l₂.scope = l₁.scope) :
      ∃ l', w'.loops[slot]? = some (some l') ∧ l'.scope = l.scope := by
    by_cases here : other = slot
    · subst here
      rw [loops_at cached, own] at loop
      cases loop
      exact ⟨l₂, by rw [loops, List.getElem?_set_self there], kept⟩
    · exact ⟨l, by rw [loops, List.getElem?_set_ne here, loop], rfl⟩
  cases change with
  | unseen _ loops => exact ⟨l, loops ▸ loop, rfl⟩
  | ticked cached own _ _ _ loops => exact same cached own loops rfl
  | reset cached own _ loops => exact same cached own loops rfl
  | @setOff other c _ _ _ _ _ _ cached idle _ loops =>
    have here : other ≠ slot := by
      rintro rfl
      rw [loops_at cached, Option.some.injEq] at loop
      exact idle l loop runs
    exact ⟨l, by rw [loops, List.getElem?_set_ne here, loop], rfl⟩

/-- **A start that is over leaves a loop running** if its scope is live, and one that comes from its
own scope if none was running before. -/
theorem LoopChange.runs_of_seenTo {scope : ScopeId} (knows : w.KnowsLoops)
    (change : w.LoopChange (some (.seenTo slot scope)) spawned w') (later : w.Later w')
    (known : scope < w.scopes.next) (live : w.cause? scope = none) :
    ∃ l', w'.loops[slot]? = some (some l') ∧ w'.cause? l'.scope = none ∧
      ((∀ l, w.loops[slot]? = some (some l) → w.cause? l.scope ≠ none) →
        w'.scopes.parent? l'.scope = some scope) := by
  have there {c : Cache} (cached : w.cache? slot = some c) : slot < w.loops.length :=
    (List.getElem?_eq_some_iff.mp (loops_at cached)).1
  cases change with
  | @reset _ c l _ _ cached loop runs loops =>
    have here := (loops_at cached).trans (congrArg some loop)
    refine ⟨_, by rw [loops, List.getElem?_set_self (there cached)], ?_, ?_⟩
    · exact (later.cause? (knows slot l here)).trans runs
    · exact fun ended => absurd runs (ended l here)
  | @setOff _ c _ own _ _ new number cached idle scopes loops =>
    have grown : scope < (⟨w.scopes.nodes ++ new⟩ : Scopes).next := by
      simp only [Scopes.next, List.length_append]
      exact Nat.lt_add_right _ known
    have tied : w'.scopes.Tied scope own := by
      rw [scopes, number]
      exact .withCancel grown
    refine ⟨_, by rw [loops, List.getElem?_set_self (there cached)], ?_, fun _ => tied.comes⟩
    exact (tied.cause? w'.now).trans ((later.cause? known).trans live)

end World

namespace Scenario.Session

variable {known : Check → Prop} {s : Session} {held : List ScopeId} {slot : Nat}
  {scope own : ScopeId}

/-- **A loop goes on while the scope that it comes from is live**, whatever happens but that it is
stopped. -/
theorem moves_runs (within : s.Within known held) (sheltered : s.machine.Sheltered held)
    (looped : s.machine.Looped held) {l : Loop}
    (loop : s.machine.world.loops[slot]? = some (some l))
    (comes : s.machine.world.scopes.parent? l.scope = some scope) (run : List Move)
    (goes : ∀ next ∈ run, next.stops slot = false)
    (live : (s.moves run).machine.world.cause? scope = none) :
    (s.moves run).machine.runs slot = true := by
  induction run generalizing s held l with
  | nil =>
    have tied := looped.tied_of loop comes
    exact Machine.runs_iff.mpr ⟨l, loop, (tied.cause? _).trans live⟩
  | cons next rest ih =>
    have tied := looped.tied_of loop comes
    have old := Nat.lt_trans tied.earlier tied.lt_next
    have runs := (tied.cause? _).trans (live_of_moves within (next :: rest) old live)
    obtain ⟨held', within', sheltered', looped'⟩ := move_looped within sheltered looped next
    have keeps : ∃ l', (s.move next).machine.world.loops[slot]? = some (some l') ∧
        l'.scope = l.scope := by
      have goes := goes next List.mem_cons_self
      cases next with
      | begin c => exact ⟨l, (begin_loops goes).trans loop, rfl⟩
      | aside name c => exact ⟨l, (setAside_loops name goes).trans loop, rfl⟩
      | pass | grace => exact ⟨l, loop, rfl⟩
      | turn i =>
        obtain ⟨spawned, -, change⟩ := Machine.takeTurn_change looped.knows i
        exact change.scope_of_runs loop runs
    obtain ⟨l', loop', same⟩ := keeps
    have comes' : (s.move next).machine.world.scopes.parent? l'.scope = some scope := by
      rw [same, (move_after within next).comes _ tied.lt_next]
      exact comes
    exact ih within' sheltered' looped' loop' comes'
      (fun later mem => goes later (List.mem_cons_of_mem _ mem)) live

open CheckTree (ofBlueprint?)

/-- **In every state a loop runs exactly while the scope of the start that set it off is live.** -/
theorem runs_iff_parent_live {b : Blueprint} {t : CheckTree} (built : ofBlueprint? b = some t)
    (before : List Event) (run : List Move) (slot : Nat) :
    let m := ((ofTree (some t) before).moves run).machine
    m.runs slot = true ↔
      ∃ parent, m.world.loopParent? slot = some parent ∧ m.world.cause? parent = none := by
  intro m
  obtain ⟨held, -, -, looped⟩ := looped_of_moves built before run
  rw [Machine.runs_iff]
  constructor
  · rintro ⟨l, loop, runs⟩
    obtain ⟨parent, tied⟩ := looped.tied slot l loop
    exact ⟨parent, World.loopParent?_eq_some.mpr ⟨l, loop, tied.comes⟩,
      (tied.cause? _).symm.trans runs⟩
  · rintro ⟨parent, comes, live⟩
    obtain ⟨l, loop, comes⟩ := World.loopParent?_eq_some.mp comes
    exact ⟨l, loop, ((looped.tied_of loop comes).cause? _).trans live⟩

/-- **What a start comes to for the loop**, once it is over with its scope live: the loop runs, and
from then on it runs until one scope ends or the loop is stopped. That is the scope of this start,
unless the loop was running before. Then it is the one that the loop came from already. -/
theorem runs_until_scope_ends {b : Blueprint} {t : CheckTree} (built : ofBlueprint? b = some t)
    (before : List Event) (run : List Move) {i slot : Nat} {scope : ScopeId}
    (seen : ((ofTree (some t) before).moves run).loopEvent? (.turn i) =
      some (.seenTo slot scope)) :
    let s := (ofTree (some t) before).moves run
    let s' := s.move (.turn i)
    s'.machine.world.cause? scope = none →
      s'.machine.runs slot = true ∧
      ∃ parent, s'.machine.world.loopParent? slot = some parent ∧
        (if s.machine.runs slot then s.machine.world.loopParent? slot = some parent
          else parent = scope) ∧
        ∀ later : List Move, (∀ next ∈ later, next.stops slot = false) →
          (s'.moves later).machine.world.cause? parent = none →
          (s'.moves later).machine.runs slot = true := by
  intro s s' live
  obtain ⟨held, within, sheltered, looped⟩ := looped_of_moves built before run
  have known := sheltered.seenTo seen
  have later := s.machine.takeTurn_later i
  obtain ⟨spawned, -, change⟩ := Machine.takeTurn_change looped.knows i
  have event : s.machine.loopEvent? i = some (.seenTo slot scope) := seen
  rw [event] at change
  obtain ⟨l', loop', runs', own⟩ :=
    change.runs_of_seenTo looped.knows later known ((later.cause? known).symm.trans live)
  obtain ⟨held', within', sheltered', looped'⟩ := looped_of_moves built before (run ++ [.turn i])
  rw [moves_append] at within' sheltered' looped'
  obtain ⟨parent, tied⟩ := looped'.tied slot l' loop'
  refine ⟨Machine.runs_iff.mpr ⟨l', loop', runs'⟩, parent,
    World.loopParent?_eq_some.mpr ⟨l', loop', tied.comes⟩, ?_,
    fun later goes live => moves_runs within' sheltered' looped' loop' tied.comes later goes live⟩
  cases ran : s.machine.runs slot with
  | false =>
    have idle (l : Loop) (loop : s.machine.world.loops[slot]? = some (some l))
        (runs : s.machine.world.cause? l.scope = none) : False := by
      rw [Machine.runs_iff.mpr ⟨l, loop, runs⟩] at ran
      cases ran
    exact Option.some.inj (tied.comes.symm.trans (own idle))
  | true =>
    obtain ⟨l, loop, runs⟩ := Machine.runs_iff.mp ran
    obtain ⟨l'', loop'', same⟩ := change.scope_of_runs loop runs
    cases loop'.symm.trans loop''
    refine World.loopParent?_eq_some.mpr ⟨l, loop, ?_⟩
    have old := looped.knows slot l loop
    rw [← tied.comes, same]
    exact ((World.After.of_later later).comes _ old).symm

/-- Two starts under scopes of their own, the first over before the second: the second resets the
timer of the loop, which goes on while the scope of the first is live. -/
theorem goes_on_with_first_start :
    let b : Blueprint := .cached 100 (.fixed "a" .healthy "")
    let starts : List Move := [.begin (.derive "first" none none),
      .begin (.derive "second" none none), .begin (.start 0 ⟨some "first", none⟩), .turn 0,
      .begin (.start 0 ⟨some "second", none⟩)]
    ∃ t, ofBlueprint? b = some t ∧
      let s := (ofTree (some t) []).moves starts
      let s' := s.move (.turn 1)
      s.loopEvent? (.turn 1) = some (.seenTo 0 4) ∧ s'.machine.world.cause? 4 = none ∧
      s'.scopes.lookup "first" = some 2 ∧ s'.machine.world.loopParent? 0 = some 2 ∧
      ∀ later : List Move, (∀ next ∈ later, next.stops 0 = false) →
        (s'.moves later).machine.world.cause? 2 = none → (s'.moves later).machine.runs 0 = true := by
  intro b starts
  refine ⟨_, rfl, rfl, rfl, rfl, rfl, fun later goes live => ?_⟩
  obtain ⟨-, parent, comes, -, runs⟩ :=
    @runs_until_scope_ends b _ rfl [] starts 1 0 4 rfl rfl
  cases comes
  exact runs later goes live

/-- **A loop may end with its first start**: the second start is over with its scope live, nobody
stops the loop, and yet it ends when the scope of the first start is cancelled. -/
theorem ends_with_first_start :
    let b : Blueprint := .cached 100 (.fixed "a" .healthy "")
    let starts : List Move := [.begin (.derive "first" none none),
      .begin (.derive "second" none none), .begin (.start 0 ⟨some "first", none⟩), .turn 0,
      .begin (.start 0 ⟨some "second", none⟩)]
    ∃ t, ofBlueprint? b = some t ∧
      let s := (ofTree (some t) []).moves starts
      let s' := s.move (.turn 1)
      let cancelled : Move := .begin (.cancel ⟨some "first", none⟩)
      s.loopEvent? (.turn 1) = some (.seenTo 0 4) ∧ s'.machine.runs 0 = true ∧
        cancelled.stops 0 = false ∧ (s'.move cancelled).machine.world.cause? 4 = none ∧
        (s'.move cancelled).machine.runs 0 = false :=
  ⟨_, rfl, rfl, rfl, rfl, rfl, rfl⟩

end Scenario.Session

end HealthTree
