import HealthTree.Proofs.Lifetimes

/-!
# Refresh loops

A step of a job does something to the loop of a cache in two cases only (`Job.loopEvent?`): a start
is over and sees to the loop, or the loop ticks. What each of them does is told by
`World.LoopChange`: a loop that runs has its timer reset, else a new one is set off under a scope
that comes from the scope of the start; a tick puts off the next one.
-/

namespace HealthTree

/-- What happens to the loop of a cache. -/
inductive LoopEvent where
  /-- A start under this scope is over, and has seen to the loop. -/
  | seenTo (slot : Nat) (scope : ScopeId)
  /-- The loop ticks. -/
  | tick (slot : Nat)
  deriving DecidableEq, Repr

/-- A refresh that is concluded sees to the loop if that is what it was for. -/
def Purpose.event? (slot : Nat) (scope : ScopeId) : Purpose → Option LoopEvent
  | .start _ => some (.seenTo slot scope)
  | .force | .tick => none

/-- **What a step of a job does to the loop of a cache**, if it does anything. -/
def Job.loopEvent? (id : JobId) (w : World) : Job → Option LoopEvent
  | refresh slot scope purpose phase =>
    (w.cache? slot).bind fun c =>
      match w.attempt id slot c scope phase with
      | .refused _ _ => purpose.event? slot scope
      | .waits _ => none
      | .calls limit flight w =>
        (w.callInner limit flight).1.outcome?.bind fun _ => purpose.event? slot scope
  | loop slot scope =>
    (w.cache? slot).bind fun c =>
      if (w.cause? scope).isNone && c.loop.any (fun l => l.scope == scope && l.nextTick ≤ w.now)
      then some (.tick slot)
      else none
  | call _ _ _ | work _ _ | watch _ _ | sleep _ => none

/-- The loop that a step sets off: its cache, and its scope. -/
def Spawned.loop? : Spawned → Option (Nat × ScopeId)
  | some (_, .loop slot own) => some (slot, own)
  | _ => none

namespace World

/-- **What a step does to loops**: the job that it sets off, and the world that it leaves. -/
inductive LoopChange (w : World) : Option LoopEvent → Spawned → World → Prop
  | unseen {spawned : Spawned} {w' : World} (quiet : spawned.loop? = none)
      (loops : w'.loops = w.loops) : LoopChange w none spawned w'
  /-- A loop that runs takes a tick that is due, and the next is one interval later. -/
  | ticked {slot : Nat} {c : Cache} {l : Loop} {spawned : Spawned} {w' : World}
      (cached : w.cache? slot = some c) (loop : c.loop = some l) (live : w.cause? l.scope = none)
      (due : l.nextTick ≤ w.now) (quiet : spawned.loop? = none)
      (loops : w'.loops = w.loops.set slot (some ⟨l.scope, l.nextTick + c.interval⟩)) :
      LoopChange w (some (.tick slot)) spawned w'
  /-- A loop that runs has its timer reset. -/
  | reset {slot : Nat} {c : Cache} {l : Loop} {scope : ScopeId} {w' : World}
      (cached : w.cache? slot = some c) (loop : c.loop = some l) (live : w.cause? l.scope = none)
      (loops : w'.loops = w.loops.set slot (some ⟨l.scope, w.now + c.interval⟩)) :
      LoopChange w (some (.seenTo slot scope)) none w'
  /-- Where none runs a loop is set off, under a scope that comes from that of the start. -/
  | setOff {slot : Nat} {c : Cache} {scope own : ScopeId} {id : JobId} {w' : World}
      (new : List ScopeNode) (number : own = (w.scopes.nodes ++ new).length)
      (cached : w.cache? slot = some c) (idle : ∀ l, c.loop = some l → w.cause? l.scope ≠ none)
      (scopes : w'.scopes = (Scopes.withCancel ⟨w.scopes.nodes ++ new⟩ scope).2)
      (loops : w'.loops = w.loops.set slot (some ⟨own, w.now + c.interval⟩)) :
      LoopChange w (some (.seenTo slot scope)) (some (id, .loop slot own)) w'

/-- The scopes of loops are scopes that there are. -/
def KnowsLoops (w : World) : Prop :=
  ∀ (slot : Nat) (l : Loop), w.loops[slot]? = some (some l) → l.scope < w.scopes.next

variable {w w₁ : World} {slot : Nat} {c : Cache} {scope limit : ScopeId} {purpose : Purpose}

/-- A change of the loop of one cache. -/
theorem loops_modifyCache_set (cached : w.cache? slot = some c) (f : Cache → Cache) :
    (w.modifyCache slot f).loops = w.loops.set slot (f c).loop := by
  refine List.ext_getElem? fun i => ?_
  simp only [loops, modifyCache, List.getElem?_map, List.getElem?_modify, List.getElem?_set]
  by_cases here : slot = i
  · subst here
    obtain ⟨lt, rfl⟩ := List.getElem?_eq_some_iff.mp cached
    simp [lt]
  · simp [here]

/-- A cache goes on to be made of what it was made of. -/
theorem cache?_of_makes (same : w₁.makes = w.makes) (cached : w.cache? slot = some c) :
    ∃ c₁, w₁.cache? slot = some c₁ ∧ c₁.make = c.make := by
  have make : w₁.makes[slot]? = w.makes[slot]? := by rw [same]
  have there : w.caches[slot]? = some c := cached
  simp only [World.makes, List.getElem?_map, there, Option.map_some] at make
  exact Option.map_eq_some_iff.mp make

/-- With its loop as it was, if all loops are. -/
theorem Later.cache? (later : w.Later w₁) (same : w₁.loops = w.loops)
    (cached : w.cache? slot = some c) :
    ∃ c₁, w₁.cache? slot = some c₁ ∧ c₁.interval = c.interval ∧ c₁.loop = c.loop := by
  obtain ⟨c₁, cached₁, make⟩ := cache?_of_makes later.makes cached
  have loop : w₁.loops[slot]? = w.loops[slot]? := by rw [same]
  rw [loops_at cached₁, loops_at cached] at loop
  exact ⟨c₁, cached₁, congrArg Prod.snd make, Option.some.inj loop⟩

theorem ensureLoop_change (knows : w.KnowsLoops) (cached : w.cache? slot = some c)
    (later : w.Later w₁) (same : w₁.loops = w.loops) :
    w.LoopChange (some (.seenTo slot scope)) (w₁.ensureLoop slot c scope).1
      (w₁.ensureLoop slot c scope).2 := by
  obtain ⟨c₁, cached₁, interval, loop₁⟩ := later.cache? same cached
  have causes (l : Loop) (loop : c.loop = some l) : w₁.cause? l.scope = w.cause? l.scope :=
    later.cause? (knows slot l (by rw [loops_at cached, loop]))
  unfold ensureLoop
  cases runs : w₁.loopRuns c with
  | true =>
    obtain ⟨l, loop, live⟩ := (Option.any_eq_true _ _).mp runs
    refine .reset cached loop ((causes l loop).symm.trans (by simpa using live)) ?_
    refine (loops_modifyCache_set cached₁ _).trans ?_
    simp only [loop₁, loop, interval, same, later.now, Option.map_some]
  | false =>
    obtain ⟨new, nodes⟩ := later.scopes
    have scopes : w₁.scopes = ⟨w.scopes.nodes ++ new⟩ := by rw [← nodes]
    refine .setOff new (congrArg List.length nodes) cached ?_ (scopes ▸ rfl) ?_
    · intro l loop live
      simp [loopRuns, loop, causes l loop, live] at runs
    · refine (loops_modifyCache_set cached₁ _).trans ?_
      simp only [interval, same, later.now]

/-- **A refresh that is concluded** does to the loop what it was for. -/
theorem conclude_change {fault : Option Fault} (knows : w.KnowsLoops)
    (cached : w.cache? slot = some c) (later : w.Later w₁) (same : w₁.loops = w.loops) :
    w.LoopChange (purpose.event? slot scope) (w₁.conclude slot c scope fault purpose).2.1
      (w₁.conclude slot c scope fault purpose).2.2 := by
  cases purpose with
  | force | tick => exact .unseen rfl same
  | start rest =>
    exact ensureLoop_change knows cached (later.trans (Aside.tell w₁ _).toLater) same

@[simp] theorem loops_unlock (w : World) (slot : Nat) : (w.unlock slot).loops = w.loops :=
  loops_modifyCache_same w slot fun _ => rfl

@[simp] theorem loops_commit (w : World) (slot : Nat) (c : Cache) (o : Outcome) :
    (w.commit slot c o).loops = w.loops :=
  loops_modifyCache_same _ slot fun _ => rfl

theorem refreshTurn_change {t : Turn} (knows : w.KnowsLoops) (cached : w.cache? slot = some c)
    (later : w.Later w₁) (same : w₁.loops = w.loops) :
    w.LoopChange (t.outcome?.bind fun _ => purpose.event? slot scope)
      (w₁.refreshTurn slot c scope purpose limit t).2.1
      (w₁.refreshTurn slot c scope purpose limit t).2.2 := by
  cases t with
  | still flight => exact .unseen rfl same
  | panicked => exact .unseen rfl ((loops_unlock w₁ slot).trans same)
  | done o =>
    simp only [refreshTurn, finishRefresh]
    cases w₁.cause? scope with
    | some cause =>
      refine conclude_change knows cached (later.trans ?_) ((loops_unlock ..).trans same)
      exact ((Aside.tell w₁ _).trans (.unlock _ slot)).toLater
    | none =>
      refine conclude_change knows cached (later.trans ?_)
        (((loops_unlock ..).trans (loops_commit ..)).trans same)
      exact ((Aside.commit w₁ slot c o).trans (.unlock _ slot)).toLater

theorem stepLoop_change (cached : w.cache? slot = some c) :
    w.LoopChange (if (w.cause? scope).isNone && c.loop.any (fun l => l.scope == scope &&
        l.nextTick ≤ w.now) then some (.tick slot) else none)
      (w.stepLoop slot c scope).2.1 (w.stepLoop slot c scope).2.2 := by
  have ticked : (w.ticked slot).loops = w.loops.set slot _ := loops_modifyCache_set cached _
  have takes {spawned : Spawned} {w' : World} (live : w.cause? scope = none)
      (due : (c.loop.any fun l => l.scope == scope && l.nextTick ≤ w.now) = true)
      (quiet : spawned.loop? = none) (loops : w'.loops = (w.ticked slot).loops) :
      w.LoopChange (some (.tick slot)) spawned w' := by
    obtain ⟨l, loop, own⟩ := (Option.any_eq_true _ _).mp due
    simp only [Bool.and_eq_true, beq_iff_eq, decide_eq_true_eq] at own
    obtain ⟨rfl, passed⟩ := own
    rw [loop] at ticked
    exact .ticked cached loop live passed quiet (loops.trans ticked)
  have cases := w.stepLoop_cases slot c scope
  generalize w.stepLoop slot c scope = r at cases ⊢
  cases cases with
  | stops cause ended | skipsLast cause ended =>
    rw [ended]
    exact .unseen rfl rfl
  | ticksLast cause ended =>
    rw [ended]
    exact .unseen rfl (loops_modifyCache_same _ slot fun _ => rfl)
  | rests live early =>
    rw [live, Bool.not_eq_true _ |>.mp early]
    exact .unseen rfl rfl
  | ticks live due idle =>
    rw [live, due]
    exact takes live due rfl (loops_modifyCache_same _ slot fun _ => rfl)
  | skips live due busy =>
    rw [live, due]
    exact takes live due rfl rfl

end World

/-- **What a step of a job does to loops.** -/
theorem Job.step_loopChange {id : JobId} {w : World} (job : Job) (knows : w.KnowsLoops) :
    w.LoopChange (job.loopEvent? id w) (job.step id w).2.1 (job.step id w).2.2 := by
  cases job with
  | call name scope flight => exact .unseen rfl (by simp [Job.step, World.loops])
  | refresh slot scope purpose phase =>
    simp only [Job.step, loopEvent?]
    cases cached : w.cache? slot with
    | none => exact .unseen rfl rfl
    | some c =>
      have later := (w.attempt_aside id slot c scope phase).toLater
      have same := w.attempt_loops id slot c scope phase
      simp only [World.stepRefresh_eq, Option.bind_some]
      cases attempted : w.attempt id slot c scope phase with
      | refused cause w₁ =>
        rw [attempted] at later same
        exact World.conclude_change knows cached later same
      | waits w₁ =>
        rw [attempted] at same
        exact .unseen rfl same
      | calls limit flight w₁ =>
        rw [attempted] at later same
        simp only [World.goOnRefresh_eq]
        refine World.refreshTurn_change knows cached
          (later.trans (w₁.callInner_later limit flight)) (Eq.trans ?_ same)
        rw [World.loops, World.callInner_caches]
        rfl
  | loop slot scope =>
    simp only [Job.step, loopEvent?]
    cases cached : w.cache? slot with
    | none => exact .unseen rfl rfl
    | some c => exact World.stepLoop_change cached
  | work | watch | sleep => exact .unseen rfl rfl

/-- A start sees to a loop under the scope that it runs under. -/
theorem Job.scope?_of_seenTo {id : JobId} {w : World} {job : Job} {slot : Nat} {scope : ScopeId}
    (event : job.loopEvent? id w = some (.seenTo slot scope)) : job.scope? = some scope := by
  have concluded {there : Nat} {own : ScopeId} {purpose : Purpose}
      (event : purpose.event? there own = some (.seenTo slot scope)) : own = scope := by
    cases purpose <;> cases event
    rfl
  cases job with
  | refresh there own purpose phase =>
    obtain ⟨c, -, event⟩ := Option.bind_eq_some_iff.mp event
    split at event
    · exact congrArg some (concluded event)
    · cases event
    · obtain ⟨_, -, event⟩ := Option.bind_eq_some_iff.mp event
      exact congrArg some (concluded event)
  | loop there own =>
    obtain ⟨c, -, event⟩ := Option.bind_eq_some_iff.mp event
    split at event <;> cases event
  | _ => cases event

/-- Only a loop ticks, while it is live and its tick is due. -/
theorem Job.loop_of_tick {id : JobId} {w : World} {job : Job} {slot : Nat}
    (event : job.loopEvent? id w = some (.tick slot)) :
    ∃ own c, job = .loop slot own ∧ w.cache? slot = some c ∧ w.cause? own = none ∧
      (c.loop.any fun l => l.scope == own && l.nextTick ≤ w.now) = true := by
  have concluded {there : Nat} {own : ScopeId} {purpose : Purpose} :
      purpose.event? there own ≠ some (.tick slot) := by
    cases purpose <;> nofun
  cases job with
  | refresh there own purpose phase =>
    obtain ⟨c, -, event⟩ := Option.bind_eq_some_iff.mp event
    split at event
    · exact absurd event concluded
    · cases event
    · obtain ⟨_, -, event⟩ := Option.bind_eq_some_iff.mp event
      exact absurd event concluded
  | loop there own =>
    obtain ⟨c, cached, event⟩ := Option.bind_eq_some_iff.mp event
    split at event
    · rename_i due
      cases event
      rw [Bool.and_eq_true, Option.isNone_iff_eq_none] at due
      exact ⟨own, c, rfl, cached, due.1, due.2⟩
    · cases event
  | _ => cases event

/-- Where the loop of one cache is written, that of any other is as it was. -/
theorem World.loop_of_set {w w' : World} {slot other : Nat} {l new : Loop}
    (loops : w'.loops = w.loops.set other (some new)) (loop : w'.loops[slot]? = some (some l)) :
    other = slot ∧ l = new ∨ other ≠ slot ∧ w.loops[slot]? = some (some l) := by
  rw [loops, List.getElem?_set] at loop
  split at loop
  · rename_i here
    split at loop <;> cases loop
    exact .inl ⟨here, rfl⟩
  · rename_i apart
    exact .inr ⟨apart, loop⟩

namespace World.LoopChange

variable {w w' : World} {e : Option LoopEvent} {spawned : Spawned} {slot : Nat} {l' : Loop}
  {own : ScopeId}

/-- **A loop that there is after a step** was there before it, or the step has set it off. -/
theorem loop_before (change : w.LoopChange e spawned w')
    (loop : w'.loops[slot]? = some (some l')) :
    (∃ l, w.loops[slot]? = some (some l) ∧ l.scope = l'.scope) ∨
      spawned.loop? = some (slot, l'.scope) := by
  cases change with
  | unseen _ loops => exact .inl ⟨l', loops ▸ loop, rfl⟩
  | ticked cached own _ _ _ loops | reset cached own _ loops =>
    rcases loop_of_set loops loop with ⟨rfl, rfl⟩ | ⟨-, old⟩
    · exact .inl ⟨_, (loops_at cached).trans (congrArg some own), rfl⟩
    · exact .inl ⟨l', old, rfl⟩
  | setOff new number cached idle scopes loops =>
    rcases loop_of_set loops loop with ⟨rfl, rfl⟩ | ⟨-, old⟩
    · exact .inr rfl
    · exact .inl ⟨l', old, rfl⟩

/-- **A loop is set off where none runs**, by a start that is over, and under a new scope that comes
from that of the start. -/
theorem of_setOff (change : w.LoopChange e spawned w')
    (setOff : spawned.loop? = some (slot, own)) :
    w.scopes.next ≤ own ∧ own < w'.scopes.next ∧
      (∃ l', w'.loops[slot]? = some (some l') ∧ l'.scope = own) ∧
      (∀ l, w.loops[slot]? = some (some l) → w.cause? l.scope ≠ none) ∧
      ∃ scope, e = some (.seenTo slot scope) ∧
        (scope < w.scopes.next → w'.scopes.Tied scope own) := by
  cases change with
  | unseen quiet | ticked _ _ _ _ quiet => cases quiet.symm.trans setOff
  | reset => cases setOff
  | @setOff _ c scope _ id _ new number cached idle scopes loops =>
    cases setOff
    have grown : w.scopes.next ≤ (⟨w.scopes.nodes ++ new⟩ : Scopes).next := by
      simp only [Scopes.next, List.length_append]
      exact Nat.le_add_right _ _
    have there : slot < w.loops.length := (List.getElem?_eq_some_iff.mp (loops_at cached)).1
    refine ⟨number ▸ grown, ?_, ⟨_, by rw [loops, List.getElem?_set_self there], rfl⟩, ?_,
      scope, rfl, fun known => ?_⟩
    · rw [scopes, number]
      simp [Scopes.withCancel, Scopes.derive, Scopes.next]
    · intro l loop
      rw [loops_at cached, Option.some.injEq] at loop
      exact idle l loop
    · rw [scopes, number]
      exact .withCancel (Nat.lt_of_lt_of_le known grown)

end World.LoopChange

/-! ## Loops in every state of every run -/

namespace World

/-- **Every loop runs under a scope of its own**: it comes from another scope and ends with it, it
was not handed out, and no two caches share one. -/
structure Looped (w : World) (held : List ScopeId) : Prop where
  tied : ∀ (slot : Nat) (l : Loop), w.loops[slot]? = some (some l) →
    ∃ scope, w.scopes.Tied scope l.scope
  hidden : ∀ (slot : Nat) (l : Loop), w.loops[slot]? = some (some l) → l.scope ∉ held
  apart : ∀ (slot other : Nat) (l l' : Loop), w.loops[slot]? = some (some l) →
    w.loops[other]? = some (some l') → l.scope = l'.scope → slot = other

namespace Looped

variable {w w' : World} {held held' : List ScopeId}

theorem knows (looped : w.Looped held) : w.KnowsLoops := fun slot l found =>
  (looped.tied slot l found).choose_spec.lt_next

/-- A loop is tied to the scope that it comes from. -/
theorem tied_of (looped : w.Looped held) {slot : Nat} {l : Loop} {scope : ScopeId}
    (loop : w.loops[slot]? = some (some l)) (comes : w.scopes.parent? l.scope = some scope) :
    w.scopes.Tied scope l.scope := by
  obtain ⟨scope', tied⟩ := looped.tied slot l loop
  cases comes.symm.trans tied.comes
  exact tied

/-- Loops may be stopped and their timers set, scopes may be added, and those handed out be new. -/
theorem keep (looped : w.Looped held) (grows : ∃ new, w'.scopes.nodes = w.scopes.nodes ++ new)
    (fresh : ∀ id ∈ held', id ∈ held ∨ w.scopes.next ≤ id)
    (loops : ∀ (slot : Nat) (l' : Loop), w'.loops[slot]? = some (some l') →
      ∃ l, w.loops[slot]? = some (some l) ∧ l.scope = l'.scope) : w'.Looped held' := by
  obtain ⟨new, nodes⟩ := grows
  have scopes : w'.scopes = ⟨w.scopes.nodes ++ new⟩ := by rw [← nodes]
  refine ⟨fun slot l' found => ?_, fun slot l' found handed => ?_, ?_⟩
  · obtain ⟨l, found, same⟩ := loops slot l' found
    obtain ⟨scope, tied⟩ := looped.tied slot l found
    exact ⟨scope, scopes ▸ same ▸ tied.append new⟩
  · obtain ⟨l, found, same⟩ := loops slot l' found
    rcases fresh l'.scope handed with handed | ge
    · exact looped.hidden slot l found (same ▸ handed)
    · exact Nat.lt_irrefl _ (Nat.lt_of_lt_of_le (looped.knows slot l found) (same ▸ ge))
  · intro slot other l₁ l₂ found₁ found₂ same
    obtain ⟨l, found, same₁⟩ := loops slot l₁ found₁
    obtain ⟨l', found', same₂⟩ := loops other l₂ found₂
    exact looped.apart slot other l l' found found' (same₁.trans (same.trans same₂.symm))

/-- A scope may be cancelled that is not that of a loop. -/
theorem cancel (looped : w.Looped held) {target : ScopeId}
    (other : ∀ (slot : Nat) (l : Loop), w'.loops[slot]? = some (some l) → l.scope ≠ target)
    (loops : ∀ (slot : Nat) (l : Loop), w'.loops[slot]? = some (some l) →
      w.loops[slot]? = some (some l))
    (scopes : w'.scopes = w.scopes.cancel target) : w'.Looped held := by
  refine ⟨fun slot l found => ?_, fun slot l found => looped.hidden slot l (loops slot l found),
    fun slot other l l' found found' =>
      looped.apart slot other l l' (loops slot l found) (loops other l' found')⟩
  obtain ⟨scope, tied⟩ := looped.tied slot l (loops slot l found)
  exact ⟨scope, scopes ▸ tied.cancel (other slot l found)⟩

/-- **What a step does to loops leaves them so.** -/
theorem change (looped : w.Looped held) (handed : ∀ id ∈ held, id < w.scopes.next)
    {e : Option LoopEvent} {spawned : Spawned}
    (asked : ∀ slot scope, e = some (.seenTo slot scope) → scope < w.scopes.next)
    (later : w.Later w') (change : w.LoopChange e spawned w') : w'.Looped held := by
  -- the scope of a loop that is set off is newer than that of any loop before
  have newer {slot other : Nat} {l : Loop} {own : ScopeId}
      (loop : w.loops[slot]? = some (some l)) (setOff : spawned.loop? = some (other, own)) :
      l.scope < own :=
    Nat.lt_of_lt_of_le (looped.knows slot l loop) (change.of_setOff setOff).1
  refine ⟨fun slot l' loop => ?_, fun slot l' loop mem => ?_, ?_⟩
  · rcases change.loop_before loop with ⟨l, loop, same⟩ | setOff
    · obtain ⟨parent, tied⟩ := looped.tied slot l loop
      obtain ⟨added, nodes⟩ := later.scopes
      have scopes : w'.scopes = ⟨w.scopes.nodes ++ added⟩ := by rw [← nodes]
      exact ⟨parent, scopes ▸ same ▸ tied.append added⟩
    · obtain ⟨-, -, -, -, scope, event, tied⟩ := change.of_setOff setOff
      exact ⟨scope, tied (asked slot scope event)⟩
  · rcases change.loop_before loop with ⟨l, loop, same⟩ | setOff
    · exact looped.hidden slot l loop (same ▸ mem)
    · exact Nat.lt_irrefl _ (Nat.lt_of_lt_of_le (handed _ mem) (change.of_setOff setOff).1)
  · intro slot other l₁ l₂ loop₁ loop₂ same
    rcases change.loop_before loop₁ with ⟨l, old, same₁⟩ | setOff₁ <;>
      rcases change.loop_before loop₂ with ⟨l', old', same₂⟩ | setOff₂
    · exact looped.apart slot other l l' old old' (same₁.trans (same.trans same₂.symm))
    · exact absurd (same₁.trans same) (Nat.ne_of_lt (newer old setOff₂))
    · exact absurd (same₂.trans same.symm) (Nat.ne_of_lt (newer old' setOff₁))
    · exact congrArg Prod.fst (Option.some.inj (setOff₁.symm.trans setOff₂))

end Looped

end World

namespace Machine

/-- Every loop of a machine runs under a scope of its own. -/
abbrev Looped (m : Machine) (held : List ScopeId) : Prop :=
  m.world.Looped held

/-- What a step of the job at this place does to the loop of a cache. -/
def loopEvent? (m : Machine) (i : Nat) : Option LoopEvent :=
  (m.jobs[i]?).bind fun p => p.2.loopEvent? p.1 m.world

/-- The loop that a step of the job at this place sets off. -/
def loopSetOff? (m : Machine) (i : Nat) : Option (Nat × ScopeId) :=
  (m.jobs[i]?).bind fun p => (p.2.step p.1 m.world).2.1.loop?

variable {m : Machine} {held : List ScopeId}

theorem takeTurn_change (knows : m.world.KnowsLoops) (i : Nat) :
    ∃ spawned : Spawned, spawned.loop? = m.loopSetOff? i ∧
      m.world.LoopChange (m.loopEvent? i) spawned (m.takeTurn i).world := by
  unfold loopEvent? loopSetOff? Machine.takeTurn
  cases m.jobs[i]? with
  | none => exact ⟨none, rfl, .unseen rfl rfl⟩
  | some p => exact ⟨_, rfl, p.2.step_loopChange knows⟩

/-- A start sees to a loop under a scope that there is. -/
theorem Sheltered.seenTo (sheltered : m.Sheltered held) {i slot : Nat} {scope : ScopeId}
    (event : m.loopEvent? i = some (.seenTo slot scope)) : scope < m.world.scopes.next := by
  obtain ⟨p, found, event⟩ := Option.bind_eq_some_iff.mp event
  exact sheltered.scopes p (List.mem_of_getElem? found) scope (Job.scope?_of_seenTo event)

/-- **A step of a job keeps loops apart.** -/
theorem Looped.takeTurn (looped : m.Looped held) (sheltered : m.Sheltered held) (i : Nat) :
    (m.takeTurn i).Looped held := by
  obtain ⟨spawned, -, change⟩ := takeTurn_change looped.knows i
  exact looped.change (fun id handed => sheltered.opened id (.inl handed))
    (fun _ _ event => sheltered.seenTo event) (m.takeTurn_later i) change

/-- The loop of a cache that is stopped is gone, and those of the others stay. -/
theorem stop_loops (m : Machine) (slot : Nat) :
    (m.stop slot).world.loops = m.world.loops.modify slot fun _ => none := by
  unfold stop
  cases running : (m.world.cache? slot).bind (·.loop) with
  | some l => exact World.loops_modifyCache _ slot fun _ => rfl
  | none =>
    refine List.ext_getElem? fun i => ?_
    simp only [World.loops, List.getElem?_modify, List.getElem?_map]
    by_cases here : slot = i
    · subst here
      cases there : m.world.caches[slot]? with
      | none => rfl
      | some c =>
        have none : c.loop = none := by simpa [World.cache?, there] using running
        simp [none]
    · simp [here]

theorem Looped.stop (looped : m.Looped held) (slot : Nat) : (m.stop slot).Looped held := by
  have loops := m.stop_loops slot
  have others {other : Nat} {l : Loop} (found : (m.stop slot).world.loops[other]? = some (some l)) :
      other ≠ slot ∧ m.world.loops[other]? = some (some l) := by
    rw [loops, List.getElem?_modify] at found
    by_cases here : slot = other
    · simp [here] at found
    · exact ⟨Ne.symm here, by simpa [here] using found⟩
  cases running : (m.world.cache? slot).bind (·.loop) with
  | none =>
    have same : m.stop slot = m := by
      unfold Machine.stop
      rw [running]
    rw [same]
    exact looped
  | some l =>
    obtain ⟨c, cached, loop⟩ := Option.bind_eq_some_iff.mp running
    have here := (World.loops_at cached).trans (congrArg some loop)
    refine @World.Looped.cancel _ _ _ looped l.scope ?_ (fun _ _ found => (others found).2) ?_
    · intro other l' found same
      obtain ⟨apart, found⟩ := others found
      exact apart (looped.apart other slot l' l found here same)
    · unfold Machine.stop
      rw [running]
      rfl

/-- A job that is dropped leaves loops and scopes as they are. -/
theorem abort_loops (m : Machine) (id : JobId) :
    (m.abort id).world.loops = m.world.loops ∧ (m.abort id).world.scopes = m.world.scopes := by
  unfold Machine.abort
  cases m.jobs.lookup id with
  | none => exact ⟨rfl, rfl⟩
  | some job =>
    cases job with
    | refresh slot scope purpose phase =>
      cases phase with
      | arriving => exact ⟨rfl, rfl⟩
      | queued | granted | calling =>
        exact ⟨World.loops_modifyCache_same _ slot fun _ => rfl, rfl⟩
    | _ => exact ⟨rfl, rfl⟩

/-- **What a command changes keeps loops apart.** -/
theorem Looped.touch {known : Check → Prop} {p p' : Machine × List ScopeId}
    (looped : p.1.Looped p.2) (touch : Touch known p p') : p'.1.Looped p'.2 := by
  have next {held : List ScopeId} {next : ScopeId} :
      ∀ id ∈ next :: held, id ∈ held ∨ next ≤ id := by
    intro id mem
    rcases List.mem_cons.mp mem with rfl | mem
    · exact .inr (Nat.le_refl _)
    · exact .inl mem
  cases touch with
  | background m held =>
    exact looped.keep ⟨_, rfl⟩ next fun _ l found => ⟨l, found, rfl⟩
  | derive m deadline handed =>
    exact looped.keep ⟨_, rfl⟩ next fun _ l found => ⟨l, found, rfl⟩
  | @cancel m held scope handed =>
    refine World.Looped.cancel looped ?_ (fun _ _ found => found) rfl
    rintro slot l found rfl
    exact looped.hidden slot l found handed
  | stop m held slot => exact looped.stop slot
  | abort m held id =>
    obtain ⟨loops, scopes⟩ := m.abort_loops id
    exact looped.keep ⟨[], by rw [scopes, List.append_nil]⟩ (fun _ mem => .inl mem)
      fun _ l found => ⟨l, loops ▸ found, rfl⟩
  | submit | forget => exact ⟨looped.tied, looped.hidden, looped.apart⟩

end Machine

/-- A session begins without loops. -/
theorem CheckTree.Planned.no_loops {t : CheckTree} {plan : Plan} (planned : t.Planned plan)
    (before : List Event) (slot : Nat) (l : Loop) :
    (Scenario.Session.ofTree (some t) before).machine.world.loops[slot]? ≠ some (some l) := by
  intro found
  obtain ⟨c, there, loop⟩ := Option.map_eq_some_iff.mp (List.getElem?_map ▸ found)
  rw [planned.assembled.empty c (List.mem_of_getElem? there)] at loop
  cases loop

theorem CheckTree.Planned.looped {t : CheckTree} {plan : Plan} (planned : t.Planned plan)
    (before : List Event) (held : List ScopeId) :
    (Scenario.Session.ofTree (some t) before).machine.Looped held :=
  ⟨fun slot l found => absurd found (planned.no_loops before slot l),
    fun slot l found => absurd found (planned.no_loops before slot l),
    fun slot _ l _ found => absurd found (planned.no_loops before slot l)⟩

namespace Scenario.Session

/-- A move keeps loops apart, and limits sheltered. -/
theorem move_looped {known : Check → Prop} {s : Session} {held : List ScopeId}
    (within : s.Within known held) (sheltered : s.machine.Sheltered held)
    (looped : s.machine.Looped held) (next : Move) :
    ∃ held', (s.move next).Within known held' ∧ (s.move next).machine.Sheltered held' ∧
      (s.move next).machine.Looped held' :=
  move_keep (I := fun p => p.1.Sheltered p.2 ∧ p.1.Looped p.2)
    (fun touch kept => ⟨kept.1.touch touch, kept.2.touch touch⟩)
    (fun _ _ i kept => ⟨kept.1.takeTurn i, kept.2.takeTurn kept.1 i⟩)
    (fun _ _ _ _ kept => ⟨⟨kept.1.opened, kept.1.scopes, kept.1.limits⟩,
      ⟨kept.2.tied, kept.2.hidden, kept.2.apart⟩⟩) within ⟨sheltered, looped⟩ next

/-- So does a run. -/
theorem moves_looped {known : Check → Prop} {s : Session} {held : List ScopeId}
    (within : s.Within known held) (sheltered : s.machine.Sheltered held)
    (looped : s.machine.Looped held) (run : List Move) :
    ∃ held', (s.moves run).Within known held' ∧ (s.moves run).machine.Sheltered held' ∧
      (s.moves run).machine.Looped held' := by
  induction run generalizing s held with
  | nil => exact ⟨held, within, sheltered, looped⟩
  | cons next rest ih =>
    obtain ⟨held', within', sheltered', looped'⟩ := move_looped within sheltered looped next
    exact ih within' sheltered' looped'

open CheckTree (ofBlueprint?)

/-- **In every state of every run loops are kept apart**, and limits are sheltered. -/
theorem looped_of_moves {b : Blueprint} {t : CheckTree} (built : ofBlueprint? b = some t)
    (before : List Event) (run : List Move) :
    let s := (ofTree (some t) before).moves run
    ∃ held, s.Within (fun _ => True) held ∧ s.machine.Sheltered held ∧ s.machine.Looped held := by
  obtain ⟨plan, planned⟩ := CheckTree.planned_ofBlueprint built
  have within := planned.within before
  have named : (ofTree (some t) before).Within (fun _ => True)
      [(ofTree (some t) before).shutdown] :=
    ⟨within.shutdown, within.scopes, fun _ _ => trivial, fun _ _ _ => trivial, fun _ _ _ => trivial⟩
  exact moves_looped named (planned.sheltered before) (planned.looped before _) run

end Scenario.Session

end HealthTree
