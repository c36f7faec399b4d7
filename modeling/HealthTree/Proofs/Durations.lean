import HealthTree.Proofs.Occurrences
import HealthTree.Proofs.Punctual
import HealthTree.Proofs.Results

/-!
# How long a call takes

A probe takes a while to answer (`Probe.Takes`), and a call of a tree of groups takes as long as the
slowest of the probes it reaches (`Check.slowest`): the children of a group wait side by side, so
their delays combine by the maximum. `Flight.AnswersAt` says of a call under way at which instant it
answers if its scope lives that long. A step keeps that instant while the scope is live
(`step_answersAt`), and so does the passing of time that wakes no pause too late
(`AnswersAt.pass`). When the scope ends a group is over with its next step, whatever the probes below
it do.

**So a group answers at one instant and at no other** (`answers_with_slowest`): when the slowest probe
has, or when the scope ends if that comes first.
-/

namespace HealthTree

/-! ## Delays -/

/-- How long pauses take together, unless one of them never ends. -/
def totalPause : List Pause → Option Nat
  | [] => some 0
  | pause :: rest => return (← pause.length) + (← totalPause rest)

/-- **A probe takes this long** to answer, whichever of its acts is played. -/
def Probe.Takes (p : Probe) (delay : Nat) : Prop :=
  ∀ a ∈ p.first :: p.rest, totalPause a.pauses = some delay

instance (p : Probe) (delay : Nat) : Decidable (p.Takes delay) :=
  inferInstanceAs (Decidable (∀ a ∈ p.first :: p.rest, _))

/-- The longest of these probes' delays. -/
def slowestOf (delay : Probe → Nat) (os : List Occurrence) : Nat :=
  (os.map fun o => delay o.2).foldr max 0

/-- **The longest delay of the probes that a call of a check reaches.** -/
def Check.slowest (delay : Probe → Nat) (c : Check) : Nat :=
  slowestOf delay c.reached

variable {delay : Probe → Nat}

theorem totalPause_cons {pause : Pause} {rest : List Pause} {d : Nat}
    (takes : totalPause (pause :: rest) = some d) :
    ∃ k d', pause.length = some k ∧ totalPause rest = some d' ∧ d = k + d' := by
  obtain ⟨k, ends, takes⟩ := Option.bind_eq_some_iff.mp takes
  obtain ⟨d', others, takes⟩ := Option.bind_eq_some_iff.mp takes
  exact ⟨k, d', ends, others, (Option.some.inj takes).symm⟩

theorem slowestOf_append (os os' : List Occurrence) :
    slowestOf delay (os ++ os') = max (slowestOf delay os) (slowestOf delay os') := by
  induction os with
  | nil => exact (Nat.zero_max _).symm
  | cons o rest ih => exact (congrArg (max (delay o.2)) ih).trans (Nat.max_assoc ..).symm

theorem slowestOf_under (name : String) (os : List Occurrence) :
    slowestOf delay (os.map (.under name)) = slowestOf delay os := by
  unfold slowestOf
  rw [List.map_map]
  rfl

/-- The probes that are reached take as long as they are said to. -/
def AllTake (delay : Probe → Nat) (os : List Occurrence) : Prop :=
  ∀ o ∈ os, o.2.Takes (delay o.2)

instance (os : List Occurrence) : Decidable (AllTake delay os) :=
  inferInstanceAs (Decidable (∀ o ∈ os, _))

/-! ## Calls that pay no heed to their scope -/

/-- None of these pauses heeds the scope. -/
def heedless (pauses : List Pause) : Bool :=
  pauses.all fun pause => !pause.heeds

/-- **A call of the check pays no heed to its scope**: there is no group in it, and no pause of its
probe heeds the scope. -/
def Check.heedless : Check → Bool
  | fixed _ _ _ | cached _ _ _ => true
  | probe p => (p.first :: p.rest).all fun a => HealthTree.heedless a.pauses
  | group _ _ => false
  | debounced _ _ inner => inner.heedless

/-- So does one that is under way, from here on. -/
def Flight.heedless : Flight → Bool
  | fresh check => check.heedless
  | pausing _ _ heeds act => !heeds && HealthTree.heedless act.pauses
  | gathering _ _ _ _ => false
  | debouncing _ _ _ inner => inner.heedless

/-- What a step comes to pays no heed to the scope. -/
def Turn.heedless : Turn → Bool
  | .still flight => flight.heedless
  | .done _ | .panicked => true

theorem World.goOn_heedless (w : World) (p : Probe) (scope : ScopeId) (a : Answer)
    {pauses : List Pause} (free : heedless pauses = true) :
    (w.goOn p scope a pauses).1.heedless = true := by
  induction pauses with
  | nil =>
    cases a with
    | scope =>
      simp only [goOn, answer]
      split <;> rfl
    | outcome | tally | panic => rfl
  | cons pause rest ih =>
    obtain ⟨unheeding, others⟩ := Bool.and_eq_true_iff.mp free
    simp only [goOn]
    split
    · rfl
    · split
      · exact ih others
      · exact Bool.and_eq_true_iff.mpr ⟨unheeding, others⟩

theorem World.debounced_heedless (w : World) (slot : Nat) (budget : UInt32) (name : String)
    (t : Turn) :
    (w.debounced slot budget name t).1.heedless = t.heedless := by
  cases t <;> rfl

theorem Check.begin_heedless {c : Check} (free : c.heedless = true) (scope : ScopeId) (w : World) :
    (c.begin scope w).1.heedless = true := by
  cases c with
  | fixed => rfl
  | probe p =>
    exact World.goOn_heedless _ p scope _
      (List.all_eq_true.mp free _ (p.act_mem (w.callsOf p.id).started))
  | group => cases free
  | cached slot interval inner =>
    simp only [begin]
    cases w.cache? slot <;> rfl
  | debounced slot budget inner =>
    simp only [begin, World.debounced_heedless]
    exact begin_heedless (c := inner) free scope w

/-- **A call that pays no heed to its scope goes on as such.** -/
theorem Flight.step_heedless {f : Flight} (free : f.heedless = true) (scope : ScopeId) (w : World) :
    (f.step scope w).1.heedless = true := by
  cases f with
  | fresh check => exact check.begin_heedless free scope w
  | pausing p wake heeds act =>
    simp only [step]
    split
    · rfl
    · split
      · exact w.goOn_heedless p scope act.answer (Bool.and_eq_true_iff.mp free).2
      · exact free
  | gathering => cases free
  | debouncing slot budget name inner =>
    simp only [step, World.debounced_heedless]
    exact step_heedless (f := inner) free scope w

/-! ## The instant at which a call answers -/

namespace Flight

mutual
/-- **A call under way answers at the instant `e`** if its scope lives that long. -/
def AnswersAt (delay : Probe → Nat) (now : Nat) : Flight → Nat → Prop
  | fresh check, e => AllTake delay check.reached ∧ e = now + check.slowest delay
  | pausing _ wake _ act, e =>
    ∃ k d, wake = some k ∧ now ≤ k ∧ totalPause act.pauses = some d ∧ e = k + d
  | gathering _ _ _ waiting, e => AllAnswerAt delay now waiting e
  | debouncing _ _ _ inner, e => inner.AnswersAt delay now e
/-- The last of the children a group waits for answers at the instant `e`. -/
def AllAnswerAt (delay : Probe → Nat) (now : Nat) : List (String × Flight) → Nat → Prop
  | [], e => e = now
  | (_, flight) :: rest, e => ∃ first others,
    flight.AnswersAt delay now first ∧ AllAnswerAt delay now rest others ∧ e = max first others
end

mutual
/-- No call answers in the past. -/
theorem AnswersAt.le {f : Flight} {now e : Nat} (due : f.AnswersAt delay now e) : now ≤ e := by
  cases f with
  | fresh check => exact due.2 ▸ Nat.le_add_right _ _
  | pausing p wake heeds act =>
    obtain ⟨k, d, -, ahead, -, rfl⟩ := due
    exact Nat.le_add_right_of_le ahead
  | gathering name names g waiting =>
    have all : AllAnswerAt delay now waiting e := due
    exact all.le
  | debouncing slot budget name inner => exact AnswersAt.le (f := inner) due
theorem AllAnswerAt.le {waiting : List (String × Flight)} {now e : Nat}
    (due : AllAnswerAt delay now waiting e) : now ≤ e := by
  cases waiting with
  | nil => exact Nat.le_of_eq due.symm
  | cons child rest =>
    obtain ⟨first, others, -, rest, rfl⟩ := due
    exact Nat.le_trans rest.le (Nat.le_max_right ..)
end

end Flight

/-- What a call comes to at the instant `now` fits with an answer at `e`. -/
def Turn.AnswersAt (delay : Probe → Nat) (now : Nat) : Turn → Nat → Prop
  | .still flight, e => flight.AnswersAt delay now e
  | .done _, e | .panicked, e => e = now

namespace World

variable {w : World} {scope : ScopeId} {e : Nat}

/-- A probe goes on for as long as its pauses take, under a scope that is live or that it pays no
heed to. -/
theorem goOn_answersAt {pauses : List Pause}
    (free : w.cause? scope = none ∨ heedless pauses = true) (p : Probe) (a : Answer) {d : Nat}
    (takes : totalPause pauses = some d) :
    (w.goOn p scope a pauses).1.AnswersAt delay w.now (w.now + d) := by
  induction pauses generalizing d with
  | nil =>
    cases takes
    simp only [goOn, answer]
    cases a with
    | outcome | tally | panic => rfl
    | scope => cases (w.completeCall p.id).cause? scope <;> rfl
  | cons pause rest ih =>
    obtain ⟨k, d', ends, others, rfl⟩ := totalPause_cons takes
    obtain ⟨unheeded, free⟩ : (if pause.heeds then w.cause? scope else none) = none ∧
        (w.cause? scope = none ∨ heedless rest = true) := by
      rcases free with live | free
      · exact ⟨by rw [live, ite_self], .inl live⟩
      · obtain ⟨unheeding, free⟩ := Bool.and_eq_true_iff.mp free
        exact ⟨if_neg (by simpa using unheeding), .inr free⟩
    simp only [goOn, unheeded]
    split
    · next unwaited =>
      cases ends.symm.trans unwaited
      rw [Nat.zero_add]
      exact ih free others
    · refine ⟨w.now + k, d', ?_, Nat.le_add_right _ _, others, (Nat.add_assoc ..).symm⟩
      rw [ends]
      rfl

theorem debounced_answersAt {t : Turn} {now : Nat} (due : t.AnswersAt delay now e) (slot : Nat)
    (budget : UInt32) (name : String) : (w.debounced slot budget name t).1.AnswersAt delay now e := by
  cases t <;> exact due

end World

namespace Flight

variable {scope : ScopeId}

/-- Children that are set out answer when the slowest of them does. -/
theorem allAnswerAt_fresh (now : Nat) {children : List Check}
    (take : AllTake delay (reachedOf children)) :
    AllAnswerAt delay now (children.map fun c => (c.name, .fresh c))
      (now + slowestOf delay (reachedOf children)) := by
  induction children with
  | nil => rfl
  | cons c rest ih =>
    obtain ⟨first, others⟩ := List.forall_mem_append.mp take
    refine ⟨_, _, ⟨?_, rfl⟩, ih others, ?_⟩
    · intro o mem
      exact first (o.under c.name) (List.mem_map_of_mem mem)
    · rw [reachedOf, slowestOf_append, slowestOf_under, Nat.add_max_add_left]
      rfl

/-- **A call that begins** answers when its slowest probe does. -/
theorem begin_answersAt {w : World} {c : Check} (free : w.cause? scope = none ∨ c.heedless = true)
    (take : AllTake delay c.reached) :
    (c.begin scope w).1.AnswersAt delay w.now (w.now + c.slowest delay) := by
  cases c with
  | fixed => rfl
  | probe p =>
    have takes := take _ (List.mem_singleton.mpr rfl) _ (p.act_mem (w.callsOf p.id).started)
    have slowest : (Check.probe p).slowest delay = delay p := Nat.max_zero _
    rw [slowest]
    refine World.goOn_answersAt (w := w.startCall p.id) (free.imp_right fun free => ?_) p _ takes
    exact List.all_eq_true.mp free _ (p.act_mem (w.callsOf p.id).started)
  | group name children =>
    simp only [Check.begin, World.gather]
    split
    · next none =>
      cases List.isEmpty_iff.mp none
      rfl
    · simp only [free.resolve_right Bool.false_ne_true]
      exact allAnswerAt_fresh w.now take
  | cached slot interval inner =>
    simp only [Check.begin]
    cases w.cache? slot <;> rfl
  | debounced slot budget inner =>
    exact World.debounced_answersAt (begin_answersAt (c := inner) free take) slot budget inner.name

mutual
/-- **While its scope is live a step keeps the instant at which a call answers**, and if the call is
over by the step it is that instant. So does a step of a call that pays no heed to its scope. -/
theorem step_answersAt {w : World} {f : Flight} {e : Nat}
    (free : w.cause? scope = none ∨ f.heedless = true) (due : f.AnswersAt delay w.now e) :
    (f.step scope w).1.AnswersAt delay w.now e := by
  cases f with
  | fresh check =>
    obtain ⟨take, rfl⟩ := due
    exact begin_answersAt free take
  | pausing p wake heeds act =>
    obtain ⟨unheeded, others⟩ : (if heeds then w.cause? scope else none) = none ∧
        (w.cause? scope = none ∨ HealthTree.heedless act.pauses = true) := by
      rcases free with live | free
      · exact ⟨by rw [live, ite_self], .inl live⟩
      · obtain ⟨unheeding, free⟩ := Bool.and_eq_true_iff.mp free
        exact ⟨if_neg (by simpa using unheeding), .inr free⟩
    simp only [step, unheeded]
    split
    · next woken =>
      obtain ⟨k, d, rfl, ahead, takes, rfl⟩ := due
      have now : k = w.now := Nat.le_antisymm (of_decide_eq_true woken) ahead
      rw [now]
      exact World.goOn_answersAt others p act.answer takes
    · exact due
  | gathering name names g waiting =>
    have live := free.resolve_right Bool.false_ne_true
    have all : AllAnswerAt delay w.now (stepAll scope waiting g w).1 e :=
      stepAll_answersAt live due g
    simp only [step, live]
    split
    · next none =>
      rw [List.isEmpty_iff.mp none] at all
      exact all
    · exact all
  | debouncing slot budget name inner =>
    exact World.debounced_answersAt (step_answersAt (f := inner) free due) slot budget name
/-- The same for the children a group waits for. -/
theorem stepAll_answersAt {w : World} (live : w.cause? scope = none)
    {waiting : List (String × Flight)} {e : Nat} (due : AllAnswerAt delay w.now waiting e) (g : Gathered) :
    AllAnswerAt delay w.now (stepAll scope waiting g w).1 e := by
  cases waiting with
  | nil => exact due
  | cons child rest =>
    obtain ⟨name, flight⟩ := child
    obtain ⟨first, others, here, there, rfl⟩ := due
    have here := step_answersAt (.inl live) here
    obtain ⟨now, live'⟩ := step_gathered_live live flight name g
    rw [← now] at there
    have there := stepAll_answersAt live' there
      ((flight.step scope w).2.gathered name g (flight.step scope w).1).2.1
    rw [now] at there
    simp only [stepAll]
    cases turn : (flight.step scope w).1 with
    | still next =>
      rw [turn] at here there
      exact ⟨first, others, here, there, rfl⟩
    | done | panicked =>
      rw [turn] at here there
      -- the child is over at this instant, so the others are no earlier
      have same : max first others = others := by
        have now : first = w.now := here
        have := there.le
        omega
      rw [same]
      exact there
end

/-! ## The passing of time -/

/-- **A step that leaves the children a group waits for as they are** leaves the first as it is, and
the others. -/
theorem stepAll_rests {w : World} {name : String} {flight : Flight} {rest : List (String × Flight)}
    {g : Gathered}
    (rests : (stepAll scope ((name, flight) :: rest) g w).1 = (name, flight) :: rest) :
    (flight.step scope w).1 = .still flight ∧
      (stepAll scope rest ((flight.step scope w).2.gathered name g (flight.step scope w).1).2.1
        ((flight.step scope w).2.gathered name g (flight.step scope w).1).2.2).1 = rest := by
  simp only [stepAll] at rests
  cases turn : (flight.step scope w).1 with
  | still next =>
    rw [turn] at rests
    injection rests with first rest
    injection first with _ same
    exact ⟨congrArg Turn.still same, rest⟩
  | done | panicked =>
    -- if the child were over, the others would have to get heavier
    rw [turn] at rests
    have heavier := congrArg weightAll rests
    have some := flight.weight_pos
    simp only [weightAll] at heavier
    have most := stepAll_weight_le rest scope
    exact absurd heavier (Nat.ne_of_lt (Nat.lt_of_le_of_lt (most ..) (by omega)))

mutual
/-- **A call that a step leaves as it is answers later, and at the same instant** when time has passed
in which no pause of it has ended too early. -/
theorem AnswersAt.pass {w : World} (live : w.cause? scope = none) {f : Flight} {e : Nat}
    (due : f.AnswersAt delay w.now e) (rests : (f.step scope w).1 = .still f) {later : Nat}
    (early : ∀ wake ∈ f.wakes, w.now < wake → later ≤ wake) :
    w.now < e ∧ f.AnswersAt delay later e := by
  cases f with
  | fresh check =>
    have less := check.begin_weight scope w
    have same : (check.begin scope w).1 = .still (.fresh check) := rests
    rw [same] at less
    exact absurd less (Nat.lt_irrefl _)
  | pausing p wake heeds act =>
    have unheeded : (if heeds then w.cause? scope else none) = none := by rw [live, ite_self]
    obtain ⟨k, d, rfl, ahead, takes, rfl⟩ := due
    simp only [step, unheeded] at rests
    split at rests
    · -- a pause that is over leads to another one, of which there are fewer
      have less := w.goOn_weight p scope act.answer act.pauses
      rw [rests] at less
      exact absurd less (Nat.not_succ_le_self _)
    · next asleep =>
      have after : w.now < k := by simpa using asleep
      exact ⟨Nat.lt_of_lt_of_le after (Nat.le_add_right k d), k, d, rfl,
        early k List.mem_cons_self after, takes, rfl⟩
  | gathering name names g waiting =>
    simp only [step, live] at rests
    split at rests
    · cases rests
    · next some =>
      have same : (stepAll scope waiting g w).1 = waiting := by
        injection rests with rests
        injection rests
      refine AllAnswerAt.pass live due g same ?_ early
      rintro rfl
      rw [same] at some
      exact some rfl
  | debouncing slot budget name inner =>
    refine AnswersAt.pass live (f := inner) due ?_ early
    simp only [step] at rests
    cases turn : (inner.step scope w).1 with
    | still next =>
      rw [turn] at rests
      injection rests with rests
      injection rests with _ _ _ rests
      rw [rests]
    | done | panicked =>
      rw [turn] at rests
      cases rests
/-- The same for the children a group waits for, if there are any. -/
theorem AllAnswerAt.pass {w : World} (live : w.cause? scope = none)
    {waiting : List (String × Flight)} {e : Nat} (due : AllAnswerAt delay w.now waiting e) (g : Gathered)
    (rests : (stepAll scope waiting g w).1 = waiting) (some : waiting ≠ []) {later : Nat}
    (early : ∀ wake ∈ wakesAll waiting, w.now < wake → later ≤ wake) :
    w.now < e ∧ AllAnswerAt delay later waiting e := by
  cases waiting with
  | nil => exact absurd rfl some
  | cons child rest =>
    obtain ⟨name, flight⟩ := child
    obtain ⟨first, others, here, there, rfl⟩ := due
    obtain ⟨soon, late⟩ := List.forall_mem_append.mp early
    obtain ⟨own, theirs⟩ := stepAll_rests rests
    obtain ⟨after, here⟩ := AnswersAt.pass live here own soon
    refine ⟨Nat.lt_of_lt_of_le after (Nat.le_max_left ..), first, ?_⟩
    cases rest with
    | nil =>
      cases there
      have ahead := here.le
      refine ⟨later, here, rfl, ?_⟩
      omega
    | cons other rest =>
      obtain ⟨now, live'⟩ := step_gathered_live live flight name g
      rw [← now] at there
      obtain ⟨-, there⟩ := AllAnswerAt.pass live' there _ theirs (List.cons_ne_nil _ _) (by rwa [now])
      exact ⟨others, here, there, rfl⟩
end

/-! ## Groups -/

/-- The call is one of a group that has children. -/
def Grouped : Flight → Prop
  | fresh (.group _ children) => children ≠ []
  | gathering _ _ _ _ => True
  | fresh _ | pausing _ _ _ _ | debouncing _ _ _ _ => False

end Flight

/-- What a step of a group comes to: it goes on as a group or is over, and it does not panic. -/
def Turn.Grouped : Turn → Prop
  | .still flight => flight.Grouped
  | .done _ => True
  | .panicked => False

namespace Flight

variable {w : World} {scope : ScopeId} {f : Flight}

/-- **A group whose scope has ended is over with its next step.** -/
theorem Grouped.ends (grouped : f.Grouped) (ended : w.cause? scope ≠ none) :
    ∃ o, (f.step scope w).1 = .done o := by
  obtain ⟨cause, ended⟩ := Option.ne_none_iff_exists'.mp ended
  cases f with
  | pausing | debouncing => exact grouped.elim
  | fresh check =>
    cases check with
    | fixed | probe | cached | debounced => exact grouped.elim
    | group name children =>
      have some : ¬ children.isEmpty = true := fun none => grouped (List.isEmpty_iff.mp none)
      simp only [step, Check.begin, World.gather, if_neg some, ended]
      exact ⟨_, rfl⟩
  | gathering name names g waiting =>
    simp only [step, ended]
    exact ⟨_, rfl⟩

/-- A group goes on as a group, and catches the panics of its children. -/
theorem Grouped.step (grouped : f.Grouped) (scope : ScopeId) (w : World) :
    (f.step scope w).1.Grouped := by
  by_cases live : w.cause? scope = none
  · cases f with
    | pausing | debouncing => exact grouped.elim
    | fresh check =>
      cases check with
      | fixed | probe | cached | debounced => exact grouped.elim
      | group name children =>
        have some : ¬ children.isEmpty = true := fun none => grouped (List.isEmpty_iff.mp none)
        simp only [Flight.step, Check.begin, World.gather, if_neg some, live]
        trivial
    | gathering name names g waiting =>
      simp only [Flight.step, live]
      split <;> trivial
  · obtain ⟨o, done⟩ := grouped.ends live
    rw [done]
    trivial

end Flight

/-! ## Calls of groups in a session -/

/-- The instant at which a scope has ended, if it has: its deadline, or this instant if it was
cancelled before that. -/
def World.endedAt? (w : World) (scope : ScopeId) : Option Nat :=
  (w.cause? scope).map fun _ => (w.scopes.deadline? scope).elim w.now (min w.now)

/-- The deadline of a live scope is still to come. -/
theorem World.lt_deadline {w : World} {scope : ScopeId} {d : Nat} (live : w.cause? scope = none)
    (deadline : w.scopes.deadline? scope = some d) : w.now < d := by
  by_contra passed
  have ended : w.cause? scope ≠ none :=
    Scopes.cause?_ne_none.mpr (.inr ⟨d, deadline, Nat.le_of_not_lt passed⟩)
  exact ended live

theorem World.endedAt?_ge {w : World} {scope : ScopeId} {low ends : Nat} (ahead : low ≤ w.now)
    (intime : ∀ d, w.scopes.deadline? scope = some d → low ≤ d)
    (ended : w.endedAt? scope = some ends) : low ≤ ends := by
  obtain ⟨_, -, rfl⟩ := Option.map_eq_some_iff.mp ended
  cases deadline : w.scopes.deadline? scope with
  | none => exact ahead
  | some d => exact Nat.le_min.mpr ⟨ahead, intime d deadline⟩

/-- **A call of a group is going on** that answers at the instant `e` unless its scope ends first,
which has not been before now. -/
structure Machine.Pending (m : Machine) (delay : Probe → Nat) (id : JobId) (name : String)
    (scope : ScopeId) (e : Nat) (flight : Flight) : Prop where
  mem : (id, .call name scope flight) ∈ m.jobs
  grouped : flight.Grouped
  ahead : m.now ≤ e
  intime : ∀ d, m.world.scopes.deadline? scope = some d → m.now ≤ d
  due : m.world.cause? scope = none → flight.AnswersAt delay m.now e

namespace Machine.Pending

variable {m : Machine} {id : JobId} {name : String} {scope : ScopeId} {e : Nat} {flight : Flight}

/-- A scope that has ended has ended just now. -/
theorem endedAt (pending : m.Pending delay id name scope e flight)
    (ended : m.world.cause? scope ≠ none) : m.world.endedAt? scope = some m.now := by
  obtain ⟨cause, ended⟩ := Option.ne_none_iff_exists'.mp ended
  rw [World.endedAt?, ended, Option.map_some]
  cases deadline : m.world.scopes.deadline? scope with
  | none => rfl
  | some d => exact congrArg some (Nat.min_eq_left (pending.intime d deadline))

/-- **Where nothing is left to do the scope of the call is live and its answer still ahead**, and when
time has passed in which no job wakes too late, it answers at the same instant. -/
theorem rests (pending : m.Pending delay id name scope e flight) (still : m.Still) {later : Nat}
    (early : ∀ wake ∈ flight.wakes, m.now < wake → later ≤ wake) :
    m.world.cause? scope = none ∧ m.now < e ∧ flight.AnswersAt delay later e := by
  have same := congrArg Prod.fst (still _ pending.mem)
  have rests : (flight.step scope m.world).1 = .still flight := by
    obtain ⟨next, call, going⟩ := Job.call_of_going same
    cases call
    exact going
  by_cases live : m.world.cause? scope = none
  · exact ⟨live, (pending.due live).pass live rests early⟩
  · obtain ⟨o, done⟩ := pending.grouped.ends live
    cases rests.symm.trans done

/-- A step after which the call goes on leaves its answer where it was. -/
theorem goesOn (pending : m.Pending delay id name scope e flight) {next : Job}
    (step : ((Job.call name scope flight).step id m.world).1 = .going next) :
    ∃ flight', next = .call name scope flight' ∧ flight'.Grouped ∧
      (m.world.cause? scope = none → flight'.AnswersAt delay m.now e) := by
  obtain ⟨flight', rfl, still⟩ := Job.call_of_going step
  have grouped := pending.grouped.step scope m.world
  rw [still] at grouped
  refine ⟨flight', rfl, grouped, ?_⟩
  intro live
  have due := Flight.step_answersAt (.inl live) (pending.due live)
  rw [still] at due
  exact due

/-- **A step in which the call ends brings the answer**, and this is its instant. -/
theorem ends (pending : m.Pending delay id name scope e flight) {r : Reply}
    (sharp : m.world.cause? scope ≠ none → e = m.now)
    (step : ((Job.call name scope flight).step id m.world).1 = .finished r) :
    e = m.now ∧ ∃ o, r = .answered name o := by
  have grouped := pending.grouped.step scope m.world
  simp only [Job.step] at step
  cases turn : (flight.step scope m.world).1 with
  | still next =>
    rw [turn] at step
    cases step
  | panicked =>
    rw [turn] at grouped
    exact grouped.elim
  | done o =>
    rw [turn] at step
    cases step
    refine ⟨?_, o, rfl⟩
    by_cases live : m.world.cause? scope = none
    · have due := Flight.step_answersAt (.inl live) (pending.due live)
      rw [turn] at due
      exact due
    · exact sharp live

end Machine.Pending

namespace Scenario.Session

/-- **The instant at which a scope ends in a run**, if it does. -/
def endsAt? (scope : ScopeId) : Session → List Move → Option Nat
  | s, [] => s.machine.world.endedAt? scope
  | s, next :: rest => (s.machine.world.endedAt? scope).or (endsAt? scope (s.move next) rest)

variable {known : Check → Prop} {s : Session} {held : List ScopeId} {id : JobId} {name : String}
  {scope : ScopeId} {e : Nat} {flight : Flight}

/-- A scope that has not ended before some instant does not end before it. -/
theorem endsAt?_ge (within : s.Within known held) (old : scope < s.machine.world.scopes.next)
    {low : Nat} (ahead : low ≤ s.machine.now)
    (intime : ∀ d, s.machine.world.scopes.deadline? scope = some d → low ≤ d) {run : List Move}
    {ends : Nat} (ended : s.endsAt? scope run = some ends) : low ≤ ends := by
  induction run generalizing s held with
  | nil => exact World.endedAt?_ge ahead intime ended
  | cons next rest ih =>
    rcases Option.or_eq_some_iff.mp ended with now | ⟨-, later⟩
    · exact World.endedAt?_ge ahead intime now
    · obtain ⟨held', within'⟩ := move_within within next
      have after := move_after within next
      refine ih within' (Nat.lt_of_lt_of_le old after.grows) (Nat.le_trans ahead after.time) ?_ later
      intro d deadline
      exact intime d ((after.deadline scope old).symm.trans deadline)

/-- The instant at which a call answers over a run, if it would answer at `e` and its scope does not
end before that. -/
def answersAt (s : Session) (scope : ScopeId) (e : Nat) (run : List Move) : Nat :=
  (s.endsAt? scope run).elim e (min e)

/-- Steps and commands take no time. -/
theorem move_now (within : s.Within known held) {next : Move} (timeless : ∀ ms, next ≠ .pass ms) :
    (s.move next).machine.now = s.machine.now := by
  cases next with
  | begin c =>
    obtain ⟨_, touched⟩ := begin_touches within c
    exact (Machine.Touches.kept touched.touches).now
  | aside name c =>
    obtain ⟨_, touched⟩ := setAside_touches within name c
    exact (Machine.Touches.kept touched.touches).now
  | turn i => exact (s.machine.takeTurn_later i).now
  | pass ms => exact absurd rfl (timeless ms)
  | grace given => rfl

open Machine (Pending)

/-- **Time passes for a call of a group** to its answer at most, and to the end of its scope. -/
theorem pending_pass {ms : Nat} (patient : s.PatientMove (.pass ms))
    (pending : s.machine.Pending delay id name scope e flight) :
    (s.move (.pass ms)).machine.Pending delay id name scope e flight := by
  obtain ⟨still, early⟩ := patient
  have wakes {wake : Nat} (mem : wake ∈ Job.wakes s.machine.world (.call name scope flight))
      (after : s.machine.now < wake) : s.machine.now + ms ≤ wake := early _ pending.mem wake mem after
  obtain ⟨live, -, due⟩ := pending.rests still fun wake mem => wakes (List.mem_append_right _ mem)
  refine ⟨pending.mem, pending.grouped, due.le, ?_, fun _ => due⟩
  intro d deadline
  have deadline : s.machine.world.scopes.deadline? scope = some d := deadline
  exact wakes (List.mem_append_left _ (by simp [deadline])) (World.lt_deadline live deadline)

/-- **What a patient move makes of a call of a group**: it goes on, and is to answer at the same
instant; or it answers, and that instant is now; or it is dropped with a command. -/
theorem pending_move (timely : s.Timely known held) (booked : s.machine.Booked) {next : Move}
    (patient : s.PatientMove next) (pending : s.machine.Pending delay id name scope e flight)
    (sharp : s.machine.world.cause? scope ≠ none → e = s.machine.now) :
    (∃ flight', (s.move next).machine.Pending delay id name scope e flight') ∨
      (e = s.machine.now ∧
        ∃ o, (s.move next).machine.result? id = some (e, .answered name o)) ∨
      ¬ next.Alone ∧ (s.move next).machine.result? id = some (s.machine.now, .aborted) := by
  have old := timely.paced.sheltered.scopes _ pending.mem scope rfl
  have after := move_after timely.within next
  have alive (live : (s.move next).machine.world.cause? scope = none) :
      s.machine.world.cause? scope = none := by
    by_contra ended
    exact after.stays old ended live
  -- what the call is after a move that takes no time
  have goes {flight' : Flight} (now : (s.move next).machine.now = s.machine.now)
      (mem : (id, .call name scope flight') ∈ (s.move next).machine.jobs) (grouped : flight'.Grouped)
      (due : s.machine.world.cause? scope = none → flight'.AnswersAt delay s.machine.now e) :
      (s.move next).machine.Pending delay id name scope e flight' := by
    refine ⟨mem, grouped, now ▸ pending.ahead, ?_, fun live => now ▸ due (alive live)⟩
    intro d deadline
    exact now ▸ pending.intime d ((after.deadline scope old).symm.trans deadline)
  rcases move_fate timely.within timely.paced.locked booked pending.mem next with fate | dropped
  · cases fate with
    | left mem =>
      refine .inl ⟨flight, ?_⟩
      cases next with
      | pass ms => exact pending_pass patient pending
      | begin | aside | turn | grace =>
        exact goes (move_now timely.within nofun) mem pending.grouped pending.due
    | goesOn now step mem =>
      obtain ⟨flight', rfl, grouped, due⟩ := pending.goesOn step
      exact .inl ⟨flight', goes now mem grouped due⟩
    | ends now step entered =>
      obtain ⟨time, o, rfl⟩ := pending.ends sharp step
      exact .inr (.inl ⟨time, o, time ▸ entered⟩)
    | leaves step =>
      simp only [Job.step] at step
      cases turn : (flight.step scope s.machine.world).1 <;> rw [turn] at step <;> cases step
  · exact .inr (.inr dropped)

/-- **How a call of a group stands after a run** that answers at this instant and at no other: it is
going on, and the instant is not over; it has answered at it; or it was dropped with a command of the
run. -/
inductive Stands (delay : Probe → Nat) (id : JobId) (name : String) (scope : ScopeId) (time : Nat)
    (run : List Move) (m : Machine) : Prop
  | pending {flight : Flight} (pending : m.Pending delay id name scope time flight)
  | answered {o : Outcome} (entered : m.result? id = some (time, .answered name o))
  | dropped {moment : Nat} (entered : m.result? id = some (moment, .aborted)) {next : Move}
      (mem : next ∈ run) (command : ¬ next.Alone)

/-- A call that is to answer now answers now, for its scope has not ended before. -/
theorem answersAt_now (timely : s.Timely known held)
    (pending : s.machine.Pending delay id name scope e flight) (now : e = s.machine.now)
    (run : List Move) : s.answersAt scope e run = e := by
  have old := timely.paced.sheltered.scopes _ pending.mem scope rfl
  subst now
  unfold answersAt
  cases ended : s.endsAt? scope run with
  | none => rfl
  | some ends =>
    exact Nat.min_eq_left (endsAt?_ge timely.within old (Nat.le_refl _) pending.intime ended)

/-- The instant at which a call answers is this one if its scope has ended. -/
theorem pending_sharp (pending : s.machine.Pending delay id name scope e flight) :
    ∃ e', s.machine.Pending delay id name scope e' flight ∧
      (s.machine.world.cause? scope ≠ none → e' = s.machine.now) ∧
      ∀ run, s.answersAt scope e' run = s.answersAt scope e run := by
  by_cases live : s.machine.world.cause? scope = none
  · exact ⟨e, pending, fun ended => absurd live ended, fun _ => rfl⟩
  · have ended := pending.endedAt live
    refine ⟨s.machine.now, ⟨pending.mem, pending.grouped, Nat.le_refl _, pending.intime,
      fun alive => absurd alive live⟩, fun _ => rfl, ?_⟩
    intro run
    have ends : s.endsAt? scope run = some s.machine.now := by
      cases run with
      | nil => exact ended
      | cons next rest => rw [endsAt?, ended, Option.some_or]
    rw [answersAt, answersAt, ends]
    exact (Nat.min_self _).trans (Nat.min_eq_right pending.ahead).symm

/-- Where the scope is live a move does not change that instant. -/
theorem answersAt_cons (live : s.machine.world.cause? scope = none) (next : Move)
    (rest : List Move) : s.answersAt scope e (next :: rest) = (s.move next).answersAt scope e rest := by
  simp only [answersAt, endsAt?, World.endedAt?, live, Option.map_none, Option.none_or]

/-- **Over a patient run a call of a group answers at one instant and at no other.** -/
theorem pending_moves (timely : s.Timely known held) (booked : s.machine.Booked) {run : List Move}
    (patient : s.Patient run) (pending : s.machine.Pending delay id name scope e flight) :
    Stands delay id name scope (s.answersAt scope e run) run (s.moves run).machine := by
  induction run generalizing s held e flight with
  | nil =>
    obtain ⟨e', pending, sharp, same⟩ := pending_sharp pending
    have time : s.answersAt scope e' [] = e' := by
      by_cases live : s.machine.world.cause? scope = none
      · simp only [answersAt, endsAt?, World.endedAt?, live, Option.map_none, Option.elim_none]
      · exact answersAt_now timely pending (sharp live) []
    rw [← same, time]
    exact .pending pending
  | cons next rest ih =>
    obtain ⟨e', pending, sharp, same⟩ := pending_sharp pending
    obtain ⟨held', timely'⟩ := timely.move (timely.move_punctual patient.1)
    have booked' := moves_booked timely.within timely.paced.locked booked [next]
    have stands {r : Nat × Reply} (entered : (s.move next).machine.result? id = some r) :
        (s.moves (next :: rest)).machine.result? id = some r :=
      moves_result timely'.within timely'.paced.locked booked' entered rest
    rw [← same]
    rcases pending_move timely booked patient.1 pending sharp with
      ⟨flight', pending'⟩ | ⟨now, o, entered⟩ | ⟨command, entered⟩
    · have tail : s.answersAt scope e' (next :: rest) = (s.move next).answersAt scope e' rest := by
        by_cases live : s.machine.world.cause? scope = none
        · exact answersAt_cons live next rest
        · -- the scope has ended now, and there is no later instant to answer at
          have now := sharp live
          have still : e' = (s.move next).machine.now := by
            have forward := (move_after timely.within next).time
            exact Nat.le_antisymm (now ▸ forward) pending'.ahead
          rw [answersAt_now timely pending now, answersAt_now timely' pending' still]
      rw [tail]
      cases ih timely' booked' patient.2 pending' with
      | pending pending => exact .pending pending
      | answered entered => exact .answered entered
      | dropped entered mem command => exact .dropped entered (List.mem_cons_of_mem _ mem) command
    · rw [answersAt_now timely pending now]
      exact .answered (stands entered)
    · exact .dropped (stands entered) List.mem_cons_self command

end Scenario.Session

/-! ## A call comes to its answer -/

namespace Machine

/-- A jump moves time. -/
theorem jump_now {m : Machine} {target : Nat} (ahead : m.now < target) :
    m.now < (m.jump target).now := by
  obtain ⟨ms, some, jumped, -⟩ := jump_passes ahead
  have settled : (m.jump target).now = m.now + ms := jumped ▸ (m.pass ms).settle_later.now
  omega

/-- **To wait for a job ends** when it is over, or at the limit. -/
theorem await_ends (id : JobId) (limit : Nat) (m : Machine) :
    ((m.await id limit).result? id).isSome ∨ limit ≤ (m.await id limit).now := by
  induction m using await.induct id limit with
  | case1 m ahead m' moved ih =>
    rw [await, if_pos ahead]
    simp only [m', if_pos moved]
    exact ih
  | case2 m ahead m' unmoved => exact absurd (jump_now ahead.1) unmoved
  | case3 m ended =>
    rw [await, if_neg ended]
    rcases Nat.lt_or_ge m.now limit with before | passed
    · left
      rw [← Option.ne_none_iff_isSome]
      intro none
      exact ended ⟨before, by rw [none]; rfl⟩
    · exact .inr passed

end Machine

namespace Scenario.Session

variable {s : Session} {held : List ScopeId} {id : JobId} {name : String} {scope : ScopeId} {e : Nat}
  {flight : Flight}

/-- **A call of a group that is going on comes to its answer**, and no command is needed for it. -/
theorem pending_answers (timely : s.Timely (fun _ => True) held) (booked : s.machine.Booked)
    (pending : s.machine.Pending delay id name scope e flight) :
    ∃ run, s.Patient run ∧ (∀ next ∈ run, next.Alone) ∧
      ∃ time o, (s.moves run).machine.result? id = some (time, .answered name o) := by
  obtain ⟨rest, settles, rested⟩ := timely.comes_to_rest
  obtain ⟨waits, -, still, -⟩ := rested.await id e
  obtain ⟨run, same, patient, alone⟩ := settles.trans waits
  have waited := Machine.await_ends id e rest.machine
  have machine : (s.moves run).machine = rest.machine.await id e := by rw [← same]
  refine ⟨run, patient, alone, ?_⟩
  have still : (s.moves run).machine.Still := by rwa [machine]
  rw [← machine] at waited
  cases pending_moves timely booked patient pending with
  | answered entered => exact ⟨_, _, entered⟩
  | dropped entered mem command => exact absurd (alone _ mem) command
  | @pending flight' pending' =>
    have booked' := moves_booked timely.within timely.paced.locked booked run
    -- the answer is ahead, but the wait was not given up before it
    obtain ⟨-, ahead, -⟩ := pending'.rests still fun _ _ after => Nat.le_of_lt after
    rcases waited with result | late
    · rw [booked'.unfinished pending'.mem] at result
      cases result
    · have sooner : s.answersAt scope e run ≤ e := by
        unfold answersAt
        cases s.endsAt? scope run with
        | none => exact Nat.le_refl _
        | some ends => exact Nat.min_le_left ..
      omega

open CheckTree (ofBlueprint?)

/-- Nothing is entered at the beginning. -/
theorem booked_of_moves {b : Blueprint} {t : CheckTree} (built : ofBlueprint? b = some t)
    (before : List Event) (run : List Move) :
    ((ofTree (some t) before).moves run).machine.Booked := by
  obtain ⟨⟨held, timely⟩, -⟩ := rested_ofTree built before
  have none : (ofTree (some t) before).machine.Booked := nofun
  exact moves_booked timely.within timely.paced.locked none run

/-- **A group takes as long as its slowest probe and no longer than its scope.** In any patient run a
group with children is called, nested to any depth and beside whatever else goes on. Its scope is live
then, and every probe that the call reaches takes as long as it is said to, whether it heeds the scope
or not. Then at any later point of the run the call is going on and the instant is not over at which
the slowest probe has answered, or at which the scope has ended if that was before; or it has answered
at that instant; or it was dropped with a command. While it is going on it comes to its answer without
any command. Scenarios are such runs. -/
theorem answers_with_slowest {b : Blueprint} {t : CheckTree} (built : ofBlueprint? b = some t)
    (before : List Event) (delay : Probe → Nat) :
    let start := ofTree (some t) before
    (∀ (run : List Move) (id : JobId) (name g : String) (scope : ScopeId) (children : List Check),
      let s := start.moves run
      let c := Check.group g children
      let time := s.answersAt scope (s.machine.now + c.slowest delay)
      start.Patient run →
      (id, .call name scope (.fresh c)) ∈ s.machine.jobs → children ≠ [] →
      (∀ o ∈ c.reached, o.2.Takes (delay o.2)) → s.machine.world.cause? scope = none →
      ∀ later, s.Patient later →
        let m := (s.moves later).machine
        let going := ∃ flight, (id, .call name scope flight) ∈ m.jobs
        (going ∧ m.now ≤ time later ∨
          (∃ o, m.result? id = some (time later, .answered name o)) ∨
          (∃ moment, m.result? id = some (moment, .aborted)) ∧ ∃ next ∈ later, ¬ next.Alone) ∧
        (going → ∃ more, s.Patient (later ++ more) ∧ (∀ next ∈ more, next.Alone) ∧
          ∃ o, (s.moves (later ++ more)).machine.result? id =
            some (time (later ++ more), .answered name o))) ∧
    ∀ cs : List Command, start.LeadsPatiently (playAll cs start).2 := by
  intro start
  refine ⟨?_, playAll_patient built before⟩
  intro run id name g scope children s c time patient asked inhabited take live later patient'
  obtain ⟨held, timely⟩ := timely_of_patient built before patient
  have booked := booked_of_moves built before run
  have pending : s.machine.Pending delay id name scope (s.machine.now + c.slowest delay)
      (.fresh c) :=
    ⟨asked, inhabited, Nat.le_add_right _ _, fun _ deadline =>
      Nat.le_of_lt (World.lt_deadline live deadline), fun _ => ⟨take, rfl⟩⟩
  intro m going
  have stands := pending_moves timely booked patient' pending
  constructor
  · cases stands with
    | pending pending' => exact .inl ⟨⟨_, pending'.mem⟩, pending'.ahead⟩
    | answered entered => exact .inr (.inl ⟨_, entered⟩)
    | dropped entered mem command => exact .inr (.inr ⟨⟨_, entered⟩, _, mem, command⟩)
  · rintro ⟨flight, mem⟩
    have booked' : m.Booked := moves_booked timely.within timely.paced.locked booked later
    have nothing := booked'.unfinished mem
    cases stands with
    | answered entered | dropped entered => cases nothing.symm.trans entered
    | pending pending' =>
      obtain ⟨held', timely'⟩ := timely.moves (timely.punctual patient')
      obtain ⟨more, patient'', alone, moment, o, entered⟩ :=
        pending_answers timely' booked' pending'
      have whole := patient_append.mpr ⟨patient', patient''⟩
      refine ⟨more, whole, alone, ?_⟩
      rw [← moves_append] at entered
      cases pending_moves timely booked whole pending with
      | pending pending'' =>
        have booked'' := moves_booked timely.within timely.paced.locked booked (later ++ more)
        cases (booked''.unfinished pending''.mem).symm.trans entered
      | answered entered' => exact ⟨_, entered'⟩
      | dropped entered' => cases entered'.symm.trans entered

/-- A group with a probe that takes 30 and heeds its scope, and a group with a debounced one that takes
50 and does not, beside a cache. It is called twice at 10. The first call answers at 60; the second has
a timeout of 40 and answers at 50. -/
theorem answers_at_60_and_at_50 :
    let heeds : Probe := ⟨"p", "p", ⟨[⟨some 10, true⟩, ⟨some 20, true⟩], .panic⟩, []⟩
    let ignores : Probe := ⟨"q", "q", ⟨[⟨some 50, false⟩], .outcome (.ok .healthy)⟩, []⟩
    let hangs : Probe := ⟨"r", "r", ⟨[⟨none, false⟩], .panic⟩, []⟩
    let b : Blueprint :=
      .group "g" [.probe heeds, .group "h" [.debounced 1 (.probe ignores), .cached 100 (.probe hangs)]]
    let run : List Move := [.pass 10, .begin (.check .root {}), .begin (.check .root ⟨none, some 40⟩)]
    let turns : List Move := List.replicate 8 (.turn 0)
    let later := turns ++ .pass 10 :: turns ++ .pass 20 :: turns ++ .pass 10 :: turns ++
      .pass 10 :: turns
    ∃ t o o', ofBlueprint? b = some t ∧
      let m := (((ofTree (some t) []).moves run).moves later).machine
      m.result? 0 = some (60, .answered "g" o) ∧ m.result? 1 = some (50, .answered "g" o') := by
  intro heeds ignores hangs b run turns later
  let c : Check :=
    .group "g" [.probe heeds, .group "h" [.debounced 0 1 (.probe ignores), .cached 0 100 (.probe hangs)]]
  let delay : Probe → Nat := fun p => if p.id = "p" then 30 else 50
  have asked : (ofBlueprint? b).map (fun t => ((ofTree (some t) []).moves run).machine.jobs) =
      some [(0, .call "g" 1 (.fresh c)), (1, .call "g" 3 (.fresh c))] := by rfl
  have facts : (ofBlueprint? b).any fun t =>
      let s := (ofTree (some t) []).moves run
      let m := (s.moves later).machine
      decide <| (ofTree (some t) []).patient? (run ++ later) = true ∧
        s.machine.world.cause? 1 = none ∧ s.machine.world.cause? 3 = none ∧
        s.answersAt 1 (s.machine.now + c.slowest delay) later = 60 ∧
        s.answersAt 3 (s.machine.now + c.slowest delay) later = 50 ∧
        m.jobs.length = 0 := by decide +kernel
  obtain ⟨t, built, facts⟩ := (Option.any_eq_true _ _).mp facts
  obtain ⟨seen, live, live', time, time', empty⟩ := of_decide_eq_true facts
  obtain ⟨t', built', jobs⟩ := Option.map_eq_some_iff.mp asked
  cases built.symm.trans built'
  obtain ⟨patient, patient'⟩ := patient_append.mp (patient_ofTree built [] seen)
  let m := (((ofTree (some t) []).moves run).moves later).machine
  have none : m.jobs = [] := List.eq_nil_of_length_eq_zero empty
  have alone : ∀ next ∈ later, next.Alone := by simp [later, turns, Move.Alone]
  -- both calls are over, and without a command neither was dropped
  have answered {id : JobId} {scope : ScopeId} {time : Nat}
      (stands : (∃ flight, (id, .call "g" scope flight) ∈ m.jobs) ∧ m.now ≤ time ∨
        (∃ o, m.result? id = some (time, .answered "g" o)) ∨
        (∃ moment, m.result? id = some (moment, .aborted)) ∧ ∃ next ∈ later, ¬ next.Alone) :
      ∃ o, m.result? id = some (time, .answered "g" o) := by
    rcases stands with ⟨⟨flight, mem⟩, -⟩ | answered | ⟨-, next, mem, command⟩
    · rw [none] at mem
      cases mem
    · exact answered
    · exact absurd (alone next mem) command
  have take : ∀ o ∈ c.reached, o.2.Takes (delay o.2) := by decide
  have calls := (answers_with_slowest built [] delay).1 run
  obtain ⟨o, first⟩ := answered (calls 0 "g" "g" 1 _ patient (by simp [jobs, c])
    (List.cons_ne_nil _ _) take live later patient').1
  obtain ⟨o', second⟩ := answered (calls 1 "g" "g" 3 _ patient (by simp [jobs, c])
    (List.cons_ne_nil _ _) take live' later patient').1
  exact ⟨t, o, o', built, by rw [← time]; exact first, by rw [← time']; exact second⟩

end Scenario.Session

end HealthTree
