import HealthTree.Proofs.Assembly

/-!
# What is left of a call

A call of a check is over piece by piece: each probe below it answers, and each debounced check
below it sees what its inner check has come to. `Flight.left` lists the pieces that a call still has
before it, and `finishedBy` those that the deeds of a step bring to their end. A cached check is no
piece, and neither is what is behind it: a call of it only reads.

**No piece is finished twice, and none that is not left** (`step_parts`): what a step finishes and
what it leaves were left before, counted as often as they stand there. A piece may be lost, by a
panic or when its call is dropped, but it is never made up.

A group whose scope has ended drops the children it waits for. The step in which it does finishes no
probe. The debounced checks that it does finish are those around the group, and none of them stands
below it as well (`step_drops`). A call that is still under way after such a step has no group in
it, and has finished nothing (`finishedBy_of_still`).
-/

namespace HealthTree

/-- A piece of a call. -/
inductive Part where
  /-- The call of a probe. -/
  | probe (id : String)
  /-- The call of a debounced check, by its number. -/
  | debounced (slot : Nat)
  deriving DecidableEq, Repr

mutual
/-- The pieces of a call of a check. -/
def Check.parts : Check → List Part
  | .fixed _ _ _ => []
  | .probe p => [.probe p.id]
  | .group _ children => partsOf children
  | .cached _ _ _ => []
  | .debounced slot _ inner => .debounced slot :: inner.parts
/-- The pieces of calls of several checks. -/
def partsOf : List Check → List Part
  | [] => []
  | c :: rest => c.parts ++ partsOf rest
end

namespace Flight

mutual
/-- **The pieces that a call has still before it.** -/
def left : Flight → List Part
  | fresh check => check.parts
  | pausing p _ _ _ => [.probe p.id]
  | gathering _ _ _ waiting => leftAll waiting
  | debouncing slot _ _ inner => .debounced slot :: inner.left
/-- Those of the calls a group waits for. -/
def leftAll : List (String × Flight) → List Part
  | [] => []
  | (_, flight) :: rest => flight.left ++ leftAll rest
end

end Flight

/-- What is left of a call after a step. -/
def Turn.left : Turn → List Part
  | .still flight => flight.left
  | .done _ | .panicked => []

/-- The piece that a deed brings to its end. -/
def Deed.finishes? : Deed → Option Part
  | .completeCall id => some (.probe id)
  | .observe slot _ _ _ => some (.debounced slot)
  | .startCall _ | .tell _ => none

/-- **The pieces that these deeds bring to their end.** -/
def finishedBy (deeds : List Deed) : List Part :=
  deeds.filterMap Deed.finishes?

theorem finishedBy_append (deeds more : List Deed) :
    finishedBy (deeds ++ more) = finishedBy deeds ++ finishedBy more :=
  List.filterMap_append

/-! ## No piece is finished twice -/

namespace World

variable (w : World) (x : Part)

theorem goOn_parts (p : Probe) (scope : ScopeId) (a : Answer) (pauses : List Pause) :
    (finishedBy (w.pauseJournal p scope pauses)).count x +
        ((w.goOn p scope a pauses).1.left).count x ≤ [Part.probe p.id].count x := by
  induction pauses with
  | nil =>
    have none : (w.goOn p scope a []).1.left = [] := by
      cases a with
      | scope =>
        simp only [goOn, answer]
        split <;> rfl
      | outcome | tally | panic => rfl
    rw [none]
    exact Nat.le_refl _
  | cons pause rest ih =>
    simp only [goOn, pauseJournal]
    cases (if pause.heeds then w.cause? scope else none) with
    | some cause => exact Nat.zero_le _
    | none =>
      by_cases unwaited : pause.length = some 0
      · simpa only [if_pos unwaited] using ih
      · simp only [if_neg unwaited]
        exact Nat.le_of_eq (Nat.zero_add _)

/-- What a debounced check is shown is the end of its piece. -/
theorem debounced_parts (slot : Nat) (budget : UInt32) (name : String) (t : Turn) :
    (finishedBy (debounceJournal slot budget name t)).count x +
        ((w.debounced slot budget name t).1.left).count x ≤
      [Part.debounced slot].count x + t.left.count x := by
  cases t with
  | still flight =>
    simp only [debounceJournal, debounced, Turn.left, Flight.left, finishedBy, List.filterMap_nil,
      List.count_nil, List.count_cons]
    omega
  | done o => exact Nat.le_refl _
  | panicked => exact Nat.zero_le _

theorem finishedBy_gatherJournal (name : String) (t : Turn) :
    finishedBy (gatherJournal name t) = [] := by
  cases t <;> rfl

end World

theorem leftAll_fresh (children : List Check) :
    Flight.leftAll (children.map fun c => (c.name, .fresh c)) = partsOf children := by
  induction children with
  | nil => rfl
  | cons c rest ih => rw [List.map_cons, Flight.leftAll, Flight.left, partsOf, ih]

/-- The first step of a call. -/
theorem Check.begin_parts (scope : ScopeId) (c : Check) (w : World) (x : Part) :
    (finishedBy (c.journal scope w)).count x + ((c.begin scope w).1.left).count x ≤
      c.parts.count x := by
  cases c with
  | fixed name status message => exact Nat.le_refl _
  | probe p => exact World.goOn_parts _ x p scope _ _
  | group name children =>
    simp only [Check.journal, Check.begin, World.gather]
    by_cases empty : children.isEmpty
    · simp only [if_pos empty]
      exact Nat.zero_le _
    · simp only [if_neg empty]
      cases w.cause? scope with
      | some cause => exact Nat.zero_le _
      | none =>
        refine Nat.le_of_eq ((Nat.zero_add _).trans ?_)
        exact congrArg (List.count x) (leftAll_fresh children)
  | cached slot interval inner =>
    simp only [Check.journal, Check.begin]
    cases w.cache? slot <;> exact Nat.le_refl _
  | debounced slot budget inner =>
    have inside := inner.begin_parts scope w x
    have outside := (inner.begin scope w).2.debounced_parts x slot budget inner.name
      (inner.begin scope w).1
    simp only [Check.journal, Check.begin, Check.parts, finishedBy_append, List.count_append,
      List.count_cons, List.count_nil] at inside outside ⊢
    omega

namespace Flight

mutual
/-- **What a step finishes and what it leaves was left before**, and no piece is counted twice. -/
theorem step_parts (scope : ScopeId) (f : Flight) (w : World) (x : Part) :
    (finishedBy (f.journal scope w)).count x + ((f.step scope w).1.left).count x ≤
      f.left.count x := by
  cases f with
  | fresh check => exact check.begin_parts scope w x
  | pausing p wake heeds act =>
    simp only [journal, Flight.step]
    cases (if heeds then w.cause? scope else none) with
    | some cause => exact Nat.zero_le _
    | none =>
      by_cases due : wake.any (· ≤ w.now)
      · simp only [if_pos due]
        exact w.goOn_parts x p scope act.answer act.pauses
      · simp only [if_neg due]
        exact Nat.le_of_eq (Nat.zero_add _)
  | gathering name names g waiting =>
    simp only [journal, Flight.step]
    cases w.cause? scope with
    | some cause => exact Nat.zero_le _
    | none =>
      have all := stepAll_parts scope waiting g w x
      simp only
      split
      · exact Nat.le_trans (Nat.add_le_add_left (Nat.zero_le _) _) all
      · exact all
  | debouncing slot budget name inner =>
    have inside := step_parts scope inner w x
    have outside := (inner.step scope w).2.debounced_parts x slot budget name
      (inner.step scope w).1
    simp only [journal, Flight.step, left, finishedBy_append, List.count_append, List.count_cons,
      List.count_nil] at inside outside ⊢
    omega
/-- The same for the calls a group waits for. -/
theorem stepAll_parts (scope : ScopeId) (waiting : List (String × Flight)) (g : Gathered)
    (w : World) (x : Part) :
    (finishedBy (journalAll scope waiting w)).count x +
        (leftAll (stepAll scope waiting g w).1).count x ≤ (leftAll waiting).count x := by
  cases waiting with
  | nil => exact Nat.le_refl _
  | cons child rest =>
    obtain ⟨name, flight⟩ := child
    have here := step_parts scope flight w x
    have world := flight.step_gathered_world scope w name g
    have there := stepAll_parts scope rest
      ((flight.step scope w).2.gathered name g (flight.step scope w).1).2.1
      (w.performAll (flight.journal scope w ++
        World.gatherJournal name (flight.step scope w).1)) x
    rw [← world] at there
    simp only [journalAll, stepAll, leftAll, finishedBy_append, World.finishedBy_gatherJournal,
      List.append_nil, List.count_append, ← world]
    cases turn : (flight.step scope w).1 with
    | still next =>
      simp only [turn, World.gathered, Turn.left, leftAll, List.count_append] at here there ⊢
      omega
    | done o | panicked =>
      simp only [turn, World.gathered, Turn.left, List.count_nil] at here there ⊢
      omega
end

end Flight

/-! ## A call that waits on after its scope has ended -/

/-- A probe that waits on is what was left of it. -/
theorem World.goOn_left {w : World} {p : Probe} {scope : ScopeId} {a : Answer}
    {pauses : List Pause} {next : Flight} (still : (w.goOn p scope a pauses).1 = .still next) :
    next.left = [.probe p.id] := by
  induction pauses with
  | nil =>
    cases a with
    | scope =>
      simp only [goOn, answer] at still
      split at still <;> cases still
    | outcome | tally | panic => cases still
  | cons pause rest ih =>
    simp only [goOn] at still
    split at still
    · cases still
    · split at still
      · exact ih still
      · cases still
        rfl

/-- A debounced check waits on if its inner check does. -/
theorem World.still_of_debounced {w : World} {slot : Nat} {budget : UInt32} {name : String}
    {t : Turn} {next : Flight} (still : (w.debounced slot budget name t).1 = .still next) :
    ∃ inner, t = .still inner ∧ next = .debouncing slot budget name inner := by
  cases t with
  | still inner =>
    cases still
    exact ⟨inner, rfl, rfl⟩
  | done | panicked => cases still

theorem Check.begin_left {scope : ScopeId} {c : Check} {w : World} {next : Flight}
    (ended : w.cause? scope ≠ none) (still : (c.begin scope w).1 = .still next) :
    next.left = c.parts := by
  cases c with
  | fixed => cases still
  | probe p => exact World.goOn_left still
  | group name children =>
    obtain ⟨cause, ended⟩ := Option.ne_none_iff_exists'.mp ended
    simp only [begin, World.gather, ended] at still
    split at still <;> cases still
  | cached slot interval inner =>
    simp only [begin] at still
    split at still <;> cases still
  | debounced slot budget inner =>
    obtain ⟨inside, waits, rfl⟩ := World.still_of_debounced still
    rw [Flight.left, parts, begin_left ended waits]

namespace Flight

/-- **A call that waits on after its scope has ended** has all before it that it had. There is no
group in it. -/
theorem step_left {scope : ScopeId} {f : Flight} {w : World} {next : Flight}
    (ended : w.cause? scope ≠ none) (still : (f.step scope w).1 = .still next) :
    next.left = f.left := by
  cases f with
  | fresh check => exact Check.begin_left ended still
  | pausing p wake heeds act =>
    simp only [Flight.step] at still
    split at still
    · cases still
    · split at still
      · exact World.goOn_left still
      · cases still
        rfl
  | gathering name names g waiting =>
    obtain ⟨cause, ended⟩ := Option.ne_none_iff_exists'.mp ended
    simp only [Flight.step, ended] at still
    cases still
  | debouncing slot budget name inner =>
    obtain ⟨inside, waits, rfl⟩ := World.still_of_debounced still
    rw [left, left, step_left ended waits]

/-- So it finishes nothing. -/
theorem finishedBy_of_still {scope : ScopeId} {f : Flight} {w : World} {next : Flight}
    (ended : w.cause? scope ≠ none) (still : (f.step scope w).1 = .still next) :
    finishedBy (f.journal scope w) = [] := by
  rw [List.eq_nil_iff_forall_not_mem]
  intro x mem
  have parts := f.step_parts scope w x
  rw [still, Turn.left, step_left ended still] at parts
  have some := List.count_pos_iff.mpr mem
  omega

end Flight

/-! ## Pieces are nodes -/

/-- A node is no larger than the check it is a node of. -/
theorem Check.Has.sizeOf_le {c node : Check} (has : c.Has node) : sizeOf node ≤ sizeOf c := by
  induction has with
  | self => exact Nat.le_refl _
  | child mem _ ih =>
    have smaller := List.sizeOf_lt_of_mem mem
    simp only [Check.group.sizeOf_spec]
    omega
  | cached _ ih =>
    simp only [Check.cached.sizeOf_spec]
    omega
  | debounced _ ih =>
    simp only [Check.debounced.sizeOf_spec]
    omega

mutual
/-- A debounced piece of a call is a node of its check. -/
theorem Check.has_of_parts {slot : Nat} {c : Check} (mem : .debounced slot ∈ c.parts) :
    ∃ budget d, c.Has (.debounced slot budget d) := by
  cases c with
  | fixed | cached => simp [Check.parts] at mem
  | probe p => simp [Check.parts] at mem
  | group name children =>
    obtain ⟨c, listed, budget, d, has⟩ := has_of_partsOf mem
    exact ⟨budget, d, .child listed has⟩
  | debounced there budget inner =>
    simp only [Check.parts, List.mem_cons, Part.debounced.injEq] at mem
    rcases mem with rfl | mem
    · exact ⟨budget, inner, .self _⟩
    · obtain ⟨budget', d, has⟩ := Check.has_of_parts mem
      exact ⟨budget', d, .debounced has⟩
theorem has_of_partsOf {slot : Nat} {children : List Check}
    (mem : .debounced slot ∈ partsOf children) :
    ∃ c ∈ children, ∃ budget d, c.Has (.debounced slot budget d) := by
  cases children with
  | nil => simp [partsOf] at mem
  | cons c rest =>
    rcases List.mem_append.mp mem with mem | mem
    · exact ⟨c, List.mem_cons_self, Check.has_of_parts mem⟩
    · obtain ⟨c', listed, has⟩ := has_of_partsOf mem
      exact ⟨c', List.mem_cons_of_mem _ listed, has⟩
end

namespace Flight

mutual
/-- So is one that is left of it. -/
theorem has_of_left {slot : Nat} {f : Flight} {c : Check} (of : f.Of c)
    (mem : .debounced slot ∈ f.left) : ∃ budget d, c.Has (.debounced slot budget d) := by
  cases f with
  | fresh check =>
    cases (of : check = c)
    exact Check.has_of_parts mem
  | pausing p wake heeds act => simp [left] at mem
  | gathering name names g waiting =>
    obtain ⟨children, rfl, rfl, all⟩ := of
    obtain ⟨c, listed, budget, d, has⟩ := has_of_leftAll all mem
    exact ⟨budget, d, .child listed has⟩
  | debouncing there budget name inner =>
    obtain ⟨d, rfl, rfl, of⟩ := of
    simp only [left, List.mem_cons, Part.debounced.injEq] at mem
    rcases mem with rfl | mem
    · exact ⟨budget, d, .self _⟩
    · obtain ⟨budget', d', has⟩ := has_of_left of mem
      exact ⟨budget', d', .debounced has⟩
theorem has_of_leftAll {slot : Nat} {waiting : List (String × Flight)} {children : List Check}
    (all : AllOf waiting children) (mem : .debounced slot ∈ leftAll waiting) :
    ∃ c ∈ children, ∃ budget d, c.Has (.debounced slot budget d) := by
  cases waiting with
  | nil => simp [leftAll] at mem
  | cons child rest =>
    obtain ⟨name, flight⟩ := child
    obtain ⟨⟨c, listed, -, of⟩, all⟩ := all
    rcases List.mem_append.mp mem with mem | mem
    · exact ⟨c, listed, has_of_left of mem⟩
    · exact has_of_leftAll all mem
end

end Flight

/-- **No debounced check stands below itself.** -/
theorem Check.Listed.apart {makes : List (Check × Nat)} {plan : Plan} {slot : Nat}
    {budget budget' : UInt32} {c d : Check}
    (listed : (Check.debounced slot budget c).Listed makes plan)
    (has : c.Has (.debounced slot budget' d)) : False := by
  have here := listed.debounced slot budget c (.self _)
  have there := listed.debounced slot budget' d (.debounced has)
  rw [here] at there
  cases there
  have small := has.sizeOf_le
  simp only [Check.debounced.sizeOf_spec] at small
  omega

/-! ## What a group drops -/

/-- All children of a group that has not begun, if the check is a group or a debounced one. -/
def Check.awaited : Check → Option (List (String × Flight))
  | .group _ (c :: rest) => some ((c :: rest).map fun c => (c.name, .fresh c))
  | .debounced _ _ inner => inner.awaited
  | .group _ [] | .fixed _ _ _ | .probe _ | .cached _ _ _ => none

/-- **The calls that the outermost group of a call waits for**, if the call is one of a group or of
a debounced one. -/
def Flight.awaited : Flight → Option (List (String × Flight))
  | .fresh check => check.awaited
  | .pausing _ _ _ _ => none
  | .gathering _ _ _ waiting => some waiting
  | .debouncing _ _ _ inner => inner.awaited

theorem Check.leftAll_awaited {c : Check} {waiting : List (String × Flight)}
    (waits : c.awaited = some waiting) (x : Part) :
    (Flight.leftAll waiting).count x ≤ c.parts.count x := by
  cases c with
  | fixed | probe | cached => cases waits
  | group name children =>
    cases children with
    | nil => cases waits
    | cons first rest =>
      cases waits
      exact Nat.le_of_eq (congrArg (List.count x) (leftAll_fresh (first :: rest)))
  | debounced slot budget inner =>
    have below := Check.leftAll_awaited (c := inner) waits x
    exact Nat.le_trans below List.count_le_count_cons

/-- What the outermost group waits for is left of the call. -/
theorem Flight.leftAll_awaited {f : Flight} {waiting : List (String × Flight)}
    (waits : f.awaited = some waiting) (x : Part) : (leftAll waiting).count x ≤ f.left.count x := by
  cases f with
  | fresh check => exact Check.leftAll_awaited waits x
  | pausing => cases waits
  | gathering =>
    cases waits
    exact Nat.le_refl _
  | debouncing slot budget name inner =>
    have below := Flight.leftAll_awaited (f := inner) waits x
    exact Nat.le_trans below List.count_le_count_cons

/-- **A step in which a group drops these calls**: it ends the call, it finishes debounced checks
only, none of which is dropped, and what it finishes and what is dropped was left before. -/
structure Cut (before : List Part) (dropped : List (String × Flight)) (t : Turn)
    (deeds : List Deed) : Prop where
  done : ∃ o, t = .done o
  debounced : ∀ x ∈ finishedBy deeds, ∃ slot, x = .debounced slot
  apart : ∀ x ∈ finishedBy deeds, x ∉ Flight.leftAll dropped
  parts : ∀ x, (finishedBy deeds).count x + (Flight.leftAll dropped).count x ≤ before.count x

namespace Cut

variable {before : List Part} {dropped : List (String × Flight)} {t : Turn} {deeds : List Deed}

/-- What is dropped was left before. -/
theorem mem_before (cut : Cut before dropped t deeds) {x : Part}
    (mem : x ∈ Flight.leftAll dropped) : x ∈ before := by
  have parts := cut.parts x
  have positive := List.count_pos_iff.mpr mem
  exact List.count_pos_iff.mp (by omega)

/-- A group that waits drops what it waits for, and finishes nothing. -/
theorem interrupt (w : World) (name : String) (names : List String) (g : Gathered) (cause : Fault) :
    Cut (Flight.leftAll dropped) dropped (w.interrupt name names g cause).1
      (World.interruptJournal name names g cause) :=
  ⟨⟨_, rfl⟩, nofun, nofun, fun _ => Nat.le_of_eq (Nat.zero_add _)⟩

/-- A debounced check around it sees the outcome. -/
theorem around (cut : Cut before dropped t deeds) {slot : Nat}
    (outside : .debounced slot ∉ Flight.leftAll dropped) (w : World) (budget : UInt32)
    (name : String) :
    Cut (.debounced slot :: before) dropped (w.debounced slot budget name t).1
      (deeds ++ World.debounceJournal slot budget name t) := by
  obtain ⟨⟨o, rfl⟩, debounced, apart, parts⟩ := cut
  have all : finishedBy (deeds ++ World.debounceJournal slot budget name (.done o)) =
      finishedBy deeds ++ [.debounced slot] := finishedBy_append ..
  refine ⟨⟨_, rfl⟩, ?_, ?_, fun x => ?_⟩
  · intro x mem
    rw [all, List.mem_append, List.mem_singleton] at mem
    exact mem.elim (debounced x) fun same => ⟨slot, same⟩
  · intro x mem
    rw [all, List.mem_append, List.mem_singleton] at mem
    exact mem.elim (apart x) fun same => same ▸ outside
  · have inside := parts x
    simp only [all, List.count_append, List.count_cons, List.count_nil]
    omega

end Cut

section

variable {makes : List (Check × Nat)} {plan : Plan} {scope : ScopeId} {w : World} {cause : Fault}
  {dropped : List (String × Flight)}

/-- A group that has not begun is interrupted in its first step. -/
theorem Check.begin_drops {c : Check} (listed : c.Listed makes plan)
    (waits : c.awaited = some dropped) (ended : w.cause? scope = some cause) :
    Cut c.parts dropped (c.begin scope w).1 (c.journal scope w) := by
  cases c with
  | fixed | probe | cached => cases waits
  | group name children =>
    cases children with
    | nil => cases waits
    | cons first rest =>
      cases waits
      have parts : (Check.group name (first :: rest)).parts = Flight.leftAll _ :=
        (leftAll_fresh (first :: rest)).symm
      rw [parts]
      simp only [Check.begin, Check.journal, World.gather, List.isEmpty_cons, ended]
      exact .interrupt w name _ {} cause
  | debounced slot budget inner =>
    have cut := Check.begin_drops (listed.below (.debounced (.self _))) waits ended
    refine cut.around (fun mem => ?_) _ budget inner.name
    obtain ⟨budget', d, has⟩ := Check.has_of_parts (cut.mem_before mem)
    exact listed.apart has

/-- **A group whose scope has ended drops the calls that it waits for.** -/
theorem Flight.step_drops {f : Flight} {c : Check} (of : f.Of c) (listed : c.Listed makes plan)
    (waits : f.awaited = some dropped) (ended : w.cause? scope = some cause) :
    Cut f.left dropped (f.step scope w).1 (f.journal scope w) := by
  cases f with
  | fresh check =>
    cases (of : check = c)
    exact Check.begin_drops listed waits ended
  | pausing p wake heeds act => cases waits
  | gathering name names g waiting =>
    cases waits
    simp only [Flight.step, journal, ended]
    exact .interrupt w name names g cause
  | debouncing slot budget name inner =>
    obtain ⟨d, rfl, rfl, of⟩ := of
    have cut := Flight.step_drops of (listed.below (.debounced (.self _))) waits ended
    refine cut.around (fun mem => ?_) _ budget d.name
    obtain ⟨budget', d', has⟩ := Flight.has_of_left of (cut.mem_before mem)
    exact listed.apart has

end

end HealthTree
