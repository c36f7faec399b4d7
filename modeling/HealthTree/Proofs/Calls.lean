import HealthTree.Proofs.Journal

/-!
# Which check a call is a call of

`Flight.Of` says that a flight is a call of a check, however far it has come: its shape is that of
the check, its names are those of the children, and each call below it is a call of one of these. A
step keeps this (`step_of`). So what a call shows to debounced checks it shows to nodes of its own
check, under their own budgets and names (`observed_of`).
-/

namespace HealthTree

/-- A check is a node of another: it is the same or stands somewhere below it, behind caches
included. -/
inductive Check.Has : Check → Check → Prop
  | self (c : Check) : Has c c
  | child {name : String} {children : List Check} {c node : Check} :
      c ∈ children → Has c node → Has (.group name children) node
  | cached {slot interval : Nat} {inner node : Check} :
      Has inner node → Has (.cached slot interval inner) node
  | debounced {slot : Nat} {budget : UInt32} {inner node : Check} :
      Has inner node → Has (.debounced slot budget inner) node

theorem Check.Has.trans {a b c : Check} (ab : a.Has b) (bc : b.Has c) : a.Has c := by
  induction ab with
  | self => exact bc
  | child mem _ ih => exact .child mem (ih bc)
  | cached _ ih => exact .cached (ih bc)
  | debounced _ ih => exact .debounced (ih bc)

namespace Flight

mutual
/-- **The flight is a call of the check.** -/
def Of : Flight → Check → Prop
  | fresh check, c => check = c
  | pausing p _ _ _, c => c = .probe p
  | gathering name names _ waiting, c =>
    ∃ children, c = .group name children ∧ names = children.map Check.name ∧ AllOf waiting children
  | debouncing slot budget name inner, c =>
    ∃ d, c = .debounced slot budget d ∧ name = d.name ∧ inner.Of d
/-- Each flight a group waits for is a call of a child, under the child's name. -/
def AllOf : List (String × Flight) → List Check → Prop
  | [], _ => True
  | (name, flight) :: rest, children =>
    (∃ c ∈ children, c.name = name ∧ flight.Of c) ∧ AllOf rest children
end

end Flight

/-- What is shown to a debounced check, if anything is, is shown to a node of this check, under its
own budget and name. -/
def Deed.In : Deed → Check → Prop
  | .observe slot budget name _, c => ∃ d, c.Has (.debounced slot budget d) ∧ d.name = name
  | .startCall _, _ | .completeCall _, _ | .tell _, _ => True

theorem Deed.In.mono {d : Deed} {node c : Check} (inside : d.In node) (has : c.Has node) :
    d.In c := by
  cases d with
  | observe slot budget name inner =>
    obtain ⟨e, node, named⟩ := inside
    exact ⟨e, has.trans node, named⟩
  | startCall | completeCall | tell => trivial

/-- The outcome of a call that is over, unless it panicked. -/
def Turn.outcome? : Turn → Option Outcome
  | .done o => some o
  | .still _ | .panicked => none

/-- A turn leaves a call of the check, if it leaves one. -/
def Turn.Of : Turn → Check → Prop
  | .still flight, c => flight.Of c
  | .done _, _ | .panicked, _ => True

namespace Flight

theorem allOf_fresh {children all : List Check} (sub : ∀ c ∈ children, c ∈ all) :
    AllOf (children.map fun c => (c.name, fresh c)) all := by
  induction children with
  | nil => trivial
  | cons c rest ih =>
    exact ⟨⟨c, sub c List.mem_cons_self, rfl, rfl⟩,
      ih fun d mem => sub d (List.mem_cons_of_mem _ mem)⟩

theorem goOn_of (w : World) (p : Probe) (scope : ScopeId) (a : Answer) (pauses : List Pause) :
    (w.goOn p scope a pauses).1.Of (.probe p) := by
  induction pauses with
  | nil =>
    cases a with
    | scope =>
      simp only [World.goOn, World.answer]
      split <;> trivial
    | outcome | tally | panic => trivial
  | cons pause rest ih =>
    simp only [World.goOn]
    cases (if pause.heeds then w.cause? scope else none) with
    | some cause => trivial
    | none =>
      by_cases unwaited : pause.length = some 0
      · simpa only [if_pos unwaited] using ih
      · simp only [if_neg unwaited]
        rfl

theorem debounced_of {slot : Nat} {budget : UInt32} {d : Check} {t : Turn} (of : t.Of d)
    (w : World) : (w.debounced slot budget d.name t).1.Of (.debounced slot budget d) := by
  cases t with
  | still flight => exact ⟨d, rfl, rfl, of⟩
  | done o | panicked => trivial

theorem begin_of (scope : ScopeId) (c : Check) (w : World) : (c.begin scope w).1.Of c := by
  cases c with
  | fixed name status message => trivial
  | probe p => exact goOn_of _ p scope _ _
  | group name children =>
    simp only [Check.begin, World.gather]
    by_cases empty : children.isEmpty
    · simp only [if_pos empty]
      trivial
    · simp only [if_neg empty]
      cases w.cause? scope with
      | some cause => trivial
      | none => exact ⟨children, rfl, rfl, allOf_fresh fun _ mem => mem⟩
  | cached slot interval inner =>
    simp only [Check.begin]
    cases w.cache? slot <;> trivial
  | debounced slot budget inner => exact debounced_of (begin_of scope inner w) _

mutual
/-- **A step keeps a call a call of its check.** -/
theorem step_of (scope : ScopeId) {f : Flight} {c : Check} (of : f.Of c) (w : World) :
    (f.step scope w).1.Of c := by
  cases f with
  | fresh check =>
    cases (of : check = c)
    exact begin_of scope c w
  | pausing p wake heeds act =>
    cases (of : c = .probe p)
    simp only [Flight.step]
    cases (if heeds then w.cause? scope else none) with
    | some cause => trivial
    | none =>
      by_cases due : wake.any (· ≤ w.now)
      · simpa only [if_pos due] using goOn_of w p scope act.answer act.pauses
      · simp only [if_neg due]
        rfl
  | gathering name names g waiting =>
    obtain ⟨children, rfl, rfl, all⟩ := of
    simp only [Flight.step]
    cases w.cause? scope with
    | some cause => trivial
    | none =>
      have kept := stepAll_of scope all g w
      simp only
      split
      · trivial
      · exact ⟨children, rfl, rfl, kept⟩
  | debouncing slot budget name inner =>
    obtain ⟨d, rfl, rfl, of⟩ := of
    exact debounced_of (step_of scope of w) _
theorem stepAll_of (scope : ScopeId) {waiting : List (String × Flight)} {children : List Check}
    (all : AllOf waiting children) (g : Gathered) (w : World) :
    AllOf (stepAll scope waiting g w).1 children := by
  cases waiting with
  | nil => trivial
  | cons child rest =>
    obtain ⟨name, flight⟩ := child
    obtain ⟨⟨c, mem, named, of⟩, all⟩ := all
    have kept := step_of scope of w
    simp only [stepAll]
    cases taken : (flight.step scope w).1 with
    | still next =>
      rw [taken] at kept
      exact ⟨⟨c, mem, named, kept⟩, stepAll_of scope all _ _⟩
    | done o => exact stepAll_of scope all _ _
    | panicked => exact stepAll_of scope all _ _
end

/-! ## What debounced checks are shown -/

private theorem pauseJournal_in (w : World) (p : Probe) (scope : ScopeId) (pauses : List Pause)
    (c : Check) : ∀ d ∈ w.pauseJournal p scope pauses, d.In c := by
  induction pauses with
  | nil => simp [World.pauseJournal, Deed.In]
  | cons pause rest ih =>
    simp only [World.pauseJournal]
    cases (if pause.heeds then w.cause? scope else none) with
    | some cause => simp
    | none =>
      by_cases unwaited : pause.length = some 0
      · simpa only [if_pos unwaited] using ih
      · simp [if_neg unwaited]

private theorem debounceJournal_in (slot : Nat) (budget : UInt32) (d : Check) (t : Turn) :
    ∀ e ∈ World.debounceJournal slot budget d.name t, e.In (.debounced slot budget d) := by
  cases t with
  | done o => simpa [World.debounceJournal] using ⟨d, .self _, rfl⟩
  | still | panicked => simp [World.debounceJournal]

private theorem gatherJournal_in (name : String) (t : Turn) (c : Check) :
    ∀ d ∈ World.gatherJournal name t, d.In c := by
  cases t <;> simp [World.gatherJournal, Deed.In]

private theorem begin_observed (scope : ScopeId) (c : Check) (w : World) :
    ∀ d ∈ c.journal scope w, d.In c := by
  cases c with
  | fixed | cached => simp [Check.journal]
  | probe p => simpa [Check.journal, Deed.In] using pauseJournal_in _ p scope _ _
  | group name children =>
    simp only [Check.journal]
    by_cases empty : children.isEmpty
    · simp only [if_pos empty]
      exact List.forall_mem_nil _
    · simp only [if_neg empty]
      cases w.cause? scope <;> simp [World.interruptJournal, Deed.In]
  | debounced slot budget inner =>
    intro d mem
    rcases List.mem_append.mp mem with mem | mem
    · exact (begin_observed scope inner w d mem).mono (.debounced (.self _))
    · exact debounceJournal_in slot budget inner _ d mem

mutual
/-- **A call shows outcomes to debounced nodes of its own check only**, under their budgets and
names. -/
theorem observed_of (scope : ScopeId) {f : Flight} {c : Check} (of : f.Of c) (w : World) :
    ∀ d ∈ f.journal scope w, d.In c := by
  cases f with
  | fresh check =>
    cases (of : check = c)
    exact begin_observed scope c w
  | pausing p wake heeds act =>
    simp only [journal]
    cases (if heeds then w.cause? scope else none) with
    | some cause => simp
    | none =>
      by_cases due : wake.any (· ≤ w.now)
      · simpa only [if_pos due] using pauseJournal_in w p scope act.pauses c
      · simp [if_neg due]
  | gathering name names g waiting =>
    obtain ⟨children, rfl, rfl, all⟩ := of
    simp only [journal]
    cases w.cause? scope with
    | some cause => simp [World.interruptJournal, Deed.In]
    | none => exact observedAll_of scope all w
  | debouncing slot budget name inner =>
    obtain ⟨d, rfl, rfl, of⟩ := of
    intro e mem
    rcases List.mem_append.mp mem with mem | mem
    · exact (observed_of scope of w e mem).mono (.debounced (.self _))
    · exact debounceJournal_in slot budget d _ e mem
theorem observedAll_of (scope : ScopeId) {name : String} {waiting : List (String × Flight)}
    {children : List Check} (all : AllOf waiting children) (w : World) :
    ∀ d ∈ journalAll scope waiting w, d.In (.group name children) := by
  cases waiting with
  | nil => simp [journalAll]
  | cons child rest =>
    obtain ⟨key, flight⟩ := child
    obtain ⟨⟨c, mem, _, of⟩, all⟩ := all
    intro d listed
    simp only [journalAll, List.mem_append] at listed
    rcases listed with (listed | listed) | listed
    · exact (observed_of scope of w d listed).mono (.child mem (.self _))
    · exact gatherJournal_in key _ _ d listed
    · exact observedAll_of scope all _ d listed
end

end Flight

end HealthTree
