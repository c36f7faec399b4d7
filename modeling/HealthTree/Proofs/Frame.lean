import HealthTree.Job
import HealthTree.Proofs.Journal

/-!
# What refreshes and loops leave alone

A cache is made of four parts that change for reasons of their own: what it is made of never
changes, its lock changes when a refresh asks for it or is over, its state when an outcome is
committed, and its loop when it is started, stopped or ticks. `World.makes`, `World.locks`,
`World.states` and `World.loops` are these parts of all caches. Here each operation on the world is
described by what it does to the part it is about; the others it leaves alone.
-/

namespace HealthTree

/-- The lock of a cache: who holds it, and who waits for it. -/
abbrev Lock := Option JobId × List JobId

namespace Cache

/-- What a cache is made of: the check it is refreshed from, and how often. -/
def make (c : Cache) : Check × Nat :=
  (c.inner, c.interval)

/-- The lock of a cache. -/
def lock (c : Cache) : Lock :=
  (c.holder, c.waiting)

end Cache

/-- A part of the elements that a change keeps is kept in the list. -/
theorem map_modify_same {α β : Type} {f : α → α} {part : α → β} (same : ∀ a, part (f a) = part a)
    (l : List α) (i : Nat) : (l.modify i f).map part = l.map part := by
  induction l generalizing i with
  | nil => simp
  | cons a rest ih =>
    cases i with
    | zero => simp [same]
    | succ i => simp [ih]

/-- A part of the elements that changes by itself changes by itself in the list. -/
theorem map_modify_comm {α β : Type} {f : α → α} {part : α → β} {g : β → β}
    (comm : ∀ a, part (f a) = g (part a)) (l : List α) (i : Nat) :
    (l.modify i f).map part = (l.map part).modify i g := by
  induction l generalizing i with
  | nil => simp
  | cons a rest ih =>
    cases i with
    | zero => simp [comm]
    | succ i => simp [ih]

namespace World

/-- What each cache is made of. -/
def makes (w : World) : List (Check × Nat) :=
  w.caches.map Cache.make

/-- The lock of each cache. -/
def locks (w : World) : List Lock :=
  w.caches.map Cache.lock

/-- The state of each cache. -/
def states (w : World) : List (Option Snapshot) :=
  w.caches.map (·.state)

/-- The loop of each cache. -/
def loops (w : World) : List (Option Loop) :=
  w.caches.map (·.loop)

variable (w : World) (slot : Nat) (id : JobId) (c : Cache) (o : Outcome) (es : List Event)

/-! ## A change of one cache -/

theorem makes_modifyCache {f : Cache → Cache} (same : ∀ c, (f c).make = c.make) :
    (w.modifyCache slot f).makes = w.makes :=
  map_modify_same same w.caches slot

theorem locks_modifyCache {f : Cache → Cache} {g : Lock → Lock}
    (comm : ∀ c, (f c).lock = g c.lock) :
    (w.modifyCache slot f).locks = w.locks.modify slot g :=
  map_modify_comm comm w.caches slot

theorem locks_modifyCache_same {f : Cache → Cache} (same : ∀ c, (f c).lock = c.lock) :
    (w.modifyCache slot f).locks = w.locks :=
  map_modify_same same w.caches slot

theorem states_modifyCache {f : Cache → Cache} {g : Option Snapshot → Option Snapshot}
    (comm : ∀ c, (f c).state = g c.state) :
    (w.modifyCache slot f).states = w.states.modify slot g :=
  map_modify_comm comm w.caches slot

theorem states_modifyCache_same {f : Cache → Cache} (same : ∀ c, (f c).state = c.state) :
    (w.modifyCache slot f).states = w.states :=
  map_modify_same same w.caches slot

theorem loops_modifyCache {f : Cache → Cache} {g : Option Loop → Option Loop}
    (comm : ∀ c, (f c).loop = g c.loop) :
    (w.modifyCache slot f).loops = w.loops.modify slot g :=
  map_modify_comm comm w.caches slot

theorem loops_modifyCache_same {f : Cache → Cache} (same : ∀ c, (f c).loop = c.loop) :
    (w.modifyCache slot f).loops = w.loops :=
  map_modify_same same w.caches slot

/-! ## Locks -/

@[simp] theorem locks_tell : (w.tell es).locks = w.locks := rfl

@[simp] theorem locks_commit : (w.commit slot c o).locks = w.locks :=
  locks_modifyCache_same _ slot fun _ => rfl

theorem locks_lock :
    (w.lock slot id).locks = w.locks.modify slot fun l => (some id, l.2.filter (· != id)) :=
  locks_modifyCache w slot fun _ => rfl

theorem locks_unlock : (w.unlock slot).locks = w.locks.modify slot fun l => (none, l.2) :=
  locks_modifyCache w slot fun _ => rfl

theorem locks_enqueue :
    (w.enqueue slot id).locks = w.locks.modify slot fun l => (l.1, l.2 ++ [id]) :=
  locks_modifyCache w slot fun _ => rfl

theorem locks_dequeue :
    (w.dequeue slot id).locks = w.locks.modify slot fun l => (l.1, l.2.filter (· != id)) :=
  locks_modifyCache w slot fun _ => rfl

/-! ## States -/

theorem states_commit :
    (w.commit slot c o).states = w.states.modify slot fun _ => some (.ofOutcome o) :=
  states_modifyCache _ slot fun _ => rfl

@[simp] theorem states_lock : (w.lock slot id).states = w.states :=
  states_modifyCache_same w slot fun _ => rfl

@[simp] theorem states_unlock : (w.unlock slot).states = w.states :=
  states_modifyCache_same w slot fun _ => rfl

end World

/-! ## Going on at the same instant -/

/-- **One world comes after another at the same instant**: no time has passed, no scope was
cancelled and new ones were only added, the caches are made of what they were made of, and it is as
before what a scope that has ended leaves time for. -/
structure World.Later (w w' : World) : Prop where
  now : w'.now = w.now
  scopes : ∃ new, w'.scopes.nodes = w.scopes.nodes ++ new
  makes : w'.makes = w.makes
  grace : w'.grace = w.grace

/-- **And no call has gone on**: how often probes were called is the same, what debounced checks
keep, and the count of the failures they hid. -/
structure World.Aside (w w' : World) : Prop extends w.Later w' where
  calls : w'.calls = w.calls
  debounces : w'.debounces = w.debounces
  hidden : ∀ name, w'.metrics.count (.suppressed name) = w.metrics.count (.suppressed name)

namespace World.Later

theorem trans {w w' w'' : World} (first : w.Later w') (second : w'.Later w'') : w.Later w'' := by
  obtain ⟨new, scopes⟩ := first.scopes
  obtain ⟨new', scopes'⟩ := second.scopes
  exact ⟨second.now.trans first.now, ⟨new ++ new', by rw [scopes', scopes, List.append_assoc]⟩,
    second.makes.trans first.makes, second.grace.trans first.grace⟩

theorem next_le {w w' : World} (later : w.Later w') : w.scopes.next ≤ w'.scopes.next := by
  obtain ⟨new, scopes⟩ := later.scopes
  simp only [Scopes.next, scopes, List.length_append]
  exact Nat.le_add_right _ _

end World.Later

theorem World.performAll_later (w : World) (deeds : List Deed) : w.Later (w.performAll deeds) :=
  ⟨w.performAll_now deeds, ⟨[], by simp⟩, by simp [makes], w.performAll_grace deeds⟩

theorem Flight.step_later (scope : ScopeId) (f : Flight) (w : World) :
    w.Later (f.step scope w).2 :=
  f.step_world scope w ▸ w.performAll_later _

theorem Metrics.count_set (m : Metrics) (s t : Series) (n : Nat) :
    (m.set s n).count t = if t = s then n else m.count t := by
  simp only [count, get?_set]
  split <;> rfl

theorem Metrics.count_bump (m : Metrics) (s t : Series) :
    (m.bump s).count t = m.count t + if t = s then 1 else 0 := by
  rw [Metrics.bump, Metrics.count_set]
  split
  · rename_i same
    rw [same]
  · rfl

namespace World.Aside

variable (w : World)

theorem refl : w.Aside w :=
  ⟨⟨rfl, ⟨[], (List.append_nil _).symm⟩, rfl, rfl⟩, rfl, rfl, fun _ => rfl⟩

theorem trans {w w' w'' : World} (first : w.Aside w') (second : w'.Aside w'') : w.Aside w'' :=
  ⟨first.toLater.trans second.toLater, second.calls.trans first.calls,
    second.debounces.trans first.debounces,
    fun name => (second.hidden name).trans (first.hidden name)⟩

theorem tell (es : List Event) : w.Aside (w.tell es) :=
  ⟨⟨rfl, ⟨[], (List.append_nil _).symm⟩, rfl, rfl⟩, rfl, rfl, fun _ => rfl⟩

theorem modifyCache (slot : Nat) {f : Cache → Cache} (same : ∀ c, (f c).make = c.make) :
    w.Aside (w.modifyCache slot f) :=
  ⟨⟨rfl, ⟨[], (List.append_nil _).symm⟩, makes_modifyCache w slot same, rfl⟩, rfl, rfl,
    fun _ => rfl⟩

theorem derive (scope : ScopeId) (deadline : Option Nat) :
    w.Aside { w with scopes := (w.scopes.derive scope deadline).2 } :=
  ⟨⟨rfl, ⟨_, rfl⟩, rfl, rfl⟩, rfl, rfl, fun _ => rfl⟩

theorem spawn : w.Aside { w with nextJob := w.nextJob + 1 } :=
  ⟨⟨rfl, ⟨[], (List.append_nil _).symm⟩, rfl, rfl⟩, rfl, rfl, fun _ => rfl⟩

variable (slot : Nat) (id : JobId) (c : Cache) (o : Outcome)

theorem lock : w.Aside (w.lock slot id) := modifyCache w slot fun _ => rfl

theorem unlock : w.Aside (w.unlock slot) := modifyCache w slot fun _ => rfl

theorem enqueue : w.Aside (w.enqueue slot id) := modifyCache w slot fun _ => rfl

theorem dequeue : w.Aside (w.dequeue slot id) := modifyCache w slot fun _ => rfl

theorem commit : w.Aside (w.commit slot c o) where
  now := rfl
  scopes := ⟨[], (List.append_nil _).symm⟩
  makes := makes_modifyCache _ slot fun _ => rfl
  grace := rfl
  calls := rfl
  debounces := rfl
  hidden name := by
    simp [World.commit, World.tell, World.modifyCache, Metrics.bump, Metrics.count_set]

end World.Aside

end HealthTree
