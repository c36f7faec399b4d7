import HealthTree.Proofs.Turns

/-!
# Counting the calls of probes

Of each probe it is counted how many of its calls have begun and how many have come to an answer or a
panic. These are the two edges of a call, and both counts grow in the same way: with each step of a
job, by the deeds of the step that cross the edge (`Job.step_crossings`).
-/

namespace HealthTree

/-- The two ends of a probe's call. -/
inductive Edge where
  | start
  | finish
  deriving DecidableEq, Repr

/-- How many calls have crossed this edge. -/
def Calls.at (c : Calls) : Edge → Nat
  | .start => c.started
  | .finish => c.completed

/-- The probe whose call crosses this edge with a deed. -/
def Deed.crosses? (edge : Edge) : Deed → Option String
  | .startCall id => match edge with
    | .start => some id
    | .finish => none
  | .completeCall id => match edge with
    | .start => none
    | .finish => some id
  | .observe _ _ _ _ | .tell _ => none

/-- The probes whose calls cross this edge with these deeds. -/
def crossings (edge : Edge) (deeds : List Deed) : List String :=
  deeds.filterMap (Deed.crosses? edge)

theorem crossings_append (edge : Edge) (deeds more : List Deed) :
    crossings edge (deeds ++ more) = crossings edge deeds ++ crossings edge more :=
  List.filterMap_append

namespace World

theorem lookup_filter_ne {α : Type} (l : List (String × α)) {key other : String}
    (apart : other ≠ key) :
    (l.filter (·.1 != key)).lookup other = l.lookup other := by
  induction l with
  | nil => rfl
  | cons p rest ih =>
    obtain ⟨k, a⟩ := p
    by_cases gone : k = key
    · subst gone
      rw [List.filter_cons_of_neg (by simp), ih, List.lookup_cons, beq_false_of_ne apart]
    · rw [List.filter_cons_of_pos (by simpa using gone), List.lookup_cons, List.lookup_cons, ih]

theorem callsOf_setCalls (w : World) (id other : String) (c : Calls) :
    (w.setCalls id c).callsOf other = if other = id then c else w.callsOf other := by
  simp only [callsOf, setCalls, List.lookup_append]
  by_cases same : other = id
  · subst same
    have none : (w.calls.filter (·.1 != other)).lookup other = none := by
      rw [List.lookup_eq_none_iff]
      intro p mem
      exact bne_comm.trans (List.mem_filter.mp mem).2
    simp [none]
  · rw [if_neg same, lookup_filter_ne _ same]
    simp [List.lookup_cons, beq_false_of_ne same]

variable (w : World) (edge : Edge)

theorem perform_at (d : Deed) (id : String) :
    ((w.perform d).callsOf id).at edge = (w.callsOf id).at edge + (crossings edge [d]).count id := by
  cases d with
  | observe | tell => rfl
  | startCall there | completeCall there =>
    simp only [perform, startCall, completeCall, callsOf_setCalls]
    by_cases same : id = there
    · subst same
      cases edge <;> simp [Calls.at, crossings, List.filterMap_cons, Deed.crosses?]
    · cases edge <;>
        simp [Calls.at, crossings, List.filterMap_cons, Deed.crosses?, same, Ne.symm same]

/-- **Calls are counted as they cross an edge.** -/
theorem performAll_at (deeds : List Deed) (id : String) :
    ((w.performAll deeds).callsOf id).at edge =
      (w.callsOf id).at edge + (crossings edge deeds).count id := by
  induction deeds generalizing w with
  | nil => rfl
  | cons d rest ih =>
    rw [performAll_cons, ih, perform_at, Nat.add_assoc, ← List.count_append, ← crossings_append,
      List.singleton_append]

end World

/-- **The counts of a probe grow with the deeds of each step.** -/
theorem Job.step_crossings (edge : Edge) (id : JobId) (w : World) (job : Job) (probe : String) :
    ((job.step id w).2.2.callsOf probe).at edge =
      (w.callsOf probe).at edge + (crossings edge (job.deeds id w)).count probe := by
  obtain ⟨w₁, before, after⟩ := job.step_deeds id w
  rw [World.callsOf, after.calls, ← World.callsOf, World.performAll_at, World.callsOf, before.calls]
  rfl

end HealthTree
