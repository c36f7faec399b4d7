import HealthTree.Proofs.Interleaving
import HealthTree.Proofs.Lighter

/-!
# Machines that settle

A machine settles round after round while a round leaves less to do. If every step of a job changes
nothing or leaves less to do, and makes no tick due, then so it is with a round: some job leaves less
to do in it, or no job changes anything (`Settles.turns_lighter`). So when a machine has settled, no
step of any job changes anything (`Settles.settle_still`).
-/

namespace HealthTree

theorem sumOf_le {α : Type} {count count' : α → Nat} (le : ∀ x, count x ≤ count' x) (xs : List α) :
    sumOf count xs ≤ sumOf count' xs := by
  induction xs with
  | nil => exact Nat.le_refl 0
  | cons x xs ih => exact Nat.add_le_add (le x) ih

namespace Machine

/-- No step of a job changes anything. -/
def Still (m : Machine) : Prop :=
  ∀ p ∈ m.jobs, p.2.step p.1 m.world = (.going p.2, none, m.world)

/-- **Machines of which this holds settle**: it is kept by the steps of jobs, each of which changes
nothing or leaves less to do, and makes no tick due. -/
structure Settles (I : Machine → Prop) : Prop where
  turn : ∀ (m : Machine) i, I m → I (m.takeTurn i)
  lighter : ∀ m, I m → ∀ p ∈ m.jobs, p.2.step p.1 m.world = (.going p.2, none, m.world) ∨
    stepWeight (p.2.step p.1 m.world) < p.2.weight m.world
  due : ∀ m, I m → ∀ p ∈ m.jobs, ∀ slot scope,
    (p.2.step p.1 m.world).2.2.Due slot scope → m.world.Due slot scope

namespace Settles

variable {I : Machine → Prop} {m : Machine}

/-- **The first job changes nothing in its step**, or less is left to do. -/
theorem turn_lighter (settles : Settles I) (kept : I m) {p : JobId × Job}
    {rest : List (JobId × Job)} (jobs : m.jobs = p :: rest) :
    p.2.step p.1 m.world = (.going p.2, none, m.world) ∧
        m.takeTurn 0 = { m with jobs := rest ++ [p] } ∨
      (m.takeTurn 0).weight < m.weight := by
  obtain ⟨id, job⟩ := p
  have mem : (id, job) ∈ m.jobs := jobs ▸ List.mem_cons_self
  have dues := settles.due m kept _ mem
  have makes := (job.step_later id m.world).makes
  have taken : m.takeTurn 0 = {
      world := (job.step id m.world).2.2
      jobs := rest ++ ((job.step id m.world).1.left id ++ (job.step id m.world).2.1.toList)
      finished :=
        (job.step id m.world).1.result id (job.step id m.world).2.2.now ++ m.finished } := by
    unfold Machine.takeTurn
    rw [jobs]
    rfl
  rw [taken]
  rcases settles.lighter m kept _ mem with same | less
  · refine .inl ⟨same, ?_⟩
    rw [same]
    rfl
  · right
    rcases stepped : job.step id m.world with ⟨turn, spawned, w⟩
    rw [stepped] at dues makes less
    have others : sumOf (fun p => p.2.weight w) rest ≤ sumOf (fun p => p.2.weight m.world) rest :=
      sumOf_le (fun p => p.2.weight_le makes dues) rest
    have left : sumOf (fun p => p.2.weight w) (turn.left id) = turn.weight w := by
      cases turn with
      | going job => exact Nat.add_zero _
      | finished | gone => rfl
    have started : sumOf (fun p => p.2.weight w) spawned.toList = spawnedWeight w spawned := by
      cases spawned with
      | none => rfl
      | some p => exact Nat.add_zero _
    unfold stepWeight at less
    unfold Machine.weight
    simp only [jobs, sumOf_append, sumOf_cons, left, started]
    simp only at less
    omega

/-- **Jobs that take their steps one after the other leave less to do, or none changes anything** but
their order. -/
theorem turns_lighter (settles : Settles I) (kept : I m) (front back : List (JobId × Job))
    (jobs : m.jobs = front ++ back) :
    (∀ p ∈ front, p.2.step p.1 m.world = (.going p.2, none, m.world)) ∧
        m.takeTurns (List.replicate front.length 0) = { m with jobs := back ++ front } ∨
      (m.takeTurns (List.replicate front.length 0)).weight < m.weight := by
  induction front generalizing m back with
  | nil =>
    refine .inl ⟨nofun, ?_⟩
    rw [List.append_nil, ← show m.jobs = back from jobs]
    rfl
  | cons p front ih =>
    have first := settles.turn_lighter kept jobs
    have kept' := settles.turn m 0 kept
    show _ ∧ (m.takeTurn 0).takeTurns _ = _ ∨ ((m.takeTurn 0).takeTurns _).weight < _
    rcases first with ⟨still, same⟩ | less
    · have jobs' : (m.takeTurn 0).jobs = front ++ (back ++ [p]) := by
        rw [same]
        exact List.append_assoc ..
      have world : (m.takeTurn 0).world = m.world := by rw [same]
      rcases ih kept' _ jobs' with ⟨all, same'⟩ | less
      · refine .inl ⟨?_, ?_⟩
        · intro q mem
          rcases List.mem_cons.mp mem with rfl | mem
          · exact still
          · exact world ▸ all q mem
        · rw [same', same, List.append_assoc]
          rfl
      · have weight : (m.takeTurn 0).weight = m.weight := by
          unfold Machine.weight
          rw [world, jobs', jobs]
          simp only [sumOf_append, sumOf_cons, sumOf_nil]
          omega
        exact .inr (weight ▸ less)
    · have back' : ∃ back', (m.takeTurn 0).jobs = front ++ back' := by
        unfold Machine.takeTurn
        rw [jobs]
        exact ⟨_, List.append_assoc ..⟩
      obtain ⟨back', jobs'⟩ := back'
      rcases ih kept' _ jobs' with ⟨-, same⟩ | less'
      · right
        have weight : (m.takeTurn 0).weight =
            ({ m.takeTurn 0 with jobs := back' ++ front } : Machine).weight := by
          unfold Machine.weight
          rw [jobs']
          simp only [sumOf_append]
          omega
        rw [same, ← weight]
        exact less
      · exact .inr (Nat.lt_trans less' less)

/-- What steps of jobs keep, many of them keep. -/
theorem takeTurns (settles : Settles I) (kept : I m) (turns : List Nat) : I (m.takeTurns turns) := by
  induction turns generalizing m with
  | nil => exact kept
  | cons i rest ih => exact ih (settles.turn m i kept)

/-- **What every step of a job keeps is kept while a machine settles.** -/
theorem settle_keeps {J : Machine → Prop} (settles : Settles I)
    (turn : ∀ (m : Machine) i, I m → J m → J (m.takeTurn i)) (kept : I m) (also : J m) :
    J m.settle := by
  obtain ⟨turns, taken⟩ := m.settle_turns
  rw [taken]
  clear taken
  induction turns generalizing m with
  | nil => exact also
  | cons i rest ih => exact ih (settles.turn m i kept) (turn m i kept also)

theorem settle (settles : Settles I) (kept : I m) : I m.settle :=
  settles.settle_keeps (fun m i kept _ => settles.turn m i kept) kept kept

/-- **If a round leaves no less to do, no step of a job changes anything**, and it leaves the machine as
it was. -/
theorem still_of_round (settles : Settles I) (kept : I m) (heavier : ¬ m.round.weight < m.weight) :
    m.Still ∧ m.round = m := by
  have all := settles.turns_lighter kept m.jobs [] (List.append_nil _).symm
  rw [← round_turns] at all
  rcases all with same | less
  · exact same
  · exact absurd less heavier

/-- **When a machine has settled, no step of a job changes anything.** -/
theorem settle_still (settles : Settles I) (kept : I m) : m.settle.Still := by
  induction m using Machine.settle.induct with
  | case1 m m' lighter ih =>
    rw [Machine.settle, if_pos lighter]
    apply ih
    simp only [m', round_turns]
    exact settles.takeTurns kept _
  | case2 m m' heavier =>
    rw [Machine.settle, if_neg heavier]
    obtain ⟨still, same⟩ := settles.still_of_round kept heavier
    rw [same]
    exact still

end Settles

end Machine

end HealthTree
