import HealthTree.Outcome

/-!
# Probes: leaves that play a script

A probe stands for the caller's own code. What it does is written down: a script of acts, one per
call, the last of which is played from then on. An act first waits through its pauses, one after
the other, then answers. A pause that heeds the scope is given up when the scope ends; one that does
not is slept through. A pause without length never ends, so a probe that hangs is a script too.
-/

namespace HealthTree

/-- A wait within a call. -/
structure Pause where
  /-- In milliseconds; `none` never ends. -/
  length : Option Nat
  /-- The end of the scope ends the wait, and the call with it. -/
  heeds : Bool
  deriving Inhabited, DecidableEq, Repr

/-- What a call answers once it has waited. -/
inductive Answer where
  /-- This outcome. -/
  | outcome (o : Outcome)
  /-- Degraded, with the number of calls completed so far as its message. -/
  | tally
  /-- Healthy, or the cause if the scope has ended. -/
  | scope
  /-- The call panics. -/
  | panic
  deriving Inhabited

/-- One call of a probe. -/
structure Act where
  pauses : List Pause
  answer : Answer
  deriving Inhabited

/-- A leaf that plays a script. -/
structure Probe where
  /-- The name of the leaf. -/
  name : String
  /-- What its calls are counted under; probes may share it. -/
  id : String
  first : Act
  rest : List Act
  deriving Inhabited

namespace Act

/-- The sum of the pauses, those without end left out. -/
def length (a : Act) : Nat :=
  a.pauses.foldl (fun sum pause => sum + pause.length.getD 0) 0

end Act

namespace Probe

/-- The act of call number `n`, from zero: the last act stands for every later call. -/
def act (p : Probe) (n : Nat) : Act :=
  ((p.first :: p.rest)[n]?).getD ((p.first :: p.rest).getLastD p.first)

/-- Every act of a probe is one of its script. -/
theorem act_mem (p : Probe) (n : Nat) : p.act n ∈ p.first :: p.rest := by
  unfold act
  cases listed : (p.first :: p.rest)[n]? with
  | some a => exact List.mem_of_getElem? listed
  | none =>
    rw [Option.getD_none, List.getLastD_eq_getLast?, List.getLast?_eq_some_getLast (by simp)]
    exact List.getLast_mem _

/-- No call takes longer than this, unless it never ends. -/
def longest (p : Probe) : Nat :=
  ((p.first :: p.rest).map Act.length).foldl max 0

/-- No act has more pauses than this. -/
def mostPauses (p : Probe) : Nat :=
  ((p.first :: p.rest).map (·.pauses.length)).foldl max 0

theorem pauses_le (p : Probe) (n : Nat) : (p.act n).pauses.length ≤ p.mostPauses := by
  have listed : (p.act n).pauses.length ∈ (p.first :: p.rest).map (·.pauses.length) :=
    List.mem_map_of_mem (p.act_mem n)
  rw [mostPauses, List.foldl_max]
  exact Nat.le_trans (List.le_max?_getD_of_mem listed) (Nat.le_max_right _ _)

end Probe

/-- How often a probe was called, and how many of the calls came to an answer. -/
structure Calls where
  started : Nat := 0
  completed : Nat := 0
  deriving Inhabited, DecidableEq, Repr

end HealthTree
