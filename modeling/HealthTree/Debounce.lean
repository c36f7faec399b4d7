import HealthTree.Event
import HealthTree.Metrics
import HealthTree.Outcome

/-!
# Debouncing: failures hidden for a while

A debounced check counts the failures of its inner check since the last success. Up to its budget
they are hidden behind that success; beyond it they are passed on. The count starts at the budget,
so the first observation is passed on whatever it is. Counting stops at the largest 32-bit number.
-/

namespace HealthTree

/-- What a debounced check keeps from call to call. -/
structure Debounce where
  /-- Failures since the last success. -/
  failures : Nat
  /-- What the last success reported. -/
  success : Health := .blank
  deriving Inhabited

namespace Debounce

/-- The count of failures goes no further. -/
def countLimit : Nat := UInt32.size - 1

/-- Before the first call. -/
def initial (budget : UInt32) : Debounce :=
  ⟨budget.toNat, .blank⟩

/-- The count after one more failure. -/
def countUp (d : Debounce) : Nat :=
  min (d.failures + 1) countLimit

/-- **What is kept after a call** of the inner check. -/
def after (d : Debounce) : Outcome → Debounce
  | .ok h => ⟨0, h⟩
  | .error _ => { d with failures := d.countUp }

/-- A failure is hidden while the count it makes is within the budget. -/
def hides (d : Debounce) (budget : UInt32) : Bool :=
  d.countUp ≤ budget.toNat

/-- **What is answered** for an outcome of the inner check. -/
def answer (d : Debounce) (budget : UInt32) : Outcome → Outcome
  | .ok h => .ok h
  | .error f => if d.hides budget then .ok d.success else .error f

/-- What is told of a call. -/
def events (d : Debounce) (name : String) (budget : UInt32) : Outcome → List Event
  | .ok _ => []
  | .error f =>
    if d.hides budget then [.faultSuppressed name d.countUp budget.toNat f.fault]
    else [.checkFailing name d.countUp f.fault]

/-- What a call adds to the metrics. -/
def record (d : Debounce) (name : String) (budget : UInt32) (m : Metrics) : Outcome → Metrics
  | .ok _ => m
  | .error _ => if d.hides budget then m.bump (.suppressed name) else m

end Debounce

end HealthTree
