import HealthTree.Text.Quoted

/-!
# Faults: why a check does not pass

A probe's own fault is a text that nothing here looks into. The other faults are found here: the
caller's scope was cancelled or ran past its deadline, a background check has nothing to serve yet,
a child panicked, or some children of a group failed. The last carries the fault recorded last, so
that an interruption can be seen through any number of groups (`Fault.interrupts`).
-/

namespace HealthTree

/-- Why a check does not pass. -/
inductive Fault where
  /-- A probe's own words. -/
  | probe (message : String)
  /-- The caller's scope was cancelled. -/
  | cancelled
  /-- The caller's scope ran past its deadline. -/
  | deadlineExceeded
  /-- The background check `name` has completed no refresh. -/
  | pending (name : String)
  /-- The child `name` panicked. -/
  | panicked (name : String)
  /-- Of `total` children `failed` failed, the one recorded last for `last`. -/
  | aggregate (failed total : Nat) (last : Fault)
  deriving DecidableEq, Repr, Inhabited

namespace Fault

/-- The fault in words. -/
def message : Fault → String
  | probe m => m
  | cancelled => "context cancelled"
  | deadlineExceeded => "context deadline exceeded"
  | pending name => "check " ++ Text.quote name ++ " has not completed a refresh yet"
  | panicked name => "check " ++ Text.quote name ++ " panicked"
  | aggregate failed total _ => toString failed ++ " of " ++ toString total ++ " services failed"

/-- **The fault comes from an ended scope**: it is one of the two, or an aggregate of one. -/
def interrupts : Fault → Bool
  | cancelled | deadlineExceeded => true
  | aggregate _ _ last => last.interrupts
  | _ => false

/-- The fault this one wraps. -/
def source? : Fault → Option Fault
  | aggregate _ _ last => some last
  | _ => none

end Fault

end HealthTree
