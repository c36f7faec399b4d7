import HealthTree.Fault
import HealthTree.Health

/-!
# Outcomes of a check

A check either passes with its health or fails with a fault. The two are not exclusive: a failure
carries the health as well, so a failed group still shows its whole subtree.

A `Snapshot` is an outcome kept to be served again; `Snapshot.replay_ofOutcome` says that keeping
and serving changes nothing.
-/

namespace HealthTree

/-- A failed check: the fault and the health it came with. -/
structure Failure where
  health : Health
  fault : Fault
  deriving Inhabited

namespace Failure

/-- A failure whose health is an unhealthy leaf in the fault's words. -/
def ofFault (fault : Fault) : Failure :=
  ⟨.unhealthy fault.message, fault⟩

/-- The health with a status and a message that fit a failure: an unset or passing status becomes
unhealthy, and a leaf without a message takes the fault's words. -/
def normalHealth (health : Health) (fault : Fault) : Health :=
  let h := health.resolve
  let status := match h.status with
    | some s => if s.passing then .unhealthy else s
    | none => .unhealthy
  let message := if h.message.isEmpty && h.services.isEmpty then fault.message else h.message
  ⟨some status, message, h.services⟩

/-- **The health brought in line with the fault.** -/
def normalized (f : Failure) : Failure :=
  ⟨normalHealth f.health f.fault, f.fault⟩

end Failure

/-- What one call of a check comes to. -/
abbrev Outcome := Except Failure Health

namespace Outcome

/-- The health of either side. -/
def health : Outcome → Health
  | .ok h => h
  | .error f => f.health

/-- The fault of a failure. -/
def fault? : Outcome → Option Fault
  | .ok _ => none
  | .error f => some f.fault

end Outcome

/-- A health with the fault, if any, that it came with. -/
structure Snapshot where
  health : Health := .blank
  fault : Option Fault := none
  deriving Inhabited

namespace Snapshot

/-- Keep an outcome. -/
def ofOutcome : Outcome → Snapshot
  | .ok h => ⟨h, none⟩
  | .error f => ⟨f.health, some f.fault⟩

/-- Serve a kept outcome. -/
def replay (s : Snapshot) : Outcome :=
  match s.fault with
  | none => .ok s.health
  | some fault => .error ⟨s.health, fault⟩

/-- The kept outcome was no failure. -/
def isOk (s : Snapshot) : Bool :=
  s.fault.isNone

/-- Nothing is said, and no fault is known. -/
def isBlank (s : Snapshot) : Bool :=
  s.fault.isNone && s.health == .blank

theorem replay_ofOutcome (o : Outcome) : (ofOutcome o).replay = o := by
  cases o <;> rfl

theorem fault_ofOutcome (o : Outcome) : (ofOutcome o).fault = o.fault? := by
  cases o <;> rfl

theorem ofOutcome_replay (s : Snapshot) : ofOutcome s.replay = s := by
  rcases s with ⟨h, _ | f⟩ <;> rfl

end Snapshot

end HealthTree
