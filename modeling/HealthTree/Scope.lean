import HealthTree.Fault

/-!
# Scopes: when a call has to end

A scope travels down the check tree with a call. It ends when it is cancelled or when its deadline
has come. Scopes are derived from one another: cancelling one cancels every scope derived from it,
and a derived scope never outlives its parent's deadline.

All scopes of a run are kept in a `Scopes` forest. A scope is a number, its place in the order of
creation, so a parent's number is below its children's (`Scopes.derive`). Cancelling marks the scope
and everything below it at once, and a scope derived from a cancelled one is born cancelled, so
`Scopes.cause?` looks at one node only.
-/

namespace HealthTree

/-- The number of a scope. -/
abbrev ScopeId := Nat

/-- What is known of one scope. -/
structure ScopeNode where
  /-- The scope this one was derived from. -/
  parent : Option ScopeId := none
  cancelled : Bool := false
  /-- The instant from which the scope has ended, in milliseconds. -/
  deadline : Option Nat := none
  deriving Inhabited, DecidableEq, Repr

/-- All scopes of a run, in the order of their creation. -/
structure Scopes where
  nodes : List ScopeNode := []
  deriving Inhabited, DecidableEq, Repr

namespace Scopes

/-- What is known of a scope. -/
def node? (s : Scopes) (i : ScopeId) : Option ScopeNode :=
  s.nodes[i]?

/-- The number the next scope gets. -/
def next (s : Scopes) : ScopeId :=
  s.nodes.length

/-- A scope that never ends on its own. -/
def background (s : Scopes) : ScopeId × Scopes :=
  (s.next, ⟨s.nodes ++ [({} : ScopeNode)]⟩)

/-- The deadline of a scope. -/
def deadline? (s : Scopes) (i : ScopeId) : Option Nat :=
  (s.node? i).bind (·.deadline)

/-- The scope was cancelled, or one that it comes from. -/
def isCancelled (s : Scopes) (i : ScopeId) : Bool :=
  (s.node? i).any (·.cancelled)

/-- The earlier of two deadlines, where no deadline is later than every one. -/
def earlier : Option Nat → Option Nat → Option Nat
  | some a, some b => some (min a b)
  | some a, none => some a
  | none, b => b

/-- **A scope derived from another**, with a deadline of its own if one is given. -/
def derive (s : Scopes) (parent : ScopeId) (deadline : Option Nat) : ScopeId × Scopes :=
  (s.next, ⟨s.nodes ++ [{
    parent := some parent
    cancelled := s.isCancelled parent
    deadline := earlier (s.deadline? parent) deadline }]⟩)

/-- A scope that can be cancelled apart from the one it comes from. -/
def withCancel (s : Scopes) (parent : ScopeId) : ScopeId × Scopes :=
  s.derive parent none

/-- A scope that ends `timeout` after `now` at the latest. -/
def withTimeout (s : Scopes) (parent : ScopeId) (now timeout : Nat) : ScopeId × Scopes :=
  s.derive parent (some (now + timeout))

/-- The nodes with `target` and everything derived from it cancelled. `done` are the nodes already
gone through, in their order. -/
def markBelow (target : ScopeId) : List ScopeNode → List ScopeNode → List ScopeNode
  | done, [] => done
  | done, n :: rest =>
    let above := match n.parent with
      | some p => (done[p]?).any (·.cancelled)
      | none => false
    let cancelled := n.cancelled || done.length == target || above
    markBelow target (done ++ [{ n with cancelled := cancelled }]) rest

/-- **Cancel a scope** and everything derived from it. -/
def cancel (s : Scopes) (i : ScopeId) : Scopes :=
  ⟨markBelow i [] s.nodes⟩

/-- **Why a scope has ended**, or `none` while it is live. Cancellation is told before a
deadline. -/
def cause? (s : Scopes) (now : Nat) (i : ScopeId) : Option Fault :=
  if s.isCancelled i then some .cancelled
  else match s.deadline? i with
    | some d => if d ≤ now then some .deadlineExceeded else none
    | none => none

/-- The scope has ended. -/
def ended (s : Scopes) (now : Nat) (i : ScopeId) : Bool :=
  (s.cause? now i).isSome

end Scopes

end HealthTree
