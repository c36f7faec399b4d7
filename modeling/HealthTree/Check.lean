import HealthTree.Check.Probe

/-!
# Check trees

A check is a leaf with a fixed outcome, a probe, a group of checks called together, a check served
from a cache that is refreshed in the background, or a check whose failures are hidden for a while.
The last two keep something from call to call; what they keep is held apart from the tree, under the
number they carry, so one node used at several places shares it.
-/

namespace HealthTree

/-- A node of a check tree. -/
inductive Check where
  /-- Always the same status and message. -/
  | fixed (name : String) (status : Status) (message : String)
  /-- The caller's own code. -/
  | probe (p : Probe)
  /-- The children called together, their health merged by name. -/
  | group (name : String) (children : List Check)
  /-- The cache numbered `slot`, refreshed from `inner` every `interval` milliseconds. -/
  | cached (slot : Nat) (interval : Nat) (inner : Check)
  /-- Up to `budget` failures of `inner` in a row are hidden; counted under `slot`. -/
  | debounced (slot : Nat) (budget : UInt32) (inner : Check)
  deriving Inhabited

namespace Check

/-- The name a check goes by inside a group; a decorated check keeps its own. -/
def name : Check → String
  | fixed name _ _ => name
  | probe p => p.name
  | group name _ => name
  | cached _ _ inner => inner.name
  | debounced _ _ inner => inner.name

/-- The outcome of a fixed leaf. -/
def fixedOutcome (name : String) (status : Status) (message : String) : Outcome :=
  if status.passing then .ok (.leaf status message)
  else .error ⟨.leaf status message,
    .probe (if message.isEmpty then name ++ " is " ++ status.word else message)⟩

mutual
/-- How long a call can take at most while its scope is live, unless it never ends. A cache answers
at once. -/
def longest : Check → Nat
  | fixed _ _ _ => 0
  | probe p => p.longest
  | group _ children => longestOf children
  | cached _ _ _ => 0
  | debounced _ _ inner => inner.longest
/-- The same for checks called together. -/
def longestOf : List Check → Nat
  | [] => 0
  | c :: rest => max c.longest (longestOf rest)
end

mutual
/-- The probes below a check, in declaration order, those behind caches included. -/
def probes : Check → List Probe
  | fixed _ _ _ => []
  | probe p => [p]
  | group _ children => probesOf children
  | cached _ _ inner => inner.probes
  | debounced _ _ inner => inner.probes
/-- The probes below several checks. -/
def probesOf : List Check → List Probe
  | [] => []
  | c :: rest => c.probes ++ probesOf rest
end

end Check

end HealthTree
