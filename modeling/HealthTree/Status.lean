import HealthTree.Text.Blank

/-!
# Statuses and their order

A status is one of four words, ordered by severity: healthy, degraded, partially unhealthy,
unhealthy. The first two **pass**: they come without a fault. Reading a status word never fails:
blanks around it and ASCII case do not matter, and a word that is none of the four counts as
unhealthy (`Status.read`), so that a misspelt status is seen and not hidden.
-/

namespace HealthTree

/-- How well a node is, from best to worst. -/
inductive Status where
  | healthy
  | degraded
  | partiallyUnhealthy
  | unhealthy
  deriving DecidableEq, Repr, Inhabited

namespace Status

/-- The number of better statuses; the value of a status gauge. -/
def severity : Status → Nat
  | healthy => 0
  | degraded => 1
  | partiallyUnhealthy => 2
  | unhealthy => 3

/-- The word a status is written as. -/
def word : Status → String
  | healthy => "healthy"
  | degraded => "degraded"
  | partiallyUnhealthy => "partially_unhealthy"
  | unhealthy => "unhealthy"

/-- A passing status comes without a fault. -/
def passing : Status → Bool
  | healthy | degraded => true
  | partiallyUnhealthy | unhealthy => false

instance : LE Status where
  le a b := a.severity ≤ b.severity

instance : LT Status where
  lt a b := a.severity < b.severity

instance (a b : Status) : Decidable (a ≤ b) := inferInstanceAs (Decidable (a.severity ≤ b.severity))

instance (a b : Status) : Decidable (a < b) := inferInstanceAs (Decidable (a.severity < b.severity))

instance : Max Status where
  max a b := if a ≤ b then b else a

instance : Min Status where
  min a b := if a ≤ b then a else b

/-- A status word without the blanks around it, in lower case. -/
def normalWord (s : String) : String :=
  Text.asciiLower (Text.trim s)

/-- The status a normal word names. `partiallyunhealthy` is the second spelling of its status. -/
def ofWord? (s : String) : Option Status :=
  if s = "healthy" then some healthy
  else if s = "degraded" then some degraded
  else if s = "partially_unhealthy" || s = "partiallyunhealthy" then some partiallyUnhealthy
  else if s = "unhealthy" then some unhealthy
  else none

/-- **Reading a status never fails**: a word that names no status counts as unhealthy. -/
def read (s : String) : Status :=
  (ofWord? (normalWord s)).getD unhealthy

/-- The normal word, if it names no status: what a reader warns about. -/
def unrecognized? (s : String) : Option String :=
  if (ofWord? (normalWord s)).isNone then some (normalWord s) else none

theorem severity_injective {a b : Status} (h : a.severity = b.severity) : a = b := by
  cases a <;> cases b <;> first | rfl | cases h

/-- Reading gives back every status that was written. -/
theorem read_word (s : Status) : read s.word = s := by
  cases s <;> decide +kernel

theorem unrecognized?_word (s : Status) : unrecognized? s.word = none := by
  cases s <;> decide +kernel

end Status

end HealthTree
