import HealthTree.Status

/-!
# Metrics

Four series by check name: the status a background check last committed, how many refreshes it
committed with and without a fault, how many ticks it skipped because a refresh was under way, and
how many failures debouncing hid. A series that nothing was recorded for is absent.
-/

namespace HealthTree

/-- What a recorded number counts or shows. -/
inductive Series where
  /-- The severity of the status committed last. -/
  | status (check : String)
  /-- Committed refreshes, with a fault (`false`) or without one (`true`). -/
  | refreshed (check : String) (ok : Bool)
  /-- Ticks that found a refresh under way. -/
  | skipped (check : String)
  /-- Failures that were hidden. -/
  | suppressed (check : String)
  deriving DecidableEq, Repr, Inhabited

namespace Series

/-- The name of the family the series belongs to. -/
def family : Series → String
  | status _ => "health_check_status"
  | refreshed _ _ => "health_check_refresh_total"
  | skipped _ => "health_check_refresh_skipped_total"
  | suppressed _ => "health_check_errors_suppressed_total"

/-- The labels that tell the series from the others of its family. -/
def labels : Series → List (String × String)
  | status check | skipped check | suppressed check => [("check", check)]
  | refreshed check ok => [("check", check), ("outcome", if ok then "ok" else "error")]

end Series

/-- The numbers recorded so far, each series at most once. -/
abbrev Metrics := List (Series × Nat)

namespace Metrics

/-- The number recorded for a series, if there is one. -/
def get? (m : Metrics) (s : Series) : Option Nat :=
  m.lookup s

/-- What a counter stands at; one that is absent stands at zero. -/
def count (m : Metrics) (s : Series) : Nat :=
  (m.get? s).getD 0

/-- Record a number for a series. -/
def set (s : Series) (n : Nat) : Metrics → Metrics
  | [] => [(s, n)]
  | (s', n') :: rest => if s' = s then (s, n) :: rest else (s', n') :: set s n rest

/-- Add one to a counter. -/
def bump (m : Metrics) (s : Series) : Metrics :=
  m.set s (m.count s + 1)

theorem get?_set (m : Metrics) (s t : Series) (n : Nat) :
    (m.set s n).get? t = if t = s then some n else m.get? t := by
  induction m with
  | nil =>
    by_cases h : t = s
    · simp [set, get?, h]
    · have : (t == s) = false := by simpa using h
      simp [set, get?, List.lookup_cons, h, this]
  | cons p rest ih =>
    obtain ⟨s', n'⟩ := p
    simp only [get?] at ih
    by_cases hs : s' = s
    · subst hs
      by_cases h : t = s'
      · simp [set, get?, h]
      · have : (t == s') = false := by simpa using h
        simp [set, get?, List.lookup_cons, h, this]
    · by_cases h' : t = s'
      · subst h'
        simp [set, get?, hs]
      · have : (t == s') = false := by simpa using h'
        simp [set, get?, List.lookup_cons, hs, this, ih]

end Metrics

end HealthTree
