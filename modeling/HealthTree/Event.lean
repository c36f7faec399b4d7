import HealthTree.Data
import HealthTree.Fault
import HealthTree.Text.Blank

/-!
# Events: what is told of a run

Each kind of event is a constructor that holds what the event is about; its level, its message and
its fields are functions of it. Nothing reads events back: they tell what happened and decide
nothing.
-/

namespace HealthTree

/-- How much an event matters. -/
inductive Level where
  | trace
  | debug
  | info
  | warn
  | error
  deriving DecidableEq, Repr, Inhabited

namespace Level

/-- The rank, the least important first. -/
def rank : Level → Nat
  | trace => 0
  | debug => 1
  | info => 2
  | warn => 3
  | error => 4

/-- The word a log line shows. -/
def word : Level → String
  | trace => "TRACE"
  | debug => "DEBUG"
  | info => "INFO"
  | warn => "WARN"
  | error => "ERROR"

/-- The level a setting names, whatever its ASCII case. -/
def ofName? (s : String) : Option Level :=
  let name := Text.asciiLower s
  if name = "trace" then some trace
  else if name = "debug" then some debug
  else if name = "info" then some info
  else if name = "warn" then some warn
  else if name = "error" then some error
  else none

end Level

/-- What a process is asked to stop by. -/
inductive Signal where
  | terminate
  | interrupt
  deriving DecidableEq, Repr, Inhabited

/-- One thing that happened. -/
inductive Event where
  /-- A status word that names no status was read. -/
  | statusUnrecognized (word : String)
  /-- A refresh interval below one millisecond was raised to it. -/
  | intervalClamped (check : String)
  /-- A child of a group failed, or passed with a status that does not. -/
  | childFailed (check : String) (fault : Fault)
  | childPanicked (check : String)
  /-- The scope of a group ended before all children had answered. -/
  | groupInterrupted (group : String) (cause : Fault)
  /-- A debounced check ran out of failures to hide. -/
  | checkFailing (check : String) (consecutive : Nat) (fault : Fault)
  /-- A debounced check hid a failure. -/
  | faultSuppressed (check : String) (consecutive budget : Nat) (fault : Fault)
  | firstRefreshFailed (check : String) (fault : Fault)
  | timerReset (check : String)
  | loopStarted (check : String) (interval : Nat)
  | loopStopped (check : String) (cause : Fault)
  | tickSkipped (check : String)
  /-- A refresh whose scope ended left the cache as it was. -/
  | refreshInterrupted (check : String) (cause : Fault)
  /-- A refresh committed a failure. -/
  | refreshFailed (check : String) (fault : Fault)
  | daemonStarting (version : String)
  | metricsServed (address : String)
  | treeBuilt (root : String) (background : Nat)
  /-- A report of the daemon did not pass. -/
  | reportFailed (check : String) (fault : Fault)
  | signalReceived (signal : Signal)
  | daemonStopped
  deriving DecidableEq, Repr, Inhabited

namespace Event

/-- How much the event matters. -/
def level : Event → Level
  | childPanicked _ => .error
  | statusUnrecognized _ | intervalClamped _ | groupInterrupted _ _ | checkFailing _ _ _
  | refreshFailed _ _ | reportFailed _ _ => .warn
  | loopStarted _ _ | loopStopped _ _ | daemonStarting _ | metricsServed _ | treeBuilt _ _
  | signalReceived _ | daemonStopped => .info
  | childFailed _ _ | faultSuppressed _ _ _ _ | firstRefreshFailed _ _ | timerReset _
  | tickSkipped _ | refreshInterrupted _ _ => .debug

/-- The event in words. -/
def message : Event → String
  | statusUnrecognized _ => "Unrecognized health status, treating as unhealthy"
  | intervalClamped _ => "Refresh interval too small, clamping"
  | childFailed _ _ => "Grouped child failed"
  | childPanicked _ => "Health check panicked"
  | groupInterrupted _ _ => "Group evaluation interrupted"
  | checkFailing _ _ _ => "Health check failing"
  | faultSuppressed _ _ _ _ => "Suppressing transient health check error"
  | firstRefreshFailed _ _ => "Initial refresh did not succeed"
  | timerReset _ => "Refresh loop already running, resetting timer"
  | loopStarted _ _ => "Background health refresh starting"
  | loopStopped _ _ => "Background health refresh stopped"
  | tickSkipped _ => "Refresh already in progress, skipping tick"
  | refreshInterrupted _ _ => "Refresh interrupted, cache left unchanged"
  | refreshFailed _ _ => "Background health refresh failed"
  | daemonStarting version => "service-health v" ++ version ++ " starting"
  | metricsServed _ => "Metrics endpoint listening"
  | treeBuilt _ _ => "Check tree built"
  | reportFailed _ _ => "Health check failed"
  | signalReceived .terminate => "Received SIGTERM"
  | signalReceived .interrupt => "Received Ctrl-C"
  | daemonStopped => "Shutdown complete"

/-- What the event is about, by name. -/
def fields : Event → List (String × Data)
  | statusUnrecognized word => [("status", .str word)]
  | intervalClamped check => [("check", .str check), ("interval", .str "0ns")]
  | childFailed check fault => [("check", .str check), ("error", .str fault.message)]
  | childPanicked check => [("check", .str check)]
  | groupInterrupted group cause => [("group", .str group), ("error", .str cause.message)]
  | checkFailing check consecutive fault =>
    [("check", .str check), ("consecutive_errors", .int consecutive), ("error", .str fault.message)]
  | faultSuppressed check consecutive budget fault =>
    [("check", .str check), ("consecutive_errors", .int consecutive),
      ("max_ignored_errors", .int budget), ("error", .str fault.message)]
  | firstRefreshFailed check fault => [("check", .str check), ("error", .str fault.message)]
  | timerReset check => [("check", .str check)]
  | loopStarted check interval => [("check", .str check), ("interval_ms", .int interval)]
  | loopStopped check cause => [("check", .str check), ("reason", .str cause.message)]
  | tickSkipped check => [("check", .str check)]
  | refreshInterrupted check cause => [("check", .str check), ("reason", .str cause.message)]
  | refreshFailed check fault => [("check", .str check), ("error", .str fault.message)]
  | metricsServed address => [("address", .str address)]
  | treeBuilt root background => [("root", .str root), ("background_checks", .int background)]
  | reportFailed check fault => [("check", .str check), ("error", .str fault.message)]
  | daemonStarting _ | signalReceived _ | daemonStopped => []

end Event

end HealthTree
