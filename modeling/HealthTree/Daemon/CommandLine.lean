import HealthTree.Config.Load
import HealthTree.Daemon
import HealthTree.Daemon.Arguments

/-!
# The command line as a whole

One invocation of the daemon, from its arguments to what it prints and the code it exits with. Files
are looked up in a function, and a daemon that reports until it is stopped gets its signal after a
given number of reports.
-/

namespace HealthTree.Daemon

/-- What an invocation comes to. -/
structure Invocation where
  /-- What is printed besides the log. -/
  output : String := ""
  /-- What the log shows. -/
  log : List Event := []
  /-- How the log is laid out. -/
  layout : LogFormat := .pretty
  exit : Exit
  deriving Inhabited

/-- What is around an invocation. -/
structure Surroundings where
  /-- The bytes of a file, if there is one of this name. -/
  file : String → Option ByteArray
  /-- How many seconds ago the machine was started. -/
  uptime : Nat
  /-- The signal that a daemon gets, and after how many reports. -/
  signal : Signal := .terminate
  reports : Nat := 1

/-- The configuration that is asked for. -/
def configuration (file : String → Option ByteArray) : Option String → Except LoadError Config
  | none => .ok {}
  | some name => Config.load (file name)

/-- **What a request comes to.** -/
def Request.answer (s : Surroundings) : Request → Invocation
  | .help => { output := helpText, exit := .passed }
  | .run name once =>
    match configuration s.file name with
    | .error _ => { exit := .failed }
    | .ok c =>
      let run := if once then c.reportOnce s.uptime else c.reportUntil s.uptime s.reports s.signal
      { output := run.output, log := c.shown run.events, layout := c.observability.logFormat,
        exit := run.exit }

/-- **What an invocation with these arguments comes to.** -/
def invoke (s : Surroundings) (args : List String) : Invocation :=
  match Request.parse? args with
  | some request => request.answer s
  | none => { exit := .misused }

end HealthTree.Daemon
