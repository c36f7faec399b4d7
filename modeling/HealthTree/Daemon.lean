import HealthTree.Config
import HealthTree.Health.Codec
import HealthTree.Scenario

/-!
# The daemon: a configured tree that is reported

A daemon builds the tree it is configured with, starts its background checks, and reports the health
of the root: once (`Config.reportOnce`), or every interval until it is asked to stop
(`Config.reportUntil`). A report is one line, and it passes exactly if the root does.

**A report needs a deadline.** Instants are seconds in 63 bits with the time since the machine was
started, so a timeout near the end of that range has none (`Daemon.hasDeadline`) and the daemon
breaks off.
-/

namespace HealthTree

/-- How a run of the daemon ends. -/
inductive Exit where
  | passed
  | failed
  /-- The command line has a mistake in it. -/
  | misused
  /-- The daemon broke off. -/
  | crashed
  deriving DecidableEq, Repr, Inhabited

/-- The code a process exits with. -/
def Exit.code : Exit → Nat
  | passed => 0
  | failed => 1
  | misused => 2
  | crashed => 101

/-- A whole run of the daemon: what it reported, what it told and how it ended. -/
structure Run where
  reports : List Health := []
  events : List Event := []
  exit : Exit
  deriving Inhabited

/-- What a run prints besides log lines. -/
def Run.output (r : Run) : String :=
  String.join (r.reports.map fun h => h.line ++ "\n")

/-- A daemon under way. -/
structure Daemon where
  config : Config
  session : Scenario.Session
  /-- What it reported so far, the newest first. -/
  reports : List Health := []
  deriving Inhabited

namespace Daemon

/-- The version told at the start. -/
def version : String := "0.1.0"

/-- The name of the scope that all checks run under. -/
def scope : String := "daemon"

/-- Tell what happened. -/
def tell (d : Daemon) (es : List Event) : Daemon :=
  let m := d.session.machine
  { d with session := { d.session with machine := { m with world := m.world.tell es } } }

/-- What was told so far, the oldest first. -/
def events (d : Daemon) : List Event :=
  d.session.machine.world.events.reverse

/-- Play a command for what it does. -/
def play (d : Daemon) (c : Scenario.Command) : Daemon :=
  { d with session := (d.session.play c).2 }

/-- **Start**: the tree is built, and its background checks are primed and started. -/
def start (c : Config) : Daemon :=
  let tree := c.tree.tree?
  let metrics :=
    if c.observability.metricsEnabled then [.metricsServed c.observability.metricsAddress] else []
  let d : Daemon := { config := c, session := .ofTree tree (.daemonStarting version :: metrics) }
  let d := d.tell [.treeBuilt c.tree.name ((tree.map (·.caches.length)).getD 0)]
  (d.play (.derive scope (some Scenario.Session.shutdownName) none)).play (.startAll ⟨scope, none⟩)

/-- There is an instant a timeout from now, on a machine that was started so many seconds ago. -/
def hasDeadline (uptime : Nat) (timeout : UInt64) : Bool :=
  ((uptime + timeout.toNat : Nat) : Int) ≤ Int64.maxValue.toInt

/-- **Report**: check the root under the timeout. Tells whether it passed; an error is a daemon that
broke off. -/
def report (uptime : Nat) (d : Daemon) : Except Daemon (Bool × Daemon) :=
  let timeout := d.config.reporting.timeout
  if hasDeadline (uptime + d.session.machine.now / 1000) timeout then
    match d.session.play (.check .root ⟨scope, some (timeout.toNat * 1000)⟩) with
    | (.reply (.answered _ (.ok h)), s) =>
      .ok (true, { d with session := s, reports := h :: d.reports })
    | (.reply (.answered name (.error f)), s) =>
      .ok (false, ({ d with session := s, reports := f.health :: d.reports } : Daemon).tell
        [.reportFailed name f.fault])
    | (_, s) => .error { d with session := s }
  else .error d

/-- Let an interval pass. -/
def pause (d : Daemon) : Daemon :=
  d.play (.advance (d.config.reporting.interval.toNat * 1000))

/-- **So many reports**, an interval apart. -/
def reportTimes (uptime : Nat) : Nat → Daemon → Except Daemon Daemon
  | 0, d => .ok d
  | 1, d => (d.report uptime).map (·.2)
  | n + 2, d => do
    let (_, d) ← d.report uptime
    reportTimes uptime (n + 1) d.pause

/-- **Stop**: everything under the scope of the daemon ends, and the loops with it. -/
def stop (d : Daemon) : Daemon :=
  ((d.play .trigger).play .stopAll).tell [.daemonStopped]

/-- The run of a daemon that has ended. -/
def run (d : Daemon) (exit : Exit) : Run :=
  ⟨d.reports.reverse, d.events, exit⟩

end Daemon

/-- A log line. -/
def Event.line (e : Event) : LogFormat → String
  | .json => Json.write (.map ([("level", .str e.level.word), ("message", .str e.message)] ++
      e.fields))
  | .pretty => e.level.word ++ " " ++ e.message ++
      String.join (e.fields.map fun (key, d) => " " ++ key ++ "=" ++ Json.write d)

namespace Config

/-- **Start, report once and end**, as the report went. -/
def reportOnce (uptime : Nat) (c : Config) : Run :=
  match (Daemon.start c).report uptime with
  | .ok (passed, d) => d.run (if passed then .passed else .failed)
  | .error d => d.run .crashed

/-- **Start, report so many times, and stop at a signal.** -/
def reportUntil (uptime reports : Nat) (signal : Signal) (c : Config) : Run :=
  match (Daemon.start c).reportTimes uptime reports with
  | .ok d => ((d.tell [.signalReceived signal]).stop).run .passed
  | .error d => d.run .crashed

/-- The events that a log with this level shows. -/
def shown (c : Config) (es : List Event) : List Event :=
  match Level.ofName? c.observability.logLevel with
  | some least => es.filter fun e => least.rank ≤ e.level.rank
  | none => es

end Config

end HealthTree
