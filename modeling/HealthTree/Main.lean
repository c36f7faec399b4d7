import HealthTree.Daemon.CommandLine

/-!
# The program

Reads the configuration, reports on standard output, and exits with the code of the run. What is
decided is decided in `HealthTree.Daemon`; here is only what touches the outside: files, the clock,
and the two output streams.
-/

namespace HealthTree.Program

/-- Seconds since the machine was started. -/
def uptime : IO Nat :=
  return (← IO.monoMsNow) / 1000

/-- The bytes of a file, if it can be read. -/
def fileBytes (name : String) : IO (Option ByteArray) :=
  try
    return some (← IO.FS.readBinFile name)
  catch _ =>
    return none

/-- Print what is new since `before` events and reports, and give the counts to go on from. -/
def printNew (d : Daemon) (events reports : Nat) : IO (Nat × Nat) := do
  let told := d.events
  for e in d.config.shown (told.drop events) do
    IO.println (e.line d.config.observability.logFormat)
  let shown := d.reports.reverse
  for h in shown.drop reports do
    IO.println h.line
  (← IO.getStdout).flush
  return (told.length, shown.length)

/-- Sleep for so many seconds, a day at a time. -/
def sleepSeconds (seconds : Nat) : IO Unit := do
  let day := 24 * 60 * 60
  for _ in [0:seconds / day] do
    IO.sleep (UInt32.ofNat (day * 1000))
  IO.sleep (UInt32.ofNat (seconds % day * 1000))

/-- Report every interval until the process is stopped. -/
partial def serve (d : Daemon) (events reports : Nat) : IO UInt32 := do
  match d.report ((← uptime) - d.session.machine.now / 1000) with
  | .error d =>
    let _ ← printNew d events reports
    return UInt32.ofNat Exit.crashed.code
  | .ok (_, d) =>
    let (events, reports) ← printNew d events reports
    sleepSeconds d.config.reporting.interval.toNat
    serve d.pause events reports

/-- Report once. -/
def serveOnce (d : Daemon) : IO UInt32 := do
  let (d, exit) : Daemon × Exit := match d.report (← uptime) with
    | .ok (passed, d) => (d, if passed then .passed else .failed)
    | .error d => (d, .crashed)
  let _ ← printNew d 0 0
  return UInt32.ofNat exit.code

end HealthTree.Program

open HealthTree HealthTree.Program in
/-- The program: its arguments, its output and its exit code. -/
def main (args : List String) : IO UInt32 := do
  match Daemon.Request.parse? args with
  | none =>
    IO.eprintln "error: unexpected argument\n\nFor more information, try '--help'."
    return UInt32.ofNat Exit.misused.code
  | some .help =>
    IO.print Daemon.helpText
    return 0
  | some (.run name once) =>
    let bytes ← match name with
      | some name => fileBytes name
      | none => pure none
    match Daemon.configuration (fun _ => bytes) name with
    | .error e =>
      IO.eprintln ("Error: " ++ e.message)
      return UInt32.ofNat Exit.failed.code
    | .ok c => if once then serveOnce (Daemon.start c) else serve (Daemon.start c) 0 0
