/-!
# The arguments of the command line

The daemon takes the file of its configuration, `--once`, and `--help`. Arguments are read from left
to right: a request for help is granted as soon as it is met, and so is a mistake before it. An
option may be given once; its value follows it, and may be joined to it, after an equals sign or, in
the short form, without one.
-/

namespace HealthTree.Daemon

/-- What a command line asks for. -/
inductive Request where
  | help
  /-- Report for the configuration of a file, or for the default one; only once if so asked. -/
  | run (file : Option String) (once : Bool)
  deriving DecidableEq, Repr, Inhabited

/-- What one argument is. -/
inductive Argument where
  | help
  | once
  /-- The option for the file; without a value, it follows. -/
  | file (value : Option String)
  /-- The end of all options. -/
  | endOfOptions
  /-- None of these. -/
  | other
  deriving DecidableEq, Repr, Inhabited

/-- What an argument is. -/
def Argument.ofText (s : String) : Argument :=
  match s.toList with
  | ['-', '-'] => .endOfOptions
  | '-' :: '-' :: long =>
    if long = "help".toList then .help
    else if long = "once".toList then .once
    else if long = "config".toList then .file none
    else if "config=".toList.isPrefixOf long then
      .file (some (String.ofList (long.drop "config=".length)))
    else .other
  | '-' :: 'h' :: _ => .help
  | ['-', 'c'] => .file none
  | '-' :: 'c' :: '=' :: value => .file (some (String.ofList value))
  | '-' :: 'c' :: value => .file (some (String.ofList value))
  | _ => .other

/-- An argument that may be the value of the option before it: it is not empty, and it is a lone
dash or does not begin with one. -/
def isValue (s : String) : Bool :=
  match s.toList with
  | [] => false
  | ['-'] => true
  | c :: _ => c != '-'

namespace Request

/-- What the arguments ask for, after those read before them; `none` if there is a mistake. -/
def ofArguments? (file : Option String) (once : Bool) : List String → Option Request
  | [] => some (.run file once)
  | arg :: rest =>
    match Argument.ofText arg with
    | .help => some .help
    | .once => if once then none else ofArguments? file true rest
    | .file (some value) =>
      if value.isEmpty || file.isSome then none else ofArguments? (some value) once rest
    | .file none =>
      match rest with
      | value :: rest =>
        if isValue value && file.isNone then ofArguments? (some value) once rest else none
      | [] => none
    | .endOfOptions => if rest.isEmpty then some (.run file once) else none
    | .other => none

/-- **What a command line asks for**, or `none` if there is a mistake in it. -/
def parse? (args : List String) : Option Request :=
  ofArguments? none false args

end Request

/-- What is printed for help. -/
def helpText : String :=
  "Evaluate a tree of service health checks\n\nUsage: service-health [OPTIONS]\n\nOptions:\n" ++
  "  -c, --config <CONFIG>  Path to the TOML configuration file\n" ++
  "      --once             Evaluate the tree once, print it and exit\n" ++
  "  -h, --help             Print help\n"

end HealthTree.Daemon
