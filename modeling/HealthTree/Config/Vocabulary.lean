import HealthTree.Config

/-!
# The words of a configuration

The keys of the sections and of the parts that each kind of check has, shared by what writes a
configuration as data and what reads one. A check is a map with its kind under `Kind.key`, or a list
that begins with its kind and goes on with its parts in the order of `Kind.parts`.
-/

namespace HealthTree

namespace LogFormat

/-- The word for a layout. -/
def word : LogFormat → String
  | pretty => "pretty"
  | json => "json"

/-- All layouts. -/
def all : List LogFormat := [pretty, json]

/-- The layout a word stands for. -/
def ofWord? (s : String) : Option LogFormat :=
  all.find? (·.word == s)

end LogFormat

namespace CheckSpec

/-- The kinds of checks. -/
inductive Kind where
  | group
  | cached
  | debounced
  | fixed
  deriving DecidableEq, Repr, Inhabited

/-- The parts that checks may have. -/
inductive Part where
  | name
  | checks
  | interval
  | budget
  | check
  | status
  | message
  deriving DecidableEq, Repr, Inhabited

namespace Part

/-- The key a part stands under. -/
def key : Part → String
  | name => "name"
  | checks => "checks"
  | interval => "interval_ms"
  | budget => "max_ignored_errors"
  | check => "check"
  | status => "status"
  | message => "message"

/-- A part that may be left out. -/
def optional : Part → Bool
  | checks | status | message => true
  | name | interval | budget | check => false

end Part

namespace Kind

/-- The key the kind of a check stands under. -/
def key : String := "kind"

/-- The word for a kind. -/
def word : Kind → String
  | group => "group"
  | cached => "async"
  | debounced => "delayed"
  | fixed => "static"

/-- How a refusal calls the kind. -/
def title : Kind → String
  | group => "Group"
  | cached => "Async"
  | debounced => "Delayed"
  | fixed => "Static"

/-- All kinds, by their numbers. -/
def all : List Kind := [group, cached, debounced, fixed]

/-- The kind a word stands for. -/
def ofWord? (s : String) : Option Kind :=
  all.find? (·.word == s)

/-- The parts of a kind, in the order of a list. -/
def parts : Kind → List Part
  | group => [.name, .checks]
  | cached => [.interval, .check]
  | debounced => [.budget, .check]
  | fixed => [.name, .status, .message]

/-- The part a key stands for. -/
def part? (kind : Kind) (key : String) : Option Part :=
  kind.parts.find? (·.key == key)

end Kind

/-- The kind of a node. -/
def kind : CheckSpec → Kind
  | group _ _ => .group
  | cached _ _ => .cached
  | debounced _ _ => .debounced
  | fixed _ _ _ => .fixed

end CheckSpec

end HealthTree
