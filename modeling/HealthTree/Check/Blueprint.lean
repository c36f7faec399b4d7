import HealthTree.World

/-!
# Blueprints: check trees before they keep anything

A `Blueprint` says which checks a tree is made of. Assembling it (`Blueprint.assemble`) gives every
cache and every debounced check its number and its own place to keep things: depth first, children
in order, and a check inside another before the one around it, so that caches are numbered in the
order in which they should be started. A node may carry a label; `use` stands for the labelled node
itself, so both places share what it keeps.
-/

namespace HealthTree

/-- Which checks a tree is made of. -/
inductive Blueprint where
  | fixed (name : String) (status : Status) (message : String)
  | probe (p : Probe)
  | group (name : String) (children : List Blueprint)
  | cached (interval : Nat) (inner : Blueprint)
  | debounced (budget : UInt32) (inner : Blueprint)
  /-- A node that can be used again under this label. -/
  | labelled (label : String) (node : Blueprint)
  /-- The node of this label. -/
  | use (label : String)
  deriving Inhabited

/-- What is assembled so far. -/
structure Assembly where
  caches : List Cache := []
  debounces : List Debounce := []
  labels : List (String × Check) := []
  events : List Event := []
  deriving Inhabited

namespace Assembly

/-- A cache for a check, refreshed every `interval` milliseconds and at most once in each. -/
def addCache (a : Assembly) (interval : Nat) (inner : Check) : Check × Assembly :=
  let clamped := max interval 1
  (.cached a.caches.length clamped inner, { a with
    caches := a.caches ++ [{ inner := inner, interval := clamped }]
    events := if interval = 0 then a.events ++ [.intervalClamped inner.name] else a.events })

/-- A place for what a debounced check keeps. -/
def addDebounce (a : Assembly) (budget : UInt32) (inner : Check) : Check × Assembly :=
  (.debounced a.debounces.length budget inner,
    { a with debounces := a.debounces ++ [.initial budget] })

/-- A label for a check; the label given last stands. -/
def addLabel (a : Assembly) (label : String) (check : Check) : Assembly :=
  { a with labels := (label, check) :: a.labels }

end Assembly

namespace Blueprint

mutual
/-- **Number a tree's caches and debounced checks**, or `none` if a label is used that stands for
nothing yet. -/
def assemble : Blueprint → Assembly → Option (Check × Assembly)
  | fixed name status message, a => some (.fixed name status message, a)
  | probe p, a => some (.probe p, a)
  | group name children, a => do
    let (children, a) ← assembleAll children a
    return (.group name children, a)
  | cached interval inner, a => do
    let (inner, a) ← inner.assemble a
    return a.addCache interval inner
  | debounced budget inner, a => do
    let (inner, a) ← inner.assemble a
    return a.addDebounce budget inner
  | labelled label node, a => do
    let (check, a) ← node.assemble a
    return (check, a.addLabel label check)
  | use label, a => do return (← a.labels.lookup label, a)
/-- The same for the children of a group, one after the other. -/
def assembleAll : List Blueprint → Assembly → Option (List Check × Assembly)
  | [], a => some ([], a)
  | b :: rest, a => do
    let (c, a) ← b.assemble a
    let (rest, a) ← assembleAll rest a
    return (c :: rest, a)
end

end Blueprint

/-- A check tree with everything it keeps, before the first call. -/
structure CheckTree where
  root : Check
  caches : List Cache
  debounces : List Debounce
  labels : List (String × Check)
  events : List Event
  deriving Inhabited

namespace CheckTree

/-- The tree of a blueprint. -/
def ofBlueprint? (b : Blueprint) : Option CheckTree := do
  let (root, a) ← b.assemble {}
  return ⟨root, a.caches, a.debounces, a.labels, a.events⟩

/-- The world of a tree before the first call. -/
def world (t : CheckTree) : World :=
  { caches := t.caches
    debounces := t.debounces
    calls := t.root.probes.foldl
      (fun calls p => if calls.any (·.1 == p.id) then calls else calls ++ [(p.id, {})]) []
    events := t.events.reverse }

end CheckTree

end HealthTree
