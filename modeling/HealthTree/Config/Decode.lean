import HealthTree.Config.Refusal

/-!
# Configurations read from data

`Config.ofData` fills in the default of every setting that is left out, passes over keys it does not
know, and refuses the first thing that does not fit. A section may also be a list of its settings in
their order, with the last ones left out.

**The kind of a check is read first,** wherever it stands; then its other parts in the order in
which they are given; then what is missing is looked for, in the order of `Kind.parts`. Some
latitude is confined to one format: inside another check, a kind may be given in JSON by its number;
and a list with settings too many is refused in JSON only.

A status word that names no status is read as unhealthy; `CheckSpec.unrecognizedWords` gathers these
words, since a reader warns about each.
-/

namespace HealthTree

/-! ## Settings -/

namespace Data

/-- A whole number below `bound`. -/
def toWord (bound : Nat) (wanted : Wanted) : Data → Except Refusal Nat
  | int (Int.ofNat n) => if n < bound then .ok n else .error (.outOfRange n wanted)
  | int n => .error (.outOfRange n wanted)
  | d => .error (.mistyped d wanted)

/-- A whole number of 64 bits. -/
def toWord64 (d : Data) : Except Refusal UInt64 :=
  (d.toWord UInt64.size .word64).map UInt64.ofNat

/-- A whole number of 32 bits. -/
def toWord32 (d : Data) : Except Refusal UInt32 :=
  (d.toWord UInt32.size .word32).map UInt32.ofNat

/-- A truth value. -/
def toFlag : Data → Except Refusal Bool
  | bool b => .ok b
  | d => .error (.mistyped d .flag)

/-- A text. -/
def toText : Data → Except Refusal String
  | str s => .ok s
  | d => .error (.mistyped d .text)

end Data

namespace LogFormat

/-- The layout of a word. -/
def ofWord (s : String) : Except Refusal LogFormat :=
  match ofWord? s with
  | some layout => .ok layout
  | none => .error (.unknownWord s (all.map word))

/-- A layout takes no settings: what stands beside its name has to be empty. -/
def checkSettings (format : Format) (d : Data) : Except Refusal Unit :=
  match format, d with
  | .json, .null => .ok ()
  | .toml, .list [] => .ok ()
  | .toml, .map [] => .ok ()
  | _, d => .error (.layoutSettings d)

/-- The layout some data stands for: its word, or a map with its word for the only key. -/
def ofData (format : Format) (d : Data) : Except Refusal LogFormat :=
  match d with
  | .str s => ofWord s
  | d =>
    match if format = .toml then d.table? else d.map? with
    | none => .error (.noLayout d)
    | some [(key, settings)] => do
      let layout ← ofWord key
      checkSettings format settings
      return layout
    | some entries => .error (.layoutKeys entries.length)

end LogFormat

/-- **A section**: a map of settings, or a list of them in the order of `keys`. -/
def readSection {σ : Type} (format : Format) (wanted : Wanted) (keys : List String)
    (set : String → Data → σ → Except Refusal σ) (default : σ) : Data → Except Refusal σ
  | .map entries => entries.foldlM (fun s (key, d) => set key d s) default
  | .list items => do
    let s ← (keys.zip items).foldlM (fun s (key, d) => set key d s) default
    if format = .json ∧ keys.length < items.length then
      .error (.wrongLength items.length .fewerItems)
    else return s
  | d => .error (.mistyped d wanted)

namespace Observability

/-- Set what a key stands for. -/
def set (format : Format) (key : String) (d : Data) (o : Observability) :
    Except Refusal Observability :=
  match key with
  | "log_level" => return { o with logLevel := ← d.toText }
  | "log_format" => return { o with logFormat := ← LogFormat.ofData format d }
  | "metrics_enabled" => return { o with metricsEnabled := ← d.toFlag }
  | "metrics_address" => return { o with metricsAddress := ← d.toText }
  | _ => return o

/-- What a service tells of itself. -/
def ofData (format : Format) (d : Data) : Except Refusal Observability :=
  readSection format .observability
    ["log_level", "log_format", "metrics_enabled", "metrics_address"] (set format) {} d

end Observability

namespace Reporting

/-- Set what a key stands for. -/
def set (key : String) (d : Data) (r : Reporting) : Except Refusal Reporting :=
  match key with
  | "interval_secs" => return { r with interval := ← d.toWord64 }
  | "timeout_secs" => return { r with timeout := ← d.toWord64 }
  | _ => return r

/-- How often a service reports. -/
def ofData (format : Format) (d : Data) : Except Refusal Reporting :=
  readSection format .reporting ["interval_secs", "timeout_secs"] set {} d

end Reporting

/-! ## Check trees -/

namespace CheckSpec

namespace Kind

/-- The kind a word stands for. -/
def ofWord (s : String) : Except Refusal Kind :=
  match ofWord? s with
  | some kind => .ok kind
  | none => .error (.unknownWord s (all.map word))

/-- The kind some data stands for. Inside another check (`nested`) it may be a number in JSON. -/
def ofData (format : Format) (nested : Bool) : Data → Except Refusal Kind
  | .str s => ofWord s
  | .int n =>
    if format = .json ∧ nested ∧ 0 ≤ n then
      match all[n.toNat]? with
      | some kind => .ok kind
      | none => .error (.outOfRange n .kindNumber)
    else .error (.mistyped (.int n) .kindWord)
  | d => .error (.mistyped d .kindWord)

end Kind

/-- The parts of a check found so far. -/
structure Parts where
  name : Option String := none
  checks : Option (List CheckSpec) := none
  interval : Option UInt64 := none
  budget : Option UInt32 := none
  check : Option CheckSpec := none
  status : Option Status := none
  message : Option String := none
  deriving Inhabited

namespace Parts

/-- Set a part from its data, where `checks` and `check` read trees in it. -/
def set (part : Part) (d : Data) (checks : Unit → Except Refusal (List CheckSpec))
    (check : Unit → Except Refusal CheckSpec) (p : Parts) : Except Refusal Parts :=
  match part with
  | .name => return { p with name := some (← d.toText) }
  | .checks => return { p with checks := some (← checks ()) }
  | .interval => return { p with interval := some (← d.toWord64) }
  | .budget => return { p with budget := some (← d.toWord32) }
  | .check => return { p with check := some (← check ()) }
  | .status => return { p with status := some (Status.read (← d.toText)) }
  | .message => return { p with message := some (← d.toText) }

/-- A part that has to be there. -/
def need {α : Type} (part : Part) : Option α → Except Refusal α
  | some a => .ok a
  | none => .error (.missing part.key)

/-- The check of a kind that these parts make. -/
def spec (p : Parts) : Kind → Except Refusal CheckSpec
  | .group => return .group (← need .name p.name) (p.checks.getD [])
  | .cached => return .cached (← need .interval p.interval) (← need .check p.check)
  | .debounced => return .debounced (← need .budget p.budget) (← need .check p.check)
  | .fixed => return .fixed (← need .name p.name) (p.status.getD .healthy) (p.message.getD "")

end Parts

/-- The list of a check ends where these parts are still to come. -/
def endOfParts (kind : Kind) (left : List Part) : Except Refusal Unit :=
  match left.find? (!·.optional) with
  | some part => .error (.wrongLength (kind.parts.idxOf part) (.partsOf kind))
  | none => .ok ()

mutual
/-- **The check tree some data stands for.** -/
def ofData (format : Format) : Bool → Data → Except Refusal CheckSpec
  | nested, .map entries =>
    match entries.lookup Kind.key with
    | some tag => do
      let kind ← Kind.ofData format nested tag
      let parts ← partsOfEntries format kind entries {}
      parts.spec kind
    | none => .error (.missing Kind.key)
  | nested, .list (tag :: items) => do
    let kind ← Kind.ofData format nested tag
    let parts ← partsOfItems format kind kind.parts items {}
    parts.spec kind
  | _, .list [] => .error (.missing Kind.key)
  | _, d => .error (.mistyped d .spec)
/-- The parts of a check in the entries of a map. -/
def partsOfEntries (format : Format) (kind : Kind) :
    List (String × Data) → Parts → Except Refusal Parts
  | [], p => .ok p
  | (key, d) :: rest, p =>
    match kind.part? key with
    | some part => do
      let p ← p.set part d (fun _ => listOfData format d) (fun _ => ofData format true d)
      partsOfEntries format kind rest p
    | none => partsOfEntries format kind rest p
/-- The parts of a check in the items of a list. -/
def partsOfItems (format : Format) (kind : Kind) :
    List Part → List Data → Parts → Except Refusal Parts
  | left, [], p => do
    endOfParts kind left
    return p
  | [], d :: rest, _ =>
    .error (.wrongLength (kind.parts.length + (d :: rest).length) (.exactly kind.parts.length))
  | part :: left, d :: rest, p => do
    let p ← p.set part d (fun _ => listOfData format d) (fun _ => ofData format true d)
    partsOfItems format kind left rest p
/-- The check trees of a list. -/
def listOfData (format : Format) : Data → Except Refusal (List CheckSpec)
  | .list items => itemsOfData format items
  | d => .error (.mistyped d .items)
/-- The check trees of the items of a list. -/
def itemsOfData (format : Format) : List Data → Except Refusal (List CheckSpec)
  | [] => .ok []
  | d :: rest => do
    let c ← ofData format true d
    return c :: (← itemsOfData format rest)
end

end CheckSpec

namespace Config

/-- Set what a key stands for. -/
def set (format : Format) (key : String) (d : Data) (c : Config) : Except Refusal Config :=
  match key with
  | "observability" => return { c with observability := ← Observability.ofData format d }
  | "report" => return { c with reporting := ← Reporting.ofData format d }
  | "tree" => return { c with tree := ← CheckSpec.ofData format false d }
  | _ => return c

/-- **The configuration some data stands for.** -/
def ofData (format : Format) (d : Data) : Except Refusal Config :=
  readSection format .config ["observability", "report", "tree"] (set format) {} d

end Config

/-! ## Status words -/

namespace CheckSpec

/-- The word of a status that is none. -/
def unrecognizedStatus : Data → List String
  | .str s => (Status.unrecognized? s).toList
  | _ => []

mutual
/-- The status words in the data of a check tree that name no status. -/
def unrecognizedWords (format : Format) : Bool → Data → List String
  | nested, .map entries =>
    match (entries.lookup Kind.key).map (Kind.ofData format nested) with
    | some (.ok kind) => unrecognizedInEntries format kind entries
    | _ => []
  | nested, .list (tag :: items) =>
    match Kind.ofData format nested tag with
    | .ok kind => unrecognizedInItems format kind.parts items
    | .error _ => []
  | _, _ => []
/-- Those in the entries of a map. -/
def unrecognizedInEntries (format : Format) (kind : Kind) : List (String × Data) → List String
  | [] => []
  | (key, d) :: rest =>
    (match kind.part? key with
      | some .status => unrecognizedStatus d
      | some .check => unrecognizedWords format true d
      | some .checks => unrecognizedInList format d
      | _ => []) ++ unrecognizedInEntries format kind rest
/-- Those in the items of a list. -/
def unrecognizedInItems (format : Format) : List Part → List Data → List String
  | part :: left, d :: rest =>
    (match part with
      | .status => unrecognizedStatus d
      | .check => unrecognizedWords format true d
      | .checks => unrecognizedInList format d
      | _ => []) ++ unrecognizedInItems format left rest
  | _, _ => []
/-- Those in a list of check trees. -/
def unrecognizedInList (format : Format) : Data → List String
  | .list items => unrecognizedBelow format items
  | _ => []
/-- Those in the items of a list of check trees. -/
def unrecognizedBelow (format : Format) : List Data → List String
  | [] => []
  | d :: rest => unrecognizedWords format true d ++ unrecognizedBelow format rest
end

end CheckSpec

end HealthTree
