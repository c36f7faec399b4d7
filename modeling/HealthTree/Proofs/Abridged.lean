import HealthTree.Config.Decode
import HealthTree.Config.Encode

/-!
# Configurations read back

A configuration is written with every setting it has. A reader needs less: what is left out has its
default. `Gives` says what remains of a map when any number of defaults are left out of it and the
rest is put in any order: each setting stands under its own key at most once, as data that spells
its value, and only such a setting is missing as has its default. What spells a section or a node
of the tree is again a map of this kind (`CheckSpec.Spells`), so that something may be left out at
every level at once.

**What a reader has so far is told by the keys it has passed.** After some of the entries it holds
the settings under their keys, and the defaults of all others (`only`); one more entry adds its key,
whichever comes next (`foldlM_gives`). At the end the keys that are missing make no difference, so
what was abridged is read as what was written whole (`readSection_gives`, `CheckSpec.ofData_gives`).
-/

namespace HealthTree

/-- A setting of a map. -/
structure Setting where
  /-- It stands under this key. -/
  key : String
  /-- Some data stands for its value. -/
  spells : Data → Prop
  /-- It may be left out, for it has its default. -/
  spare : Prop

/-- **The entries of a map give these settings**: each under its key, in any order and no key twice,
and only such are left out as have their defaults. -/
structure Gives (settings : List Setting) (entries : List (String × Data)) : Prop where
  once : (entries.map Prod.fst).Nodup
  given : ∀ e ∈ entries, ∃ x ∈ settings, x.key = e.1 ∧ x.spells e.2
  left : ∀ x ∈ settings, x.key ∉ entries.map Prod.fst → x.spare

theorem gives_iff {settings : List Setting} {entries : List (String × Data)} :
    Gives settings entries ↔ (entries.map Prod.fst).Nodup ∧
      (∀ e ∈ entries, ∃ x ∈ settings, x.key = e.1 ∧ x.spells e.2) ∧
        ∀ x ∈ settings, x.key ∉ entries.map Prod.fst → x.spare :=
  ⟨fun h => ⟨h.once, h.given, h.left⟩, fun h => ⟨h.1, h.2.1, h.2.2⟩⟩

/-- The value of a setting if its key is one of these, and its default if not. -/
def keep {α : Type} (keys : List String) (key : String) (value default : α) : α :=
  if key ∈ keys then value else default

namespace Data

/-- Some data is a map that gives these settings. -/
def Gives (settings : List Setting) : Data → Prop
  | map entries => HealthTree.Gives settings entries
  | _ => False

/-- Some data is a list of such items. -/
def Lists (given : List Data → Prop) : Data → Prop
  | list items => given items
  | _ => False

end Data

/-! ## What there is to set -/

namespace Observability

/-- The settings of what a service tells of itself. -/
def settings (o : Observability) : List Setting :=
  [⟨"log_level", (· = .str o.logLevel), o.logLevel = "info"⟩,
    ⟨"log_format", (· = .str o.logFormat.word), o.logFormat = .pretty⟩,
    ⟨"metrics_enabled", (· = .bool o.metricsEnabled), o.metricsEnabled = false⟩,
    ⟨"metrics_address", (· = .str o.metricsAddress), o.metricsAddress = "0.0.0.0:9090"⟩]

/-- Those of the settings that stand under these keys, and the defaults of the others. -/
def only (o : Observability) (keys : List String) : Observability where
  logLevel := keep keys "log_level" o.logLevel "info"
  logFormat := keep keys "log_format" o.logFormat .pretty
  metricsEnabled := keep keys "metrics_enabled" o.metricsEnabled false
  metricsAddress := keep keys "metrics_address" o.metricsAddress "0.0.0.0:9090"

end Observability

namespace Reporting

/-- The settings of how often a service reports. -/
def settings (r : Reporting) : List Setting :=
  [⟨"interval_secs", (· = .int r.interval.toNat), r.interval = 10⟩,
    ⟨"timeout_secs", (· = .int r.timeout.toNat), r.timeout = 5⟩]

/-- Those of the settings that stand under these keys, and the defaults of the others. -/
def only (r : Reporting) (keys : List String) : Reporting where
  interval := keep keys "interval_secs" r.interval 10
  timeout := keep keys "timeout_secs" r.timeout 5

end Reporting

namespace CheckSpec

/-- The settings of a node of this kind: its kind, which has to be told, and its parts. -/
def Kind.settings (kind : Kind) (spells : Part → Data → Prop) (spare : Part → Prop) :
    List Setting :=
  ⟨Kind.key, (· = .str kind.word), False⟩ ::
    kind.parts.map fun part => ⟨part.key, spells part, spare part⟩

/-- A part of a node has its default. Names, durations, budgets and the check inside have none. -/
def Spare : CheckSpec → Part → Prop
  | group _ checks, .checks => checks = []
  | fixed _ status _, .status => status = .healthy
  | fixed _ _ message, .message => message = ""
  | _, _ => False

mutual
/-- **Some data stands for a part of a node.** -/
def Spells : CheckSpec → Part → Data → Prop
  | group name _, .name, d | fixed name _ _, .name, d => d = .str name
  | group _ checks, .checks, d => d.Lists (Listed checks)
  | cached interval _, .interval, d => d = .int interval.toNat
  | debounced budget _, .budget, d => d = .int budget.toNat
  | cached _ check, .check, d | debounced _ check, .check, d =>
    d.Gives (check.kind.settings check.Spells check.Spare)
  | fixed _ status _, .status, d => d = .str status.word
  | fixed _ _ message, .message, d => d = .str message
  | _, _, _ => False
/-- Each of the items stands for one of the trees, in their order. -/
def Listed : List CheckSpec → List Data → Prop
  | [], [] => True
  | c :: rest, d :: items => d.Gives (c.kind.settings c.Spells c.Spare) ∧ Listed rest items
  | _, _ => False
end

/-- The settings of a node of a check tree. -/
def settings (c : CheckSpec) : List Setting :=
  c.kind.settings c.Spells c.Spare

/-- The parts of a node. -/
def parts : CheckSpec → Parts
  | group name checks => { name := some name, checks := some checks }
  | cached interval check => { interval := some interval, check := some check }
  | debounced budget check => { budget := some budget, check := some check }
  | fixed name status message =>
    { name := some name, status := some status, message := some message }

/-- Those of the parts that stand under these keys. -/
def Parts.only (p : Parts) (keys : List String) : Parts where
  name := keep keys Part.name.key p.name none
  checks := keep keys Part.checks.key p.checks none
  interval := keep keys Part.interval.key p.interval none
  budget := keep keys Part.budget.key p.budget none
  check := keep keys Part.check.key p.check none
  status := keep keys Part.status.key p.status none
  message := keep keys Part.message.key p.message none

/-- What an entry of a node is read into: a part of its kind, or nothing. -/
def Parts.setEntry (format : Format) (kind : Kind) (key : String) (d : Data) (p : Parts) :
    Except Refusal Parts :=
  match kind.part? key with
  | some part => p.set part d (fun _ => listOfData format d) (fun _ => ofData format true d)
  | none => .ok p

end CheckSpec

namespace Config

/-- The settings of a configuration: its sections. -/
def settings (c : Config) : List Setting :=
  [⟨"observability", Data.Gives c.observability.settings, c.observability = {}⟩,
    ⟨"report", Data.Gives c.reporting.settings, c.reporting = {}⟩,
    ⟨"tree", Data.Gives c.tree.settings, c.tree = .bare⟩]

/-- Those of the sections that stand under these keys, and the defaults of the others. -/
def only (c : Config) (keys : List String) : Config where
  observability := keep keys "observability" c.observability {}
  reporting := keep keys "report" c.reporting {}
  tree := keep keys "tree" c.tree .bare

end Config

variable {settings : List Setting} {entries : List (String × Data)} {d : Data}

/-! ## What has been read so far -/

section keep

variable {α : Type} {keys : List String} {key other : String} {value default : α}

@[simp] theorem keep_head : keep (key :: keys) key value default = value :=
  if_pos List.mem_cons_self

@[simp] theorem keep_other (apart : key ≠ other) :
    keep (other :: keys) key value default = keep keys key value default := by
  have same : key ∈ other :: keys ↔ key ∈ keys :=
    ⟨fun mem => (List.mem_cons.mp mem).resolve_left apart, List.mem_cons_of_mem _⟩
  simp only [keep, same]

@[simp] theorem keep_same : keep keys key value value = value :=
  ite_self _

/-- A key that is missing only where the value is the default makes no difference. -/
theorem keep_of_left (left : key ∉ keys → value = default) :
    keep keys key value default = value := by
  unfold keep
  split
  · rfl
  · next missing => exact (left missing).symm

theorem getD_keep (left : key ∉ keys → value = default) :
    (keep keys key (some value) none).getD default = value := by
  unfold keep
  split
  · rfl
  · next missing => exact (left missing).symm

end keep

/-- **One entry after the other**: where each that may come next adds its key to what has been read,
all of them add theirs. -/
theorem foldlM_gives {σ : Type} {set : String → Data → σ → Except Refusal σ}
    {only : List String → σ}
    (step : ∀ x ∈ settings, ∀ d, x.spells d → ∀ keys,
      set x.key d (only keys) = .ok (only (x.key :: keys)))
    (given : ∀ e ∈ entries, ∃ x ∈ settings, x.key = e.1 ∧ x.spells e.2) (keys : List String) :
    entries.foldlM (fun s (key, d) => set key d s) (only keys) =
      .ok (only ((entries.map Prod.fst).reverse ++ keys)) := by
  induction entries generalizing keys with
  | nil => rfl
  | cons e rest ih =>
    obtain ⟨⟨x, mem, same, spelt⟩, others⟩ := List.forall_mem_cons.mp given
    have here := step x mem e.2 spelt keys
    rw [same] at here
    rw [List.foldlM_cons, List.map_cons, List.reverse_cons, List.append_assoc]
    simp only [here]
    exact ih others (e.1 :: keys)

/-- **A section whose entries give the settings of `target` is read as `target`.** -/
theorem readSection_gives {σ : Type} {set : String → Data → σ → Except Refusal σ}
    (only : List String → σ) {target : σ}
    (step : ∀ x ∈ settings, ∀ d, x.spells d → ∀ keys,
      set x.key d (only keys) = .ok (only (x.key :: keys)))
    (whole : ∀ keys, (∀ x ∈ settings, x.key ∉ keys → x.spare) → only keys = target)
    (gives : d.Gives settings) (format : Format) (wanted : Wanted) (keys : List String) :
    readSection format wanted keys set (only []) d = .ok target := by
  cases d with
  | map entries =>
    have gives : Gives settings entries := gives
    have read := foldlM_gives step gives.given []
    rw [List.append_nil] at read
    rw [readSection, read, whole]
    intro x mem missing
    rw [List.mem_reverse] at missing
    exact gives.left x mem missing
  | _ => exact gives.elim

/-- A setting that must not be missing stands under its key. -/
theorem Gives.lookup (gives : Gives settings entries) {x : Setting} (mem : x ∈ settings)
    (needed : ¬ x.spare) :
    ∃ d, entries.lookup x.key = some d ∧ ∃ y ∈ settings, y.key = x.key ∧ y.spells d := by
  have there : x.key ∈ entries.map Prod.fst :=
    Decidable.byContradiction fun missing => needed (gives.left x mem missing)
  obtain ⟨e, mem', same⟩ := List.mem_map.mp there
  cases found : entries.lookup x.key with
  | none =>
    have apart := List.lookup_eq_none_iff.mp found e mem'
    simp [same] at apart
  | some d =>
    obtain ⟨before, after, split, -⟩ := List.lookup_eq_some_iff.mp found
    obtain ⟨y, listed, key, spelt⟩ := gives.given (x.key, d) (by simp [split])
    exact ⟨d, rfl, y, listed, key, spelt⟩

/-! ## Sections -/

@[simp] theorem Data.toWord64_toNat (x : UInt64) : (Data.int x.toNat).toWord64 = .ok x := by
  show Except.map UInt64.ofNat (if x.toNat < UInt64.size then .ok x.toNat else _) = _
  rw [if_pos x.toNat_lt_size]
  exact congrArg Except.ok UInt64.ofNat_toNat

@[simp] theorem Data.toWord32_toNat (x : UInt32) : (Data.int x.toNat).toWord32 = .ok x := by
  show Except.map UInt32.ofNat (if x.toNat < UInt32.size then .ok x.toNat else _) = _
  rw [if_pos x.toNat_lt_size]
  exact congrArg Except.ok UInt32.ofNat_toNat

@[simp] theorem LogFormat.ofData_word (format : Format) (l : LogFormat) :
    LogFormat.ofData format (.str l.word) = .ok l := by
  cases l <;> rfl

theorem Observability.ofData_gives {o : Observability} (gives : d.Gives o.settings)
    (format : Format) : ofData format d = .ok o := by
  refine readSection_gives o.only ?_ ?_ gives format _ _
  · intro x mem d spelt keys
    simp only [settings, List.mem_cons, List.not_mem_nil, or_false] at mem
    rcases mem with rfl | rfl | rfl | rfl <;> cases spelt <;>
      simp [set, only, Data.toText, Data.toFlag, pure, Except.pure, bind, Except.bind]
  · intro keys left
    simp only [settings, List.forall_mem_cons] at left
    obtain ⟨level, layout, enabled, address, -⟩ := left
    simp only [only, keep_of_left level, keep_of_left layout, keep_of_left enabled,
      keep_of_left address]

theorem Reporting.ofData_gives {r : Reporting} (gives : d.Gives r.settings) (format : Format) :
    ofData format d = .ok r := by
  refine readSection_gives r.only ?_ ?_ gives format _ _
  · intro x mem d spelt keys
    simp only [settings, List.mem_cons, List.not_mem_nil, or_false] at mem
    rcases mem with rfl | rfl <;> cases spelt <;>
      simp [set, only, pure, Except.pure, bind, Except.bind]
  · intro keys left
    simp only [settings, List.forall_mem_cons] at left
    obtain ⟨interval, timeout, -⟩ := left
    simp only [only, keep_of_left interval, keep_of_left timeout]

/-! ## Check trees -/

namespace CheckSpec

theorem Kind.ofData_word (format : Format) (nested : Bool) (kind : Kind) :
    Kind.ofData format nested (.str kind.word) = .ok kind := by
  cases kind <;> rfl

/-- The kind of a check is none of its parts. -/
theorem Kind.part?_key (kind : Kind) : kind.part? Kind.key = none := by
  cases kind <;> rfl

theorem Kind.part?_of_mem {kind : Kind} {part : Part} (mem : part ∈ kind.parts) :
    kind.part? part.key = some part := by
  revert mem
  cases kind <;> cases part <;> decide

theorem partsOfEntries_eq_foldlM (format : Format) (kind : Kind) (entries : List (String × Data))
    (p : Parts) : partsOfEntries format kind entries p =
      entries.foldlM (fun p (key, d) => Parts.setEntry format kind key d p) p := by
  induction entries generalizing p with
  | nil => rfl
  | cons e rest ih =>
    obtain ⟨key, d⟩ := e
    rw [List.foldlM_cons]
    simp only [partsOfEntries, Parts.setEntry]
    cases kind.part? key with
    | none => exact ih p
    | some part => simp only [ih]; rfl

/-- What spells the kind of a node is its word: no part stands under the same key. -/
theorem word_of_spells {c : CheckSpec} {x : Setting} (mem : x ∈ c.settings)
    (key : x.key = Kind.key) (spelt : x.spells d) : d = .str c.kind.word := by
  rcases List.mem_cons.mp mem with rfl | mem
  · exact spelt
  · obtain ⟨part, its, rfl⟩ := List.mem_map.mp mem
    have none := c.kind.part?_key
    rw [← key, Kind.part?_of_mem its] at none
    cases none

/-- A part that must not be missing is there. -/
theorem need_keep {α : Type} {keys : List String} {part : Part} {value : α}
    (left : part.key ∉ keys → False) :
    Parts.need part (keep keys part.key (some value) none) = .ok value := by
  rw [keep_of_left fun missing => (left missing).elim, Parts.need]

/-- **Parts without some that are spare make the node.** -/
theorem spec_only {c : CheckSpec} {keys : List String}
    (left : ∀ part ∈ c.kind.parts, part.key ∉ keys → c.Spare part) :
    (c.parts.only keys).spec c.kind = .ok c := by
  cases c with
  | group name checks =>
    simp only [kind, Kind.parts, List.forall_mem_cons, Spare] at left
    obtain ⟨named, listed, -⟩ := left
    simp only [parts, Parts.only, kind, Parts.spec, need_keep named, getD_keep listed]
    rfl
  | cached interval check | debounced budget check =>
    simp only [kind, Kind.parts, List.forall_mem_cons, Spare] at left
    obtain ⟨first, inside, -⟩ := left
    simp only [parts, Parts.only, kind, Parts.spec, need_keep first, need_keep inside]
    rfl
  | fixed name status message =>
    simp only [kind, Kind.parts, List.forall_mem_cons, Spare] at left
    obtain ⟨named, rated, told, -⟩ := left
    simp only [parts, Parts.only, kind, Parts.spec, need_keep named, getD_keep rated,
      getD_keep told]
    rfl

/-- The parts of a node may be read one by one, whichever comes next. -/
def Readable (format : Format) (c : CheckSpec) : Prop :=
  ∀ part ∈ c.kind.parts, ∀ d, c.Spells part d → ∀ keys,
    (c.parts.only keys).set part d (fun _ => listOfData format d)
      (fun _ => ofData format true d) = .ok (c.parts.only (part.key :: keys))

/-- Each entry of a node adds its key to what has been read; its kind adds nothing else. -/
theorem setEntry_only {format : Format} {c : CheckSpec} (readable : c.Readable format) {x : Setting}
    (mem : x ∈ c.settings) (spelt : x.spells d) (keys : List String) :
    Parts.setEntry format c.kind x.key d (c.parts.only keys) =
      .ok (c.parts.only (x.key :: keys)) := by
  rcases List.mem_cons.mp mem with rfl | mem
  · have same : c.parts.only (Kind.key :: keys) = c.parts.only keys := by
      simp [Parts.only, Kind.key, Part.key]
    simp only [Parts.setEntry, Kind.part?_key, same]
  · obtain ⟨part, its, rfl⟩ := List.mem_map.mp mem
    simp only [Parts.setEntry, Kind.part?_of_mem its]
    exact readable part its d spelt keys

/-- **A node is read from what gives its settings**, where its parts may be read. -/
theorem ofData_node {format : Format} {c : CheckSpec} (readable : c.Readable format)
    (gives : d.Gives c.settings) (nested : Bool) : ofData format nested d = .ok c := by
  cases d with
  | map entries =>
    have gives : Gives c.settings entries := gives
    have tag : entries.lookup Kind.key = some (.str c.kind.word) := by
      obtain ⟨d, found, x, mem, key, spelt⟩ := gives.lookup List.mem_cons_self not_false
      exact found.trans (congrArg some (word_of_spells mem key spelt))
    have start : c.parts.only [] = {} := by cases c <;> rfl
    have read := foldlM_gives (fun x mem d spelt => setEntry_only readable mem spelt) gives.given []
    rw [← partsOfEntries_eq_foldlM, List.append_nil, start] at read
    simp only [ofData, tag, Kind.ofData_word, bind, Except.bind, read]
    apply spec_only
    intro part its missing
    rw [List.mem_reverse] at missing
    exact gives.left _ (List.mem_cons_of_mem _ (List.mem_map_of_mem its)) missing
  | _ => exact gives.elim

mutual
/-- **A check tree is read from what gives its settings**, whatever is left out at which level. -/
theorem ofData_gives {c : CheckSpec} {d : Data} (gives : d.Gives c.settings) (format : Format)
    (nested : Bool) : ofData format nested d = .ok c := by
  refine ofData_node (fun part _ d spelt keys => ?_) gives nested
  cases c with
  | group name checks =>
    cases part with
    | name =>
      cases spelt
      simp [Parts.set, parts, Parts.only, Data.toText, Part.key, pure, Except.pure, bind,
        Except.bind]
    | checks =>
      have read := listOfData_lists spelt format
      simp [Parts.set, parts, Parts.only, read, Part.key, pure, Except.pure, bind, Except.bind]
    | _ => exact spelt.elim
  | cached interval check =>
    cases part with
    | interval =>
      cases spelt
      simp [Parts.set, parts, Parts.only, Part.key, pure, Except.pure, bind, Except.bind]
    | check =>
      have read := ofData_gives (c := check) spelt format true
      simp [Parts.set, parts, Parts.only, read, Part.key, pure, Except.pure, bind, Except.bind]
    | _ => exact spelt.elim
  | debounced budget check =>
    cases part with
    | budget =>
      cases spelt
      simp [Parts.set, parts, Parts.only, Part.key, pure, Except.pure, bind, Except.bind]
    | check =>
      have read := ofData_gives (c := check) spelt format true
      simp [Parts.set, parts, Parts.only, read, Part.key, pure, Except.pure, bind, Except.bind]
    | _ => exact spelt.elim
  | fixed name status message =>
    cases part with
    | name | status | message =>
      cases spelt
      simp [Parts.set, parts, Parts.only, Data.toText, Status.read_word, Part.key, pure,
        Except.pure, bind, Except.bind]
    | _ => exact spelt.elim

theorem listOfData_lists {checks : List CheckSpec} {d : Data} (lists : d.Lists (Listed checks))
    (format : Format) : listOfData format d = .ok checks := by
  cases d with
  | list items => exact itemsOfData_listed lists format
  | _ => exact lists.elim

theorem itemsOfData_listed {checks : List CheckSpec} {items : List Data}
    (listed : Listed checks items) (format : Format) : itemsOfData format items = .ok checks := by
  cases checks with
  | nil =>
    cases items with
    | nil => rfl
    | cons => exact listed.elim
  | cons c rest =>
    cases items with
    | nil => exact listed.elim
    | cons d items =>
      obtain ⟨first, others⟩ := listed
      have first' := ofData_gives (c := c) first format true
      have others' := itemsOfData_listed others format
      simp [itemsOfData, first', others', pure, Except.pure, bind, Except.bind]
end

end CheckSpec

/-! ## What is written whole -/

theorem Observability.gives_toData (o : Observability) : o.toData.Gives o.settings where
  once := by simp
  given := by simp [settings]
  left := by simp [settings]

theorem Reporting.gives_toData (r : Reporting) : r.toData.Gives r.settings where
  once := by simp
  given := by simp [settings]
  left := by simp [settings]

namespace CheckSpec

/-- No two settings of a node stand under one key. -/
theorem Kind.keys_nodup (kind : Kind) : (Kind.key :: kind.parts.map Part.key).Nodup := by
  cases kind <;> decide

/-- The kind of a node and each of its parts in turn give its settings. -/
theorem gives_parts {c : CheckSpec} (data : Part → Data)
    (spelt : ∀ part ∈ c.kind.parts, c.Spells part (data part)) :
    Gives c.settings
      ((Kind.key, .str c.kind.word) :: c.kind.parts.map fun part => (part.key, data part)) where
  once := by
    rw [List.map_cons, List.map_map]
    exact c.kind.keys_nodup
  given := by
    refine List.forall_mem_cons.mpr ⟨⟨_, List.mem_cons_self, rfl, rfl⟩, ?_⟩
    intro e mem
    obtain ⟨part, its, rfl⟩ := List.mem_map.mp mem
    exact ⟨_, List.mem_cons_of_mem _ (List.mem_map_of_mem its), rfl, spelt part its⟩
  left := by
    intro x mem missing
    rw [List.map_cons, List.map_map] at missing
    rcases List.mem_cons.mp mem with rfl | mem
    · exact (missing List.mem_cons_self).elim
    · obtain ⟨part, its, rfl⟩ := List.mem_map.mp mem
      exact (missing (List.mem_cons_of_mem _ (List.mem_map_of_mem its))).elim

mutual
/-- **A check tree is written whole.** -/
theorem gives_toData (c : CheckSpec) : c.toData.Gives c.settings := by
  cases c with
  | group name checks =>
    refine gives_parts (fun | .name => .str name | _ => .list (listToData checks)) ?_
    exact List.forall_mem_cons.mpr ⟨rfl, List.forall_mem_singleton.mpr (listed_toData checks)⟩
  | cached interval check =>
    refine gives_parts (fun | .interval => .int interval.toNat | _ => check.toData) ?_
    exact List.forall_mem_cons.mpr ⟨rfl, List.forall_mem_singleton.mpr (gives_toData check)⟩
  | debounced budget check =>
    refine gives_parts (fun | .budget => .int budget.toNat | _ => check.toData) ?_
    exact List.forall_mem_cons.mpr ⟨rfl, List.forall_mem_singleton.mpr (gives_toData check)⟩
  | fixed name status message =>
    refine gives_parts
      (fun | .name => .str name | .status => .str status.word | _ => .str message) ?_
    simp [kind, Kind.parts, Spells]
theorem listed_toData (checks : List CheckSpec) : Listed checks (listToData checks) := by
  cases checks with
  | nil => trivial
  | cons c rest => exact ⟨gives_toData c, listed_toData rest⟩
end

end CheckSpec

theorem Config.gives_toData (c : Config) : c.toData.Gives c.settings where
  once := by simp
  given := by
    simp [settings, Observability.gives_toData, Reporting.gives_toData, CheckSpec.gives_toData]
  left := by simp [settings]

theorem Config.ofData_gives {c : Config} (gives : d.Gives c.settings) (format : Format) :
    ofData format d = .ok c := by
  refine readSection_gives c.only ?_ ?_ gives format _ _
  · intro x mem d spelt keys
    simp only [settings, List.mem_cons, List.not_mem_nil, or_false] at mem
    rcases mem with rfl | rfl | rfl
    · have read := Observability.ofData_gives spelt format
      simp [set, only, read, pure, Except.pure, bind, Except.bind]
    · have read := Reporting.ofData_gives spelt format
      simp [set, only, read, pure, Except.pure, bind, Except.bind]
    · have read := CheckSpec.ofData_gives spelt format false
      simp [set, only, read, pure, Except.pure, bind, Except.bind]
  · intro keys left
    simp only [settings, List.forall_mem_cons] at left
    obtain ⟨observability, report, tree, -⟩ := left
    simp only [only, keep_of_left observability, keep_of_left report, keep_of_left tree]

/-- **Nothing is lost on the way out and back in**: a configuration is written with all its
settings, is read again from what was written, and is still read from it when any settings that have
their defaults are left out, at any level, and the others are put in any order. -/
theorem Config.reads_abridged (c : Config) (format : Format) :
    c.toData.Gives c.settings ∧ ofData format c.toData = .ok c ∧
      ∀ d : Data, d.Gives c.settings → ofData format d = .ok c :=
  ⟨c.gives_toData, ofData_gives c.gives_toData format, fun _ gives => ofData_gives gives format⟩

/-- Left out here are a section, two settings of another, the children of a group, and what a leaf
says of itself. -/
theorem Config.reads_abridged_at_every_level :
    ofData .json (.map [
        ("tree", .map [
          ("checks", .list [
            .map [("check", .map [("name", .str "disk"), ("kind", .str "static")]),
              ("interval_ms", .int 5000), ("kind", .str "async")],
            .map [("kind", .str "delayed"), ("max_ignored_errors", .int 3),
              ("check", .map [("kind", .str "group"), ("name", .str "peers")])]]),
          ("name", .str "root"), ("kind", .str "group")]),
        ("observability", .map [("log_format", .str "json"), ("log_level", .str "debug")])]) =
      .ok {
        observability := { logLevel := "debug", logFormat := .json }
        tree := .group "root" [.cached 5000 (.fixed "disk" .healthy ""),
          .debounced 3 (.group "peers" [])] } := by
  refine (reads_abridged _ .json).2.2 _ ?_
  simp [settings, Observability.settings, Reporting.settings, CheckSpec.settings,
    CheckSpec.Kind.settings, CheckSpec.kind, CheckSpec.Kind.parts, CheckSpec.Kind.key,
    CheckSpec.Kind.word, CheckSpec.Part.key, CheckSpec.Spells, CheckSpec.Listed, CheckSpec.Spare,
    LogFormat.word, Data.Gives, Data.Lists, gives_iff, or_imp, forall_and, and_imp]

end HealthTree
