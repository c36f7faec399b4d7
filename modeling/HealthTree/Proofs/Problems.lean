import HealthTree.Config.Load
import Mathlib.Data.List.Induction
import Mathlib.Data.List.Nodup
import Mathlib.Data.List.TakeWhile

/-!
# Every problem in its place

A configured tree has places, and `CheckSpec.places` lists them in pre-order: a node before what is
below it, siblings in their order. What is wrong at a place is told by the node there and, if it is a
child of a group, by the siblings before it (`CheckSpec.problemsAt`); nothing else of the tree
matters. The problems that are reported are those of the settings and then those of the places, one
after the other (`problems_eq`). So nothing is reported twice or left out, and a configuration is
accepted exactly if nothing is wrong with it (`validated_exactly`).

A place is shown as a text. Two places are never shown alike (`Step.pathText_injective`), for a number
ends where its bracket does, and every step begins with a dot.
-/

namespace HealthTree

/-! ## Blank names -/

theorem Text.trim_eq_empty {s : String} : trim s = "" ↔ isBlankText s = true := by
  have ends : trim s = "" ↔ trimChars s.toList = [] := by
    rw [trim, ← String.ofList_nil]
    exact String.ofList_inj
  rw [ends, trimChars, List.reverse_eq_nil_iff, List.dropWhile_eq_nil_iff, isBlankText,
    List.all_eq_true]
  constructor
  · intro inner c mem
    -- the first character that is not blank would be among those that are left
    have none : s.toList.dropWhile isBlank = [] := by
      by_contra left
      have blank := inner _ (List.mem_reverse.mpr (List.head_mem left))
      simp [List.head_dropWhile_not isBlank left] at blank
    exact List.dropWhile_eq_nil_iff.mp none c mem
  · intro all c mem
    exact all c (List.dropWhile_sublist isBlank |>.subset (List.mem_reverse.mp mem))

/-! ## Places -/

/-- The one step leads to an earlier sibling than the other. -/
def Step.Before : Step → Step → Prop
  | child i, child j => i < j
  | child _, inner | inner, child _ | inner, inner => False

namespace CheckSpec

mutual
/-- **The places of a tree in pre-order.** -/
def places : CheckSpec → List (List Step)
  | group _ checks => [] :: placesFrom 0 checks
  | cached _ check | debounced _ check => [] :: check.places.map (.inner :: ·)
  | fixed _ _ _ => [[]]
/-- The places below a group, of its children from this number on. -/
def placesFrom (i : Nat) : List CheckSpec → List (List Step)
  | [] => []
  | c :: rest => c.places.map (.child i :: ·) ++ placesFrom (i + 1) rest
end

/-- What is wrong with a node by itself, which is at this place. -/
def ownProblems (path : List Step) (node : CheckSpec) : List Problem :=
  (if Text.trim node.name = "" then [.emptyName path] else []) ++
    match node with
    | cached interval check => if interval = 0 then [.zeroInterval check.name] else []
    | group _ _ | debounced _ _ | fixed _ _ _ => []

/-- What is wrong with the child of a group beside its siblings: one before it has its name. -/
def clashes (c : CheckSpec) (path : List Step) : List Problem :=
  match c.node? path.dropLast, path.getLast? with
  | some (group parent checks), some (.child i) =>
    match checks[i]? with
    | some child =>
      if child.name ∈ (checks.take i).map name then [.duplicateName parent child.name] else []
    | none => []
  | _, _ => []

/-- **What is wrong at one place of a tree.** -/
def problemsAt (c : CheckSpec) (path : List Step) : List Problem :=
  match c.node? path with
  | some node => c.clashes path ++ ownProblems path node
  | none => []

variable {c child : CheckSpec} {step : Step} {path : List Step}

theorem node?_append (c : CheckSpec) (path more : List Step) :
    c.node? (path ++ more) = (c.node? path).bind (·.node? more) := by
  induction path generalizing c with
  | nil => rfl
  | cons step path ih =>
    rw [List.cons_append, node?, node?]
    cases c.step? step with
    | none => rfl
    | some child => exact ih child

theorem node?_cons (below : c.step? step = some child) (path : List Step) :
    c.node? (step :: path) = child.node? path := by
  rw [node?, below]
  rfl

theorem mem_placesFrom {i : Nat} {checks : List CheckSpec} :
    path ∈ placesFrom i checks ↔
      ∃ k c rest, checks[k]? = some c ∧ rest ∈ c.places ∧ path = .child (i + k) :: rest := by
  induction checks generalizing i with
  | nil => simp [placesFrom]
  | cons first others ih =>
    rw [placesFrom, List.mem_append, ih, List.mem_map]
    constructor
    · rintro (⟨rest, mem, rfl⟩ | ⟨k, c, rest, found, mem, rfl⟩)
      · exact ⟨0, first, rest, rfl, mem, rfl⟩
      · exact ⟨k + 1, c, rest, found, mem, by rw [Nat.add_assoc, Nat.add_comm 1]⟩
    · rintro ⟨k, c, rest, found, mem, rfl⟩
      cases k with
      | zero =>
        cases found
        exact .inl ⟨rest, mem, rfl⟩
      | succ k => exact .inr ⟨k, c, rest, found, mem, by rw [Nat.add_assoc, Nat.add_comm 1]⟩

/-- The first place is that of the node itself; all others are below it. -/
theorem places_cons (c : CheckSpec) : ∃ later, c.places = [] :: later ∧ ∀ path ∈ later, path ≠ [] := by
  cases c with
  | fixed => exact ⟨[], rfl, List.forall_mem_nil _⟩
  | cached _ check | debounced _ check =>
    refine ⟨_, rfl, ?_⟩
    intro path mem
    obtain ⟨rest, -, rfl⟩ := List.mem_map.mp mem
    exact List.cons_ne_nil _ _
  | group _ checks =>
    refine ⟨_, rfl, ?_⟩
    intro path mem
    obtain ⟨k, c, rest, -, -, rfl⟩ := mem_placesFrom.mp mem
    exact List.cons_ne_nil _ _

mutual
/-- **The places are those at which there is a node.** -/
theorem mem_places (c : CheckSpec) (path : List Step) :
    path ∈ c.places ↔ ∃ node, c.node? path = some node := by
  cases path with
  | nil =>
    obtain ⟨later, places, -⟩ := c.places_cons
    simp [places, node?]
  | cons step path =>
    cases c with
    | fixed => simp [places, node?, step?]
    | cached _ check | debounced _ check =>
      have here := mem_places check path
      cases step <;> simp [places, node?, step?, here]
    | group _ checks =>
      cases step with
      | inner => simp [places, mem_placesFrom, node?, step?]
      | child i =>
        simp only [places, List.mem_cons, reduceCtorEq, false_or, mem_placesFrom, Nat.zero_add,
          List.cons.injEq, Step.child.injEq, node?, step?, Option.bind_eq_some_iff]
        constructor
        · rintro ⟨k, c, rest, found, mem, rfl, rfl⟩
          obtain ⟨node, there⟩ := (mem_placesOf checks c (List.mem_of_getElem? found) path).mp mem
          exact ⟨node, c, found, there⟩
        · rintro ⟨node, c, found, there⟩
          have mem := (mem_placesOf checks c (List.mem_of_getElem? found) path).mpr ⟨node, there⟩
          exact ⟨i, c, path, found, mem, rfl, rfl⟩
theorem mem_placesOf (checks : List CheckSpec) :
    ∀ c ∈ checks, ∀ path, path ∈ c.places ↔ ∃ node, c.node? path = some node := by
  cases checks with
  | nil => exact List.forall_mem_nil _
  | cons first rest =>
    intro c mem
    rcases List.mem_cons.mp mem with same | later
    · rw [same]
      exact mem_places first
    · exact mem_placesOf rest c later
end

/-- Below one step the order is that of the places there. -/
private theorem map_ordered {places : List (List Step)} (step : Step)
    (ordered : places.Pairwise (List.Lex Step.Before)) :
    (places.map (step :: ·)).Pairwise (List.Lex Step.Before) :=
  ordered.map _ fun _ _ before => .cons before

mutual
/-- **The places are in pre-order.** -/
theorem places_ordered (c : CheckSpec) : c.places.Pairwise (List.Lex Step.Before) := by
  obtain ⟨later, eq, below⟩ := c.places_cons
  have first : ∀ path ∈ later, List.Lex Step.Before [] path := by
    intro path mem
    obtain ⟨step, rest, rfl⟩ := List.exists_cons_of_ne_nil (below path mem)
    exact .nil
  rw [eq, List.pairwise_cons]
  refine ⟨first, ?_⟩
  cases c with
  | fixed =>
    cases eq
    exact .nil
  | cached _ check | debounced _ check =>
    cases eq
    exact map_ordered _ (places_ordered check)
  | group _ checks =>
    cases eq
    exact placesFrom_ordered 0 checks
theorem placesFrom_ordered (i : Nat) (checks : List CheckSpec) :
    (placesFrom i checks).Pairwise (List.Lex Step.Before) := by
  cases checks with
  | nil => exact .nil
  | cons c rest =>
    rw [placesFrom, List.pairwise_append]
    refine ⟨map_ordered _ (places_ordered c), placesFrom_ordered (i + 1) rest, ?_⟩
    intro path mem other mem'
    obtain ⟨_, -, rfl⟩ := List.mem_map.mp mem
    obtain ⟨k, _, _, -, -, rfl⟩ := mem_placesFrom.mp mem'
    apply List.Lex.rel
    simp only [Step.Before]
    omega
end

/-! ## The problems of a tree -/

theorem nameProblems_eq (name : String) :
    nameProblems name = if Text.trim name = "" then [.emptyName []] else [] := by
  rw [nameProblems]
  simp only [Text.trim_eq_empty]

theorem ownProblems_below (step : Step) (path : List Step) (node : CheckSpec) :
    (ownProblems path node).map (.below step) = ownProblems (step :: path) node := by
  unfold ownProblems
  rw [List.map_append]
  congr 1
  · split <;> rfl
  · cases node with
    | cached interval check =>
      simp only
      split <;> rfl
    | group | debounced | fixed => rfl

theorem clashes_below (c : CheckSpec) (step : Step) (path : List Step) :
    (c.clashes path).map (.below step) = c.clashes path := by
  unfold clashes
  split
  · split
    · split <;> rfl
    · rfl
  · rfl

/-- A node has no siblings that can be seen from it. -/
theorem clashes_nil (c : CheckSpec) : c.clashes [] = [] := by
  unfold clashes
  split
  · rename_i last
    cases last
  · rfl

/-- What clashes further down is seen from the node that it is below. -/
theorem clashes_cons (below : c.step? step = some child) (further : path ≠ []) :
    c.clashes (step :: path) = child.clashes path := by
  obtain ⟨first, rest, rfl⟩ := List.exists_cons_of_ne_nil further
  rw [clashes, clashes, List.dropLast_cons_cons, node?_cons below, List.getLast?_cons_cons]

/-- **The problems at the places below a step**: whether the node there clashes, and what is wrong seen
from that node. -/
theorem problemsAt_below (below : c.step? step = some child) :
    (child.places.map (step :: ·)).flatMap c.problemsAt =
      c.clashes [step] ++ (child.places.flatMap child.problemsAt).map (.below step) := by
  have further {path : List Step} (further : path ≠ []) :
      c.problemsAt (step :: path) = (child.problemsAt path).map (.below step) := by
    rw [problemsAt, problemsAt, node?_cons below]
    cases child.node? path with
    | none => rfl
    | some node =>
      simp only [clashes_cons below further, List.map_append, ownProblems_below, clashes_below]
  have here : c.problemsAt [step] = c.clashes [step] ++ (child.problemsAt []).map (.below step) := by
    rw [problemsAt, problemsAt, node?_cons below]
    simp only [node?, clashes_nil, List.nil_append, ownProblems_below]
  obtain ⟨later, places, apart⟩ := child.places_cons
  have rest : (later.map (step :: ·)).flatMap c.problemsAt =
      (later.flatMap child.problemsAt).map (.below step) := by
    rw [List.flatMap_map, List.map_flatMap]
    exact List.flatMap_congr fun path mem => further (apart path mem)
  rw [places, List.map_cons, List.flatMap_cons, List.flatMap_cons, here, rest, List.map_append,
    List.append_assoc]

mutual
/-- **The problems of a tree are those of its places**, one after the other. -/
theorem problems_eq (c : CheckSpec) : c.problems = c.places.flatMap c.problemsAt := by
  have root : c.problemsAt [] = ownProblems [] c := by
    rw [problemsAt]
    simp only [node?, clashes_nil, List.nil_append]
  cases c with
  | fixed name status message =>
    rw [places, List.flatMap_cons, root, problems, nameProblems_eq, ownProblems, List.flatMap_nil,
      List.append_nil, List.append_nil]
    rfl
  | cached interval check =>
    rw [places, List.flatMap_cons, root, problemsAt_below rfl, ← problems_eq check, problems,
      nameProblems_eq, ownProblems]
    rfl
  | debounced budget check =>
    rw [places, List.flatMap_cons, root, problemsAt_below rfl, ← problems_eq check, problems,
      nameProblems_eq, ownProblems, List.append_nil]
    rfl
  | group name checks =>
    have children := childProblems_eq name [] checks
    rw [places, List.flatMap_cons, root, problems, nameProblems_eq, ownProblems, List.append_nil]
    exact congrArg _ children
/-- So are those of the children of a group, where the others come first. -/
theorem childProblems_eq (parent : String) (others checks : List CheckSpec) :
    childProblems parent others.length (others.map name).reverse checks =
      (placesFrom others.length checks).flatMap (group parent (others ++ checks)).problemsAt := by
  cases checks with
  | nil => rfl
  | cons c rest =>
    have there : (others ++ c :: rest)[others.length]? = some c := by simp
    have below : (group parent (others ++ c :: rest)).step? (.child others.length) = some c := there
    have clash : (group parent (others ++ c :: rest)).clashes [.child others.length] =
        if c.name ∈ (others.map name).reverse then [.duplicateName parent c.name] else [] := by
      simp [clashes, node?]
    have later := childProblems_eq parent (others ++ [c]) rest
    rw [List.length_append, List.length_singleton, List.map_append, List.reverse_append,
      List.append_assoc] at later
    rw [placesFrom, List.flatMap_append, problemsAt_below below, ← problems_eq c, clash,
      childProblems]
    exact congrArg _ later
end

end CheckSpec

/-- The path that leads to a node with a blank name. -/
def Problem.emptyPath? : Problem → Option (List Step)
  | emptyName path => some path
  | duplicateName _ _ | zeroInterval _ | zeroSetting _ | unknownLogLevel _
  | invalidMetricsAddress _ => none

/-! ## Places as texts -/

namespace Step

/-- A place is not before itself. -/
theorem ne_of_before {path other : List Step} (before : List.Lex Before path other) :
    path ≠ other := by
  induction before with
  | nil => exact (List.cons_ne_nil _ _).symm
  | cons _ ih => exact fun same => ih (List.cons.inj same).2
  | @rel step _ step' _ first =>
    intro same
    rw [(List.cons.inj same).1] at first
    cases step' with
    | child => exact Nat.lt_irrefl _ first
    | inner => exact first

/-- A step as a text, character by character. -/
private theorem toList_text : (step : Step) → step.text.toList = match step with
    | child i => ".checks[".toList ++ (Nat.toDigits 10 i ++ [']'])
    | inner => ".check".toList
  | child i => by simp [text]
  | inner => rfl

private theorem toList_pathText (path : List Step) :
    (pathText path).toList = "tree".toList ++ path.flatMap (·.text.toList) := by
  rw [pathText, String.toList_append, String.toList_join, List.flatMap_map]

/-- What comes after a step begins with a dot. -/
private theorem head_of_texts {path : List Step} {c : Char} {cs : List Char}
    (eq : path.flatMap (·.text.toList) = c :: cs) : c = '.' := by
  cases path with
  | nil => cases eq
  | cons step rest => cases step <;> simp [toList_text] at eq <;> exact eq.1.symm

/-- A number that ends in a bracket is told by its text, and so is what comes after. -/
private theorem digits_inj {i j : Nat} {cs ds : List Char}
    (eq : Nat.toDigits 10 i ++ ']' :: cs = Nat.toDigits 10 j ++ ']' :: ds) : i = j ∧ cs = ds := by
  have apart (n : Nat) : ∀ c ∈ Nat.toDigits 10 n, (c != ']') = true := by
    intro c mem
    have digit := Nat.isDigit_of_mem_toDigits (by decide) (by decide) mem
    rw [bne_iff_ne]
    rintro rfl
    cases digit
  have number := congrArg (List.takeWhile (· != ']')) eq
  have rest := congrArg (List.dropWhile (· != ']')) eq
  rw [List.takeWhile_append_of_pos (apart i), List.takeWhile_append_of_pos (apart j)] at number
  rw [List.dropWhile_append_of_pos (apart i), List.dropWhile_append_of_pos (apart j)] at rest
  simp only [List.takeWhile_cons, bne_self_eq_false, Bool.false_eq_true, if_false, List.append_nil]
    at number
  simp only [List.dropWhile_cons, bne_self_eq_false, Bool.false_eq_true, if_false, List.cons.injEq,
    true_and] at rest
  refine ⟨?_, rest⟩
  rw [← Nat.ofDigitChars_ten_toDigits (n := i), number, Nat.ofDigitChars_ten_toDigits]

/-- **No two places are shown alike.** -/
theorem pathText_injective : Function.Injective pathText := by
  intro path other same
  have chars := congrArg String.toList same
  rw [toList_pathText, toList_pathText, List.append_cancel_left_eq] at chars
  clear same
  induction path generalizing other with
  | nil =>
    cases other with
    | nil => rfl
    | cons step rest => cases step <;> simp [toList_text] at chars
  | cons step path ih =>
    cases other with
    | nil => cases step <;> simp [toList_text] at chars
    | cons step' other =>
      rw [List.flatMap_cons, List.flatMap_cons, toList_text, toList_text] at chars
      cases step with
      | child i =>
        cases step' with
        | child j =>
          simp only [List.append_assoc, List.append_cancel_left_eq, List.singleton_append] at chars
          obtain ⟨rfl, rest⟩ := digits_inj chars
          rw [ih rest]
        | inner =>
          simp at chars
          cases head_of_texts chars.symm
      | inner =>
        cases step' with
        | child j =>
          simp at chars
          cases head_of_texts chars
        | inner =>
          rw [List.append_cancel_left_eq] at chars
          rw [ih chars]

end Step

/-! ## Configurations without problems -/

namespace CheckSpec

variable {c : CheckSpec}

/-- A tree has no problems if no place has one. -/
theorem problems_eq_nil_iff :
    c.problems = [] ↔ ∀ path node, c.node? path = some node →
      c.clashes path = [] ∧ ownProblems path node = [] := by
  rw [problems_eq, List.flatMap_eq_nil_iff]
  constructor
  · intro none path node found
    have here := none path ((mem_places c path).mpr ⟨node, found⟩)
    rw [problemsAt, found] at here
    exact List.append_eq_nil_iff.mp here
  · intro none path mem
    obtain ⟨node, found⟩ := (mem_places c path).mp mem
    rw [problemsAt, found]
    exact List.append_eq_nil_iff.mpr (none path node found)

theorem ownProblems_eq_nil_iff {path : List Step} {node : CheckSpec} :
    ownProblems path node = [] ↔ Text.trim node.name ≠ "" ∧
      ∀ interval check, node = cached interval check → 0 < interval := by
  unfold ownProblems
  rw [List.append_eq_nil_iff]
  apply and_congr
  · simp
  · cases node with
    | cached interval check => simp [UInt64.pos_iff_ne_zero]
    | group | debounced | fixed => simp

/-- The children of a group have names of their own if none has the name of one before it. -/
theorem nodup_names_iff {checks : List CheckSpec} :
    (checks.map name).Nodup ↔
      ∀ i child, checks[i]? = some child → child.name ∉ (checks.take i).map name := by
  induction checks using List.reverseRecOn with
  | nil => simp
  | append_singleton checks last ih =>
    rw [List.map_append, List.map_singleton, List.nodup_append_comm, List.singleton_append,
      List.nodup_cons, ih]
    constructor
    · rintro ⟨apart, others⟩ i child found
      rcases Nat.lt_trichotomy i checks.length with lt | rfl | gt
      · rw [List.getElem?_append_left lt] at found
        rw [List.take_append_of_le_length (Nat.le_of_lt lt)]
        exact others i child found
      · cases List.getElem?_concat_length.symm.trans found
        simpa using apart
      · rw [List.getElem?_eq_none (by simp; omega)] at found
        cases found
    · intro all
      refine ⟨?_, ?_⟩
      · simpa using all checks.length last List.getElem?_concat_length
      · intro i child found
        have lt := (List.getElem?_eq_some_iff.mp found).1
        have apart := all i child (by rwa [List.getElem?_append_left lt])
        rwa [List.take_append_of_le_length (Nat.le_of_lt lt)] at apart

/-- **Nothing clashes in a tree if the children of each group have names of their own.** -/
theorem clashes_eq_nil_iff :
    (∀ path node, c.node? path = some node → c.clashes path = []) ↔
      ∀ path parent checks, c.node? path = some (group parent checks) → (checks.map name).Nodup := by
  constructor
  · intro none path parent checks found
    rw [nodup_names_iff]
    intro i child there known
    have step : (group parent checks).step? (.child i) = some child := there
    have below : c.node? (path ++ [.child i]) = some child := by
      rw [node?_append, found, Option.bind_some, node?_cons step]
      rfl
    have clash := none _ child below
    rw [clashes, List.dropLast_concat, List.getLast?_concat, found] at clash
    simp only [there, if_pos known] at clash
    cases clash
  · intro distinct path node _
    unfold clashes
    split
    · rename_i parent checks i found last
      split
      · rename_i child there
        rw [if_neg (nodup_names_iff.mp (distinct _ _ _ found) i child there)]
      · rfl
    · rfl

theorem emptyPaths_clashes (c : CheckSpec) (path : List Step) :
    (c.clashes path).filterMap Problem.emptyPath? = [] := by
  unfold clashes
  split
  · split
    · split <;> rfl
    · rfl
  · rfl

theorem emptyPaths_own (path : List Step) (node : CheckSpec) :
    (ownProblems path node).filterMap Problem.emptyPath? =
      if Text.trim node.name = "" then [path] else [] := by
  unfold ownProblems
  rw [List.filterMap_append]
  have others : (match node with
      | cached interval check => if interval = 0 then [Problem.zeroInterval check.name] else []
      | group _ _ | debounced _ _ | fixed _ _ _ => []).filterMap Problem.emptyPath? = [] := by
    cases node with
    | cached interval check =>
      simp only
      split <;> rfl
    | group | debounced | fixed => rfl
  rw [others, List.append_nil]
  split <;> rfl

end CheckSpec

/-- The words for a level that a log may have. -/
def Level.words : List String :=
  ["trace", "debug", "info", "warn", "error"]

theorem Level.ofName?_isSome_iff {s : String} :
    (ofName? s).isSome ↔ Text.asciiLower s ∈ words := by
  simp only [ofName?, words, List.mem_cons, List.not_mem_nil, or_false]
  repeat' split
  all_goals simp_all

namespace Config

/-- **A configuration that nothing is wrong with.** -/
structure Sound (c : Config) : Prop where
  level : Text.asciiLower c.observability.logLevel ∈ Level.words
  address : c.observability.metricsEnabled = true →
    Address.isSocketAddress c.observability.metricsAddress = true
  interval : 0 < c.reporting.interval
  timeout : 0 < c.reporting.timeout
  named : ∀ path node, c.tree.node? path = some node → Text.trim node.name ≠ ""
  distinct : ∀ path parent checks, c.tree.node? path = some (.group parent checks) →
    (checks.map CheckSpec.name).Nodup
  positive : ∀ path interval check, c.tree.node? path = some (.cached interval check) → 0 < interval

/-- What is wrong with the settings, in their order, each at most once. -/
def settingProblems (c : Config) : List Problem :=
  (if Text.asciiLower c.observability.logLevel ∈ Level.words then []
    else [.unknownLogLevel c.observability.logLevel]) ++
  (if c.observability.metricsEnabled = true ∧
      Address.isSocketAddress c.observability.metricsAddress = false
    then [.invalidMetricsAddress c.observability.metricsAddress] else []) ++
  (if c.reporting.interval = 0 then [.zeroSetting .interval] else []) ++
  (if c.reporting.timeout = 0 then [.zeroSetting .timeout] else [])

variable {c : Config}

theorem problems_eq (c : Config) :
    c.problems = c.settingProblems ++ c.tree.places.flatMap c.tree.problemsAt := by
  rw [problems, ← CheckSpec.problems_eq, Observability.problems, Reporting.problems, settingProblems]
  simp only [Level.ofName?_isSome_iff, Bool.and_eq_true, Bool.not_eq_true', List.append_assoc]

theorem settingProblems_eq_nil_iff :
    c.settingProblems = [] ↔ Text.asciiLower c.observability.logLevel ∈ Level.words ∧
      (c.observability.metricsEnabled = true →
        Address.isSocketAddress c.observability.metricsAddress = true) ∧
      0 < c.reporting.interval ∧ 0 < c.reporting.timeout := by
  simp only [settingProblems, List.append_eq_nil_iff, UInt64.pos_iff_ne_zero]
  by_cases known : Text.asciiLower c.observability.logLevel ∈ Level.words <;>
    by_cases interval : c.reporting.interval = 0 <;>
      by_cases timeout : c.reporting.timeout = 0 <;> simp [known, interval, timeout]

/-- **Nothing is reported of a configuration exactly if nothing is wrong with it.** -/
theorem problems_eq_nil_iff : c.problems = [] ↔ c.Sound := by
  rw [problems_eq, List.append_eq_nil_iff, ← CheckSpec.problems_eq, CheckSpec.problems_eq_nil_iff,
    settingProblems_eq_nil_iff]
  constructor
  · rintro ⟨⟨level, address, interval, timeout⟩, none⟩
    have own path node found := CheckSpec.ownProblems_eq_nil_iff.mp (none path node found).2
    refine ⟨level, address, interval, timeout, ?_, ?_, ?_⟩
    · exact fun path node found => (own path node found).1
    · exact CheckSpec.clashes_eq_nil_iff.mp fun path node found => (none path node found).1
    · exact fun path interval check found => (own path _ found).2 interval check rfl
  · intro sound
    refine ⟨⟨sound.level, sound.address, sound.interval, sound.timeout⟩, ?_⟩
    intro path node found
    refine ⟨CheckSpec.clashes_eq_nil_iff.mpr sound.distinct path node found, ?_⟩
    apply CheckSpec.ownProblems_eq_nil_iff.mpr
    refine ⟨sound.named path node found, ?_⟩
    rintro interval check rfl
    exact sound.positive path interval check found

/-! ## What is reported -/

/-- **The paths of blank names are the places of these nodes**, each once. -/
theorem emptyPaths_eq (c : Config) :
    c.problems.filterMap Problem.emptyPath? = c.tree.places.filter fun path =>
      (c.tree.node? path).any fun node => Text.trim node.name = "" := by
  have setting : c.settingProblems.filterMap Problem.emptyPath? = [] := by
    apply List.filterMap_eq_nil_iff.mpr
    intro p mem
    simp only [settingProblems, List.mem_append, List.mem_ite_nil_left, List.mem_ite_nil_right,
      List.mem_singleton] at mem
    rcases mem with ((⟨-, rfl⟩ | ⟨-, rfl⟩) | ⟨-, rfl⟩) | ⟨-, rfl⟩ <;> rfl
  have place (path : List Step) : (c.tree.problemsAt path).filterMap Problem.emptyPath? =
      if (c.tree.node? path).any fun node => Text.trim node.name = "" then [path] else [] := by
    rw [CheckSpec.problemsAt]
    cases c.tree.node? path with
    | none => rfl
    | some node =>
      rw [List.filterMap_append, CheckSpec.emptyPaths_clashes, CheckSpec.emptyPaths_own]
      simp
  rw [problems_eq, List.filterMap_append, setting, List.nil_append, List.filterMap_flatMap]
  simp only [place]
  generalize c.tree.places = places
  induction places with
  | nil => rfl
  | cons path rest ih =>
    rw [List.flatMap_cons, ih, List.filter_cons]
    split <;> rfl

/-- **Validation reports exactly the problems there are.** A configuration is accepted if and only if
nothing is wrong with it. Else what is reported is what is wrong with the settings and then, place by
place, what is wrong with the tree. The places are in pre-order, and they are those at which there is
a node. A blank name is reported once for each node that has one, with the path that leads to the
node, and the texts of these paths all differ. -/
theorem validated_exactly (c : Config) :
    (c.validated = .ok c ↔ c.Sound) ∧
    (c.Sound ∨ c.validated = .error (.invalid
      (c.settingProblems ++ c.tree.places.flatMap c.tree.problemsAt))) ∧
    c.tree.places.Pairwise (List.Lex Step.Before) ∧
    (∀ path, path ∈ c.tree.places ↔ ∃ node, c.tree.node? path = some node) ∧
    (∀ path, .emptyName path ∈ c.problems ↔
      ∃ node, c.tree.node? path = some node ∧ Text.trim node.name = "") ∧
    ((c.problems.filterMap Problem.emptyPath?).map Step.pathText).Nodup := by
  have ordered := c.tree.places_ordered
  have accepted : c.validated = .ok c ↔ c.problems = [] := by
    unfold validated
    split <;> simp_all
  refine ⟨accepted.trans problems_eq_nil_iff, ?_, ordered, c.tree.mem_places, ?_, ?_⟩
  · rw [← problems_eq]
    unfold validated
    split
    · rename_i none
      exact .inl (problems_eq_nil_iff.mp none)
    · exact .inr rfl
  · intro path
    have listed : .emptyName path ∈ c.problems ↔ path ∈ c.problems.filterMap Problem.emptyPath? := by
      rw [List.mem_filterMap]
      constructor
      · intro mem
        exact ⟨_, mem, rfl⟩
      · rintro ⟨p, mem, its⟩
        cases p with
        | emptyName => exact Option.some.inj its ▸ mem
        | _ => cases its
    rw [listed, emptyPaths_eq, List.mem_filter, c.tree.mem_places]
    simp only [Option.any_eq_true, decide_eq_true_eq]
    constructor
    · exact fun found => found.2
    · rintro ⟨node, found, blank⟩
      exact ⟨⟨node, found⟩, node, found, blank⟩
  · rw [emptyPaths_eq]
    have distinct := ordered.imp fun before => Step.ne_of_before before
    exact (List.Nodup.filter _ distinct).map Step.pathText_injective

/-- All that can be wrong in a tree: a group without a name, two children of one name, an interval of
zero, and a name that is blank for the node around it too. -/
example :
    let tree : CheckSpec := .group " " [.fixed "db" .healthy "", .cached 0 (.fixed "db" .healthy ""),
      .debounced 1 (.fixed "" .healthy "")]
    ({ observability := { logLevel := "loud" }, tree := tree } : Config).problems =
      [.unknownLogLevel "loud", .emptyName [], .duplicateName " " "db", .zeroInterval "db",
        .emptyName [.child 2], .emptyName [.child 2, .inner]] := by decide +kernel

end Config

end HealthTree
