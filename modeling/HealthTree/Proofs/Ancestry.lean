import HealthTree.Proofs.Lifetimes

/-!
# What becomes of a scope, read off the run

A `Grove` is the scopes of a run with the time and the shutdowns that own some of them. Its actions
make scopes, cancel them, hand out scopes of a shutdown, trigger it, and let time pass.

Two lists are read off a run without looking at any node: where each scope comes from, with the
instant at which the timeout given with it runs out (`Grove.origins`), and which scopes were
cancelled (`Grove.cancels`). They say all that there is to know of a scope. Its deadline is the
earliest of the instants that were given on the way to it from its root; it was cancelled if and only
if it or a scope above it is on the second list; and cancellation is told before a deadline
(`forest_of_origins`).

Nothing is on the lists but what somebody would enter who sees the actions alone (`Book.of_run`).

What one action keeps is the account of a node by the one above it (`Scopes.Bears`). The closed form
follows along the way up, which descends in the numbers of the scopes.

**The cause of an end can change.** A scope that has run past its deadline and is cancelled then, or
has a scope above it cancelled, goes over from the one cause to the other (`cause_overtaken`). It is
the only change there is (`cause_of_later`).
-/

namespace HealthTree

/-- How a scope was made. -/
structure Origin where
  /-- The scope it was derived from. -/
  parent : Option ScopeId
  /-- The instant at which the timeout given with it runs out. -/
  expiry : Option Nat
  deriving DecidableEq, Repr

/-- **One scope is another, or lies above it**, as the origins have it: the other was derived from
it, or from one that it lies above. -/
inductive Above (origins : List Origin) : ScopeId → ScopeId → Prop
  | refl (scope : ScopeId) : Above origins scope scope
  | derived {above parent scope : ScopeId} {o : Origin} (made : origins[scope]? = some o)
      (comes : o.parent = some parent) (rest : Above origins above parent) :
      Above origins above scope

/-- A timeout that was given on the way to a scope runs out at this instant. -/
def Expires (origins : List Origin) (scope : ScopeId) (instant : Nat) : Prop :=
  ∃ above o, Above origins above scope ∧ origins[above]? = some o ∧ o.expiry = some instant

/-- The earliest of these instants, or that there is none. -/
def Earliest (instants : Nat → Prop) : Option Nat → Prop
  | some d => instants d ∧ ∀ t, instants t → d ≤ t
  | none => ∀ t, ¬ instants t

/-- The scopes of a run at an instant. -/
structure Grove where
  now : Nat := 0
  scopes : Scopes := {}
  /-- The scope that each shutdown owns. -/
  shutdowns : List ScopeId := []
  deriving Inhabited, DecidableEq, Repr

namespace Grove

/-- What can be done. -/
inductive Action where
  /-- Make a scope that comes from none. -/
  | background
  | withCancel (parent : ScopeId)
  | withTimeout (parent : ScopeId) (timeout : Nat)
  | cancel (scope : ScopeId)
  /-- Set up a shutdown, with a scope of its own that comes from none. -/
  | setUp
  /-- Have the shutdown of this number hand out a scope. -/
  | handOut (shutdown : Nat)
  | trigger (shutdown : Nat)
  /-- Let time pass. -/
  | pass (ms : Nat)
  deriving DecidableEq, Repr

/-- **What an action does.** On a scope or a shutdown that is not there it does nothing. -/
def act (g : Grove) : Action → Grove
  | .background => { g with scopes := g.scopes.background.2 }
  | .withCancel parent =>
    if parent < g.scopes.next then { g with scopes := (g.scopes.withCancel parent).2 } else g
  | .withTimeout parent timeout =>
    if parent < g.scopes.next then
      { g with scopes := (g.scopes.withTimeout parent g.now timeout).2 }
    else g
  | .cancel scope =>
    if scope < g.scopes.next then { g with scopes := g.scopes.cancel scope } else g
  | .setUp =>
    let (root, scopes) := g.scopes.background
    { g with scopes := scopes, shutdowns := g.shutdowns ++ [root] }
  | .handOut shutdown =>
    match g.shutdowns[shutdown]? with
    | some root => { g with scopes := (g.scopes.withCancel root).2 }
    | none => g
  | .trigger shutdown =>
    match g.shutdowns[shutdown]? with
    | some root => { g with scopes := g.scopes.cancel root }
    | none => g
  | .pass ms => { g with now := g.now + ms }

/-- One action after the other. -/
def acts (g : Grove) (run : List Action) : Grove :=
  run.foldl act g

/-- Why a scope has ended, or `none` while it is live. -/
def cause? (g : Grove) (scope : ScopeId) : Option Fault :=
  g.scopes.cause? g.now scope

/-- The deadline of a scope. -/
def deadline? (g : Grove) (scope : ScopeId) : Option Nat :=
  g.scopes.deadline? scope

/-- How the scope that an action makes comes about. -/
def origin? (g : Grove) : Action → Option Origin
  | .background | .setUp => some ⟨none, none⟩
  | .withCancel parent => if parent < g.scopes.next then some ⟨some parent, none⟩ else none
  | .withTimeout parent timeout =>
    if parent < g.scopes.next then some ⟨some parent, some (g.now + timeout)⟩ else none
  | .handOut shutdown => (g.shutdowns[shutdown]?).map fun root => ⟨some root, none⟩
  | .cancel _ | .trigger _ | .pass _ => none

/-- The scope that an action cancels. -/
def target? (g : Grove) : Action → Option ScopeId
  | .cancel scope => if scope < g.scopes.next then some scope else none
  | .trigger shutdown => g.shutdowns[shutdown]?
  | _ => none

/-- **How the scopes that a run makes come about**, in the order of their numbers. -/
def origins : Grove → List Action → List Origin
  | _, [] => []
  | g, a :: rest => (g.origin? a).toList ++ origins (g.act a) rest

/-- **The scopes that a run cancels.** -/
def cancels : Grove → List Action → List ScopeId
  | _, [] => []
  | g, a :: rest => (g.target? a).toList ++ cancels (g.act a) rest

end Grove

/-! ## A node by the one above it -/

namespace Scopes

variable {s : Scopes} {scope target : ScopeId}

/-- The node of a scope that is made now. -/
def node (s : Scopes) (o : Origin) : ScopeNode where
  parent := o.parent
  cancelled := o.parent.any s.isCancelled
  deadline := earlier (o.parent.bind s.deadline?) o.expiry

/-- After another is cancelled, a scope is cancelled if it was, if it is the other, or if the one it
comes from is. -/
theorem isCancelled_cancel_iff (known : scope < s.next)
    (earlier : ∀ parent, s.parent? scope = some parent → parent < scope) :
    (s.cancel target).isCancelled scope = true ↔
      s.isCancelled scope = true ∨ scope = target ∨
        ∃ parent, s.parent? scope = some parent ∧ (s.cancel target).isCancelled parent = true := by
  obtain ⟨n, found⟩ : ∃ n, s.node? scope = some n := ⟨_, List.getElem?_eq_getElem known⟩
  have comes : s.parent? scope = n.parent := by rw [parent?, found, Option.bind_some]
  have after := markBelow_node target [] s.nodes found fun parent is => by
    simpa using earlier parent (comes.trans is)
  rw [List.length_nil, Nat.zero_add] at after
  have marked : (s.cancel target).isCancelled scope =
      (n.cancelled || scope == target || n.parent.any (s.cancel target).isCancelled) := by
    simp only [isCancelled, node?, cancel, after, Option.any_some]
    rfl
  rw [marked, comes, isCancelled, found]
  cases n.parent <;> simp [or_assoc]

/-- **A scope is as its origin and the scopes that were cancelled make it**, given the one above
it. -/
structure Bears (s : Scopes) (cancels : List ScopeId) (scope : ScopeId) (o : Origin) : Prop where
  comes : s.parent? scope = o.parent
  earlier : ∀ parent, o.parent = some parent → parent < scope
  deadline : s.deadline? scope = Scopes.earlier (o.parent.bind s.deadline?) o.expiry
  cancelled : s.isCancelled scope = true ↔
    scope ∈ cancels ∨ ∃ parent, o.parent = some parent ∧ s.isCancelled parent = true

/-- **The scopes are accounted for** by these origins and these cancellations. -/
structure Recounted (s : Scopes) (origins : List Origin) (cancels : List ScopeId) : Prop where
  next : s.next = origins.length
  known : ∀ scope ∈ cancels, scope < s.next
  each : ∀ scope o, origins[scope]? = some o → s.Bears cancels scope o

namespace Recounted

variable {origins : List Origin} {cancels : List ScopeId}

theorem lt_next (recounted : s.Recounted origins cancels) {o : Origin}
    (made : origins[scope]? = some o) : scope < s.next :=
  recounted.next ▸ (List.getElem?_eq_some_iff.mp made).1

/-- One scope more. -/
theorem append (recounted : s.Recounted origins cancels) {o : Origin}
    (known : ∀ parent, o.parent = some parent → parent < s.next) :
    (⟨s.nodes ++ [s.node o]⟩ : Scopes).Recounted (origins ++ [o]) cancels := by
  have last : (⟨s.nodes ++ [s.node o]⟩ : Scopes).node? s.next = some (s.node o) :=
    List.getElem?_concat_length
  have bigger : (⟨s.nodes ++ [s.node o]⟩ : Scopes).next = s.next + 1 := List.length_append
  have deadline {scope : ScopeId} (old : scope < s.next) :
      (⟨s.nodes ++ [s.node o]⟩ : Scopes).deadline? scope = s.deadline? scope := by
    rw [deadline?, node?_append _ old, deadline?]
  -- the parent of a scope that is there already, or is made now, is there already
  have same (o' : Origin) (old : ∀ parent, o'.parent = some parent → parent < s.next) :
      o'.parent.bind (⟨s.nodes ++ [s.node o]⟩ : Scopes).deadline? = o'.parent.bind s.deadline? ∧
        ∀ parent, o'.parent = some parent ∧
            (⟨s.nodes ++ [s.node o]⟩ : Scopes).isCancelled parent = true ↔
          o'.parent = some parent ∧ s.isCancelled parent = true := by
    refine ⟨?_, fun parent => and_congr_right fun comes => ?_⟩
    · cases comes : o'.parent with
      | none => rfl
      | some parent => exact deadline (old parent comes)
    · rw [isCancelled_append _ (old parent comes)]
  refine ⟨?_, fun scope mem => ?_, fun scope o' made => ?_⟩
  · rw [bigger, List.length_append, List.length_singleton, recounted.next]
  · rw [bigger]
    exact Nat.lt_succ_of_lt (recounted.known scope mem)
  · rcases Nat.lt_or_ge scope origins.length with old | new
    · rw [List.getElem?_append_left old] at made
      have bears := recounted.each scope o' made
      have lt := recounted.lt_next made
      obtain ⟨above, marked⟩ := same o' fun parent comes =>
        Nat.lt_trans (bears.earlier parent comes) lt
      refine ⟨?_, bears.earlier, ?_, ?_⟩
      · rw [parent?, node?_append _ lt]
        exact bears.comes
      · rw [deadline lt, above]
        exact bears.deadline
      · simp only [isCancelled_append _ lt, marked]
        exact bears.cancelled
    · obtain ⟨rfl, rfl⟩ : scope = s.next ∧ o' = o := by
        have lt := (List.getElem?_eq_some_iff.mp made).1
        rw [List.length_append, List.length_singleton] at lt
        have here : scope = origins.length := Nat.le_antisymm (Nat.le_of_lt_succ lt) new
        subst here
        rw [List.getElem?_concat_length] at made
        exact ⟨recounted.next.symm, (Option.some.inj made).symm⟩
      obtain ⟨above, marked⟩ := same o' known
      refine ⟨by rw [parent?, last]; rfl, known, ?_, ?_⟩
      · rw [deadline?, last, above]
        rfl
      · have apart : s.next ∉ cancels := fun mem => Nat.lt_irrefl _ (recounted.known _ mem)
        have made : (⟨s.nodes ++ [s.node o']⟩ : Scopes).isCancelled s.next =
            o'.parent.any s.isCancelled := by
          rw [isCancelled, last]
          rfl
        simp only [made, marked, apart, false_or, Option.any_eq_true]

/-- One scope cancelled. -/
theorem cancel (recounted : s.Recounted origins cancels) (known : target < s.next) :
    (s.cancel target).Recounted origins (cancels ++ [target]) := by
  refine ⟨?_, fun scope mem => ?_, fun scope o made => ?_⟩
  · rw [cancel_next]
    exact recounted.next
  · rw [cancel_next]
    rcases List.mem_append.mp mem with mem | mem
    · exact recounted.known scope mem
    · rw [List.mem_singleton.mp mem]
      exact known
  · have bears := recounted.each scope o made
    have marked : (s.cancel target).isCancelled scope = true ↔ _ :=
      isCancelled_cancel_iff (recounted.lt_next made) fun parent comes =>
        bears.earlier parent (bears.comes ▸ comes)
    refine ⟨?_, bears.earlier, ?_, ?_⟩
    · rw [cancel_parent?]
      exact bears.comes
    · rw [cancel_deadline?, funext (cancel_deadline? s target)]
      exact bears.deadline
    · rw [marked, bears.cancelled, bears.comes, List.mem_append, List.mem_singleton]
      constructor
      · rintro ((mem | ⟨parent, comes, was⟩) | rfl | above)
        · exact .inl (.inl mem)
        · exact .inr ⟨parent, comes, isCancelled_cancel was target⟩
        · exact .inl (.inr rfl)
        · exact .inr above
      · rintro ((mem | rfl) | above)
        · exact .inl (.inl mem)
        · exact .inr (.inl rfl)
        · exact .inr (.inr above)

end Recounted

end Scopes

/-! ## Along the way up -/

variable {origins : List Origin} {scope above : ScopeId} {o : Origin}

/-- What lies above a scope is the scope itself, or lies above the one it was derived from. -/
theorem above_iff (made : origins[scope]? = some o) :
    Above origins above scope ↔
      above = scope ∨ ∃ parent, o.parent = some parent ∧ Above origins above parent := by
  constructor
  · intro is
    cases is with
    | refl => exact .inl rfl
    | derived made' comes rest =>
      cases made.symm.trans made'
      exact .inr ⟨_, comes, rest⟩
  · rintro (rfl | ⟨parent, comes, rest⟩)
    · exact .refl above
    · exact .derived made comes rest

theorem Above.trans {first second third : ScopeId} (upper : Above origins first second)
    (lower : Above origins second third) : Above origins first third := by
  induction lower with
  | refl => exact upper
  | derived made comes _ ih => exact .derived made comes ih

theorem expires_iff (made : origins[scope]? = some o) {t : Nat} :
    Expires origins scope t ↔
      (∃ parent, o.parent = some parent ∧ Expires origins parent t) ∨ o.expiry = some t := by
  constructor
  · rintro ⟨above, o', is, made', expiry⟩
    rcases (above_iff made).mp is with rfl | ⟨parent, comes, rest⟩
    · cases made.symm.trans made'
      exact .inr expiry
    · exact .inl ⟨parent, comes, above, o', rest, made', expiry⟩
  · rintro (⟨parent, comes, above, o', rest, made', expiry⟩ | expiry)
    · exact ⟨above, o', .derived made comes rest, made', expiry⟩
    · exact ⟨scope, o, .refl scope, made, expiry⟩

namespace Earliest

variable {P Q : Nat → Prop} {first second : Option Nat}

theorem congr (earliest : Earliest P first) (same : ∀ t, Q t ↔ P t) : Earliest Q first := by
  have eq : Q = P := funext fun t => propext (same t)
  exact eq ▸ earliest

theorem unique (earliest : Earliest P first) (other : Earliest P second) : first = second := by
  cases first with
  | none =>
    cases second with
    | none => rfl
    | some d => exact absurd other.1 (earliest d)
  | some d =>
    cases second with
    | none => exact absurd earliest.1 (other d)
    | some d' => rw [Nat.le_antisymm (earliest.2 d' other.1) (other.2 d earliest.1)]

/-- The earliest of some instants and others. -/
theorem or (earliest : Earliest P first) (other : Earliest Q second) :
    Earliest (fun t => P t ∨ Q t) (Scopes.earlier first second) := by
  cases first with
  | none =>
    refine Earliest.congr other fun t => ?_
    simp only [earliest t, false_or]
  | some d =>
    cases second with
    | none =>
      refine Earliest.congr earliest fun t => ?_
      simp only [other t, or_false]
    | some d' =>
      refine ⟨?_, fun t is => ?_⟩
      · rcases Nat.le_total d d' with le | le
        · rw [Nat.min_eq_left le]
          exact .inl earliest.1
        · rw [Nat.min_eq_right le]
          exact .inr other.1
      · rcases is with is | is
        · exact Nat.le_trans (Nat.min_le_left ..) (earliest.2 t is)
        · exact Nat.le_trans (Nat.min_le_right ..) (other.2 t is)

theorem only (instant : Option Nat) : Earliest (fun t => instant = some t) instant := by
  cases instant with
  | none => exact fun t is => nomatch is
  | some d => exact ⟨rfl, fun t is => Nat.le_of_eq (Option.some.inj is)⟩

end Earliest

namespace Scopes.Recounted

variable {s : Scopes} {cancels : List ScopeId} (recounted : s.Recounted origins cancels)
include recounted

/-- A scope that was not made is not there. -/
theorem node?_of_not_made (none : origins[scope]? = .none) : s.node? scope = .none := by
  rw [List.getElem?_eq_none_iff, ← recounted.next] at none
  exact List.getElem?_eq_none none

/-- **The deadline is the earliest of the instants given on the way.** -/
theorem earliest (scope : ScopeId) : Earliest (Expires origins scope) (s.deadline? scope) := by
  induction scope using Nat.strongRecOn with
  | ind scope ih =>
    cases made : origins[scope]? with
    | none =>
      rw [deadline?, recounted.node?_of_not_made made]
      rintro t ⟨above, o, is, made', -⟩
      cases is with
      | refl => cases made.symm.trans made'
      | derived made' => cases made.symm.trans made'
    | some o =>
      have bears := recounted.each scope o made
      have up : Earliest (fun t => ∃ parent, o.parent = some parent ∧ Expires origins parent t)
          (o.parent.bind s.deadline?) := by
        cases comes : o.parent with
        | none =>
          rintro t ⟨parent, some, -⟩
          cases some
        | some parent =>
          refine (ih parent (bears.earlier parent comes)).congr fun t => ?_
          simp
      rw [bears.deadline]
      exact (up.or (.only o.expiry)).congr fun t => expires_iff made

/-- **A scope is cancelled if and only if one above it was.** -/
theorem isCancelled_iff (scope : ScopeId) :
    s.isCancelled scope = true ↔ ∃ above ∈ cancels, Above origins above scope := by
  induction scope using Nat.strongRecOn with
  | ind scope ih =>
    cases made : origins[scope]? with
    | none =>
      have unknown : scope ∉ cancels := fun mem => by
        have lt := recounted.known scope mem
        rw [recounted.next] at lt
        exact absurd made (by simp [lt])
      rw [isCancelled, recounted.node?_of_not_made made]
      simp only [Option.any_none, Bool.false_eq_true, false_iff]
      rintro ⟨above, mem, is⟩
      cases is with
      | refl => exact unknown mem
      | derived made' => cases made.symm.trans made'
    | some o =>
      have bears := recounted.each scope o made
      rw [bears.cancelled]
      simp only [above_iff made]
      constructor
      · rintro (mem | ⟨parent, comes, was⟩)
        · exact ⟨scope, mem, .inl rfl⟩
        · obtain ⟨above, mem, is⟩ := (ih parent (bears.earlier parent comes)).mp was
          exact ⟨above, mem, .inr ⟨parent, comes, is⟩⟩
      · rintro ⟨above, mem, rfl | ⟨parent, comes, is⟩⟩
        · exact .inl mem
        · exact .inr ⟨parent, comes, (ih parent (bears.earlier parent comes)).mpr ⟨above, mem, is⟩⟩

/-- What lies above a scope that was made does not depend on what is made later. -/
theorem above_append_iff (more : List Origin) (old : scope < origins.length) :
    Above (origins ++ more) above scope ↔ Above origins above scope := by
  constructor
  · intro is
    induction is with
    | refl => exact .refl _
    | derived made comes _ ih =>
      rw [List.getElem?_append_left old] at made
      have lt := (recounted.each _ _ made).earlier _ comes
      exact .derived made comes (ih (Nat.lt_trans lt old))
  · intro is
    induction is with
    | refl => exact .refl _
    | derived made comes _ ih =>
      have lt := (recounted.each _ _ made).earlier _ comes
      exact .derived (by rw [List.getElem?_append_left old, made]) comes (ih (Nat.lt_trans lt old))

/-- What lies above a scope has no greater number. -/
theorem le_of_above (is : Above origins above scope) : above ≤ scope := by
  induction is with
  | refl => exact Nat.le_refl _
  | derived made comes _ ih =>
    exact Nat.le_trans ih (Nat.le_of_lt ((recounted.each _ _ made).earlier _ comes))

end Scopes.Recounted

/-! ## Runs -/

namespace Grove

variable {g : Grove}

/-- The scopes that the shutdowns own are there. -/
def Owned (g : Grove) : Prop :=
  ∀ root ∈ g.shutdowns, root < g.scopes.next

/-- **What an action can do**: make a scope under one that is there, cancel one that is there, or
leave the scopes as they are. -/
theorem act_cases (owned : g.Owned) (a : Action) :
    (∃ o, g.origin? a = some o ∧ g.target? a = none ∧
        (∀ parent, o.parent = some parent → parent < g.scopes.next) ∧
        (g.act a).scopes = ⟨g.scopes.nodes ++ [g.scopes.node o]⟩) ∨
      (∃ target < g.scopes.next, g.origin? a = none ∧ g.target? a = some target ∧
        (g.act a).scopes = g.scopes.cancel target) ∨
      (g.origin? a = none ∧ g.target? a = none ∧ (g.act a).scopes = g.scopes) := by
  have root (parent : ScopeId) : none = some parent → parent < g.scopes.next := nofun
  have under {p : ScopeId} (known : p < g.scopes.next) (parent : ScopeId)
      (is : some p = some parent) : parent < g.scopes.next := Option.some.inj is ▸ known
  cases a with
  | background => exact .inl ⟨_, rfl, rfl, root, rfl⟩
  | setUp => exact .inl ⟨_, rfl, rfl, root, rfl⟩
  | withCancel p =>
    by_cases known : p < g.scopes.next
    · exact .inl ⟨_, if_pos known, rfl, under known, congrArg Grove.scopes (if_pos known)⟩
    · exact .inr (.inr ⟨if_neg known, rfl, congrArg Grove.scopes (if_neg known)⟩)
  | withTimeout p timeout =>
    by_cases known : p < g.scopes.next
    · exact .inl ⟨_, if_pos known, rfl, under known, congrArg Grove.scopes (if_pos known)⟩
    · exact .inr (.inr ⟨if_neg known, rfl, congrArg Grove.scopes (if_neg known)⟩)
  | cancel target =>
    by_cases known : target < g.scopes.next
    · exact .inr (.inl ⟨target, known, rfl, if_pos known, congrArg Grove.scopes (if_pos known)⟩)
    · exact .inr (.inr ⟨rfl, if_neg known, congrArg Grove.scopes (if_neg known)⟩)
  | handOut k =>
    cases owns : g.shutdowns[k]? with
    | some p =>
      refine .inl ⟨⟨some p, none⟩, by rw [origin?, owns]; rfl, rfl,
        under (owned p (List.mem_of_getElem? owns)), by rw [act, owns]; rfl⟩
    | none => exact .inr (.inr ⟨by rw [origin?, owns]; rfl, rfl, by rw [act, owns]⟩)
  | trigger k =>
    cases owns : g.shutdowns[k]? with
    | some p =>
      exact .inr (.inl ⟨p, owned p (List.mem_of_getElem? owns), rfl, owns, by rw [act, owns]⟩)
    | none => exact .inr (.inr ⟨rfl, owns, by rw [act, owns]⟩)
  | pass ms => exact .inr (.inr ⟨rfl, rfl, rfl⟩)

/-- There are no fewer scopes after an action. -/
theorem act_grows (owned : g.Owned) (a : Action) : g.scopes.next ≤ (g.act a).scopes.next := by
  rcases act_cases owned a with ⟨o, -, -, -, after⟩ | ⟨target, -, -, -, after⟩ | ⟨-, -, after⟩
  · rw [after]
    exact Nat.le_trans (Nat.le_add_right ..) (Nat.le_of_eq List.length_append.symm)
  · exact Nat.le_of_eq (after ▸ (Scopes.cancel_next ..).symm)
  · exact Nat.le_of_eq (after ▸ rfl)

/-- A shutdown that is set up owns the scope that is made for it. -/
theorem act_shutdowns (g : Grove) (a : Action) :
    (g.act a).shutdowns = g.shutdowns ∨
      (g.act a).shutdowns = g.shutdowns ++ [g.scopes.next] ∧
        (g.act a).scopes.next = g.scopes.next + 1 := by
  cases a with
  | setUp => exact .inr ⟨rfl, List.length_append⟩
  | background | pass => exact .inl rfl
  | withCancel | withTimeout | cancel | handOut | trigger =>
    rw [act]
    split <;> exact .inl rfl

/-- The scopes are accounted for, and those that the shutdowns own are there. -/
structure Recounted (g : Grove) (origins : List Origin) (cancels : List ScopeId) : Prop where
  scopes : g.scopes.Recounted origins cancels
  owned : g.Owned

namespace Recounted

variable {origins : List Origin} {cancels : List ScopeId}

/-- An action keeps the account, with what it makes and what it cancels. -/
theorem act (recounted : g.Recounted origins cancels) (a : Action) :
    (g.act a).Recounted (origins ++ (g.origin? a).toList) (cancels ++ (g.target? a).toList) := by
  have scopes : (g.act a).scopes.Recounted (origins ++ (g.origin? a).toList)
      (cancels ++ (g.target? a).toList) := by
    rcases act_cases recounted.owned a with
      ⟨o, makes, cancelsNone, known, after⟩ | ⟨target, known, makesNone, cancels, after⟩ |
        ⟨makesNone, cancelsNone, after⟩
    · rw [after, makes, cancelsNone, Option.toList_none, List.append_nil]
      exact recounted.scopes.append known
    · rw [after, makesNone, cancels, Option.toList_none, List.append_nil]
      exact recounted.scopes.cancel known
    · simp only [after, makesNone, cancelsNone, Option.toList_none, List.append_nil]
      exact recounted.scopes
  refine ⟨scopes, fun root mem => ?_⟩
  rcases act_shutdowns g a with same | ⟨more, bigger⟩
  · rw [same] at mem
    exact Nat.lt_of_lt_of_le (recounted.owned root mem) (act_grows recounted.owned a)
  · rw [more, List.mem_append, List.mem_singleton] at mem
    rw [bigger]
    rcases mem with mem | rfl
    · exact Nat.lt_succ_of_lt (recounted.owned root mem)
    · exact Nat.lt_succ_self _

/-- So does a run. -/
theorem acts (recounted : g.Recounted origins cancels) (run : List Action) :
    (g.acts run).Recounted (origins ++ g.origins run) (cancels ++ g.cancels run) := by
  induction run generalizing g origins cancels with
  | nil => simpa [Grove.acts, Grove.origins, Grove.cancels] using recounted
  | cons a rest ih =>
    have after := ih (recounted.act a)
    rw [List.append_assoc, List.append_assoc] at after
    exact after

/-- So what was made and cancelled from the beginning accounts for every scope. -/
theorem of_run (run : List Action) :
    (({} : Grove).acts run).Recounted (({} : Grove).origins run) (({} : Grove).cancels run) := by
  have empty : ({} : Grove).Recounted [] [] :=
    ⟨⟨rfl, nofun, nofun⟩, nofun⟩
  exact empty.acts run

end Recounted

/-- **All that there is to know of a scope**, from how scopes were made and which were cancelled. -/
structure ClosedForm (g : Grove) (origins : List Origin) (cancels : List ScopeId)
    (scope : ScopeId) : Prop where
  deadline : Earliest (Expires origins scope) (g.deadline? scope)
  cancelled : g.cause? scope = some .cancelled ↔ ∃ above ∈ cancels, Above origins above scope
  exceeded : g.cause? scope = some .deadlineExceeded ↔
    (¬ ∃ above ∈ cancels, Above origins above scope) ∧ ∃ d ≤ g.now, g.deadline? scope = some d
  live : g.cause? scope = none ↔
    (¬ ∃ above ∈ cancels, Above origins above scope) ∧
      ∀ d, g.deadline? scope = some d → g.now < d

theorem Recounted.closedForm {origins : List Origin} {cancels : List ScopeId}
    (recounted : g.Recounted origins cancels) (scope : ScopeId) :
    g.ClosedForm origins cancels scope := by
  have marked := recounted.scopes.isCancelled_iff scope
  refine ⟨recounted.scopes.earliest scope, ?_, ?_, ?_⟩
  all_goals
    simp only [← marked, Grove.cause?, Scopes.cause?, Grove.deadline?]
    cases g.scopes.isCancelled scope with
    | true => simp
    | false => cases g.scopes.deadline? scope <;> simp [and_comm]

/-! ## Books -/

/-- What is entered of a run by somebody who sees the actions alone, and counts the scopes. -/
structure Book where
  now : Nat := 0
  origins : List Origin := []
  cancels : List ScopeId := []
  /-- The scope that each shutdown owns. -/
  shutdowns : List ScopeId := []
  deriving DecidableEq, Repr

namespace Book

/-- A scope is entered as it comes about. Its number is the next. -/
def make (b : Book) (o : Origin) : Book :=
  { b with origins := b.origins ++ [o] }

/-- A scope is entered as cancelled. -/
def strike (b : Book) (scope : ScopeId) : Book :=
  { b with cancels := b.cancels ++ [scope] }

/-- **What is entered of an action.** -/
def enter (b : Book) : Action → Book
  | .background => b.make ⟨none, none⟩
  | .withCancel parent =>
    if parent < b.origins.length then b.make ⟨some parent, none⟩ else b
  | .withTimeout parent timeout =>
    if parent < b.origins.length then b.make ⟨some parent, some (b.now + timeout)⟩ else b
  | .cancel scope => if scope < b.origins.length then b.strike scope else b
  | .setUp => { b.make ⟨none, none⟩ with shutdowns := b.shutdowns ++ [b.origins.length] }
  | .handOut shutdown => (b.shutdowns[shutdown]?).elim b fun root => b.make ⟨some root, none⟩
  | .trigger shutdown => (b.shutdowns[shutdown]?).elim b b.strike
  | .pass ms => { b with now := b.now + ms }

/-- The book of a run. -/
def of (run : List Action) : Book :=
  run.foldl enter {}

/-- **An action is entered as it is done.** -/
theorem enter_eq {origins : List Origin} {cancels : List ScopeId}
    (recounted : g.Recounted origins cancels) (a : Action) :
    (⟨g.now, origins, cancels, g.shutdowns⟩ : Book).enter a =
      ⟨(g.act a).now, origins ++ (g.origin? a).toList, cancels ++ (g.target? a).toList,
        (g.act a).shutdowns⟩ := by
  have next := recounted.scopes.next
  cases a with
  | background | pass => simp [enter, make, act, origin?, target?]
  | setUp =>
    have root : g.scopes.background.1 = origins.length := next
    simp [enter, make, act, origin?, target?, root]
  | withCancel parent | withTimeout parent =>
    by_cases known : parent < origins.length <;>
      simp [enter, make, act, origin?, target?, next, known]
  | cancel scope =>
    by_cases known : scope < origins.length <;>
      simp [enter, strike, act, origin?, target?, next, known]
  | handOut k | trigger k =>
    cases owns : g.shutdowns[k]? <;> simp [enter, make, strike, act, origin?, target?, owns]

theorem foldl_enter {origins : List Origin} {cancels : List ScopeId}
    (recounted : g.Recounted origins cancels) (run : List Action) :
    run.foldl enter ⟨g.now, origins, cancels, g.shutdowns⟩ =
      ⟨(g.acts run).now, origins ++ g.origins run, cancels ++ g.cancels run,
        (g.acts run).shutdowns⟩ := by
  induction run generalizing g origins cancels with
  | nil => simp [acts, Grove.origins, Grove.cancels]
  | cons a rest ih =>
    rw [List.foldl_cons, enter_eq recounted, ih (recounted.act a), List.append_assoc,
      List.append_assoc]
    rfl

/-- **The book of a run says what was done.** -/
theorem of_run (run : List Action) :
    of run = ⟨(({} : Grove).acts run).now, ({} : Grove).origins run, ({} : Grove).cancels run,
      (({} : Grove).acts run).shutdowns⟩ :=
  foldl_enter (Recounted.of_run []) run

end Book

/-! ## One run after another -/

theorem acts_append (g : Grove) (run later : List Action) :
    g.acts (run ++ later) = (g.acts run).acts later :=
  List.foldl_append

theorem origins_append (g : Grove) (run later : List Action) :
    g.origins (run ++ later) = g.origins run ++ (g.acts run).origins later := by
  induction run generalizing g with
  | nil => rfl
  | cons a rest ih =>
    rw [List.cons_append, origins, ih, origins, List.append_assoc]
    rfl

/-- Time does not go back. -/
theorem now_le_acts (g : Grove) (run : List Action) : g.now ≤ (g.acts run).now := by
  induction run generalizing g with
  | nil => exact Nat.le_refl _
  | cons a rest ih =>
    have one : g.now ≤ (g.act a).now := by
      cases a with
      | pass ms => exact Nat.le_add_right _ _
      | background | setUp => exact Nat.le_refl _
      | withCancel | withTimeout | cancel | handOut | trigger =>
        rw [act]
        split <;> exact Nat.le_refl _
    exact Nat.le_trans one (ih (g.act a))

/-- The scopes that are there keep their deadlines, and what lies above them stays the same. -/
theorem Recounted.later {origins : List Origin} {cancels : List ScopeId} {scope : ScopeId}
    (recounted : g.Recounted origins cancels) (run : List Action) (old : scope < origins.length) :
    (g.acts run).deadline? scope = g.deadline? scope ∧
      ∀ above, Above (origins ++ g.origins run) above scope ↔ Above origins above scope := by
  have same (above : ScopeId) :
      Above (origins ++ g.origins run) above scope ↔ Above origins above scope :=
    recounted.scopes.above_append_iff (g.origins run) old
  refine ⟨?_, same⟩
  have before := recounted.scopes.earliest scope
  refine ((recounted.acts run).scopes.earliest scope).unique (before.congr fun t => ?_)
  refine exists_congr fun above => exists_congr fun o => ?_
  rw [same]
  refine and_congr_right fun is => ?_
  have lt := Nat.lt_of_le_of_lt (recounted.scopes.le_of_above is) old
  rw [List.getElem?_append_left lt]

/-- A scope that has ended is there. -/
theorem Recounted.lt_of_ended {origins : List Origin} {cancels : List ScopeId} {scope : ScopeId}
    (recounted : g.Recounted origins cancels) (ended : g.cause? scope ≠ none) :
    scope < origins.length := by
  by_contra unmade
  have gone := recounted.scopes.node?_of_not_made
    (List.getElem?_eq_none (Nat.le_of_not_lt unmade))
  refine ended ?_
  simp [Grove.cause?, Scopes.cause?, Scopes.isCancelled, Scopes.deadline?, gone]

/-- What a run makes of the cause for which a scope has ended: cancelling the scope or one above it
makes it the cause, and nothing else changes it. -/
theorem Recounted.cause_acts {origins : List Origin} {cancels : List ScopeId} {scope : ScopeId}
    {cause : Fault} (recounted : g.Recounted origins cancels) (run : List Action)
    (ended : g.cause? scope = some cause) :
    ((∃ above ∈ g.cancels run, Above (origins ++ g.origins run) above scope) →
        (g.acts run).cause? scope = some .cancelled) ∧
      ((¬ ∃ above ∈ g.cancels run, Above (origins ++ g.origins run) above scope) →
        (g.acts run).cause? scope = some cause) := by
  have isOver : g.cause? scope ≠ none := by simp [ended]
  obtain ⟨deadline, same⟩ := recounted.later run (recounted.lt_of_ended isOver)
  have before := recounted.closedForm scope
  have after := (recounted.acts run).closedForm scope
  refine ⟨?_, fun none => ?_⟩
  · rintro ⟨above, mem, is⟩
    exact after.cancelled.mpr ⟨above, List.mem_append_right _ mem, is⟩
  · by_cases was : ∃ above ∈ cancels, Above origins above scope
    · rw [← ended, before.cancelled.mpr was]
      obtain ⟨above, mem, is⟩ := was
      exact after.cancelled.mpr ⟨above, List.mem_append_left _ mem, (same above).mpr is⟩
    · obtain ⟨d, deadline', passed⟩ : ∃ d, g.deadline? scope = some d ∧ d ≤ g.now := by
        by_contra later
        refine isOver (before.live.mpr ⟨was, fun d deadline' => ?_⟩)
        exact Nat.lt_of_not_le fun passed => later ⟨d, deadline', passed⟩
      rw [← ended, before.exceeded.mpr ⟨was, d, passed, deadline'⟩]
      refine after.exceeded.mpr ⟨?_, d, Nat.le_trans passed (now_le_acts g run), ?_⟩
      · rintro ⟨above, mem, is⟩
        rcases List.mem_append.mp mem with mem | mem
        · exact was ⟨above, mem, (same above).mp is⟩
        · exact none ⟨above, mem, is⟩
      · rw [deadline, deadline']

/-! ## The laws -/

/-- **The laws of a scope**, from how scopes were made and which were cancelled. -/
structure Lawful (g : Grove) (origins : List Origin) (cancels : List ScopeId)
    (scope : ScopeId) : Prop extends g.ClosedForm origins cancels scope where
  /-- It has no later deadline than any scope above it. -/
  bounded : ∀ above d, Above origins above scope → g.deadline? above = some d →
    ∃ d' ≤ d, g.deadline? scope = some d'
  /-- It has ended if any scope above it has. -/
  outlived : ∀ above, Above origins above scope → g.cause? above ≠ none → g.cause? scope ≠ none
  /-- It does not begin again. -/
  permanent : ∀ run, g.cause? scope ≠ none → (g.acts run).cause? scope ≠ none
  /-- Cancelling a scope that does not lie above it leaves it as it is. -/
  apart : ∀ a target, g.target? a = some target → ¬ Above origins target scope →
    (g.act a).deadline? scope = g.deadline? scope ∧ (g.act a).cause? scope = g.cause? scope
  /-- So does cancelling one that it lies above, or that has the same parent. -/
  beside : ∀ target, scope ≠ target →
    (Above origins scope target ∨
      (origins[scope]?).map Origin.parent = (origins[target]?).map Origin.parent) →
    ¬ Above origins target scope

/-- What is cancelled leaves every scope that it does not lie above as it is. -/
theorem Recounted.apart {origins : List Origin} {cancels : List ScopeId} {scope target : ScopeId}
    (recounted : g.Recounted origins cancels) {a : Action} (cancelled : g.target? a = some target)
    (apart : ¬ Above origins target scope) :
    (g.act a).deadline? scope = g.deadline? scope ∧ (g.act a).cause? scope = g.cause? scope := by
  have after := recounted.act a
  obtain ⟨none, scopes⟩ : g.origin? a = none ∧ (g.act a).scopes = g.scopes.cancel target := by
    rcases act_cases recounted.owned a with
      ⟨o, -, isNone, -⟩ | ⟨target', -, none, cancels, scopes⟩ | ⟨-, isNone, -⟩
    · cases isNone.symm.trans cancelled
    · cases cancels.symm.trans cancelled
      exact ⟨none, scopes⟩
    · cases isNone.symm.trans cancelled
  have now : (g.act a).now = g.now := by
    cases a with
    | cancel | trigger =>
      rw [Grove.act]
      split <;> rfl
    | _ => cases cancelled
  rw [none, cancelled, Option.toList_none, List.append_nil] at after
  have deadline : (g.act a).scopes.deadline? scope = g.scopes.deadline? scope := by
    rw [scopes, Scopes.cancel_deadline?]
  have marked : (g.act a).scopes.isCancelled scope = g.scopes.isCancelled scope := by
    rw [Bool.eq_iff_iff, after.scopes.isCancelled_iff, recounted.scopes.isCancelled_iff]
    simp only [Option.toList_some, List.mem_append, List.mem_singleton]
    constructor
    · rintro ⟨above, mem | rfl, is⟩
      · exact ⟨above, mem, is⟩
      · exact absurd is apart
    · rintro ⟨above, mem, is⟩
      exact ⟨above, .inl mem, is⟩
  exact ⟨deadline, by rw [cause?, cause?, Scopes.cause?, Scopes.cause?, deadline, marked, now]⟩

/-- What lies beside a scope, or below it, does not lie above it. -/
theorem Recounted.beside {origins : List Origin} {cancels : List ScopeId} {scope target : ScopeId}
    (recounted : g.Recounted origins cancels) (other : scope ≠ target)
    (lies : Above origins scope target ∨
      (origins[scope]?).map Origin.parent = (origins[target]?).map Origin.parent) :
    ¬ Above origins target scope := by
  intro is
  cases is with
  | refl => exact other rfl
  | derived made comes rest =>
    have up := recounted.scopes.le_of_above rest
    rcases lies with below | same
    · have lt := (recounted.scopes.each _ _ made).earlier _ comes
      exact absurd (recounted.scopes.le_of_above below) (Nat.not_le.mpr (Nat.lt_of_le_of_lt up lt))
    · rw [made] at same
      obtain ⟨o', made', parents⟩ := Option.map_eq_some_iff.mp same.symm
      have lt := (recounted.scopes.each _ _ made').earlier _ (parents.trans comes)
      exact absurd up (Nat.not_le.mpr lt)

/-- **Every run is lawful.** -/
theorem lawful_of_run (run : List Action) (scope : ScopeId) :
    (({} : Grove).acts run).Lawful (({} : Grove).origins run) (({} : Grove).cancels run) scope := by
  have recounted := Recounted.of_run run
  have form := recounted.closedForm scope
  have bounded (above : ScopeId) (d : Nat) (is : Above (({} : Grove).origins run) above scope)
      (deadline : (({} : Grove).acts run).deadline? above = some d) :
      ∃ d' ≤ d, (({} : Grove).acts run).deadline? scope = some d' := by
    have given := (recounted.closedForm above).deadline
    rw [deadline] at given
    obtain ⟨⟨first, o, up, made, expiry⟩, -⟩ := given
    have expires : Expires (({} : Grove).origins run) scope d :=
      ⟨first, o, up.trans is, made, expiry⟩
    have own := form.deadline
    cases found : (({} : Grove).acts run).deadline? scope with
    | none => exact absurd expires ((found ▸ own) d)
    | some d' => exact ⟨d', (found ▸ own : Earliest _ (some d')).2 d expires, rfl⟩
  refine { form with
    bounded := bounded
    outlived := fun above is ended => ?_
    permanent := fun later ended => ?_
    apart := fun a target cancelled => recounted.apart cancelled
    beside := fun target => recounted.beside }
  · intro live
    obtain ⟨noneAbove, before⟩ := form.live.mp live
    refine ended ((recounted.closedForm above).live.mpr ⟨?_, fun d deadline => ?_⟩)
    · rintro ⟨first, mem, up⟩
      exact noneAbove ⟨first, mem, up.trans is⟩
    · obtain ⟨d', le, own⟩ := bounded above d is deadline
      exact Nat.lt_of_lt_of_le (before d' own) le
  · obtain ⟨cause, ended⟩ := Option.ne_none_iff_exists'.mp ended
    obtain ⟨overtaken, same⟩ := recounted.cause_acts later ended
    by_cases since : ∃ above ∈ (({} : Grove).acts run).cancels later,
        Above (({} : Grove).origins run ++ (({} : Grove).acts run).origins later) above scope
    · simp [overtaken since]
    · simp [same since]

/-- **What becomes of every scope, in every run.** The scopes are those that were made, numbered in
their order, and what was made, what was cancelled and what time it is are as the actions alone have
it. -/
theorem forest_of_origins (run : List Action) (scope : ScopeId) :
    let g := ({} : Grove).acts run
    let origins := ({} : Grove).origins run
    let cancels := ({} : Grove).cancels run
    g.Lawful origins cancels scope ∧ g.scopes.next = origins.length ∧
      Book.of run = ⟨g.now, origins, cancels, g.shutdowns⟩ :=
  ⟨lawful_of_run run scope, (Recounted.of_run run).scopes.next, Book.of_run run⟩

/-- A scope that comes from one with a shorter timeout has run past that, a scope under it was
cancelled before, and the scopes of a shutdown have ended with it. -/
theorem forest_of_origins_grown :
    let run : List Action := [.background, .withTimeout 0 50, .pass 20, .withTimeout 1 100,
      .withCancel 2, .setUp, .handOut 0, .cancel 3, .trigger 0, .withTimeout 7 10, .pass 40]
    let g := ({} : Grove).acts run
    let origins := ({} : Grove).origins run
    let cancels := ({} : Grove).cancels run
    g.Lawful origins cancels 2 ∧ g.scopes.next = 6 ∧ cancels = [3, 4] ∧ g.now = 60 ∧
      g.deadline? 2 = some 50 ∧ g.cause? 2 = some .deadlineExceeded ∧
        g.cause? 3 = some .cancelled ∧ g.cause? 5 = some .cancelled := by
  intro run g origins cancels
  obtain ⟨lawful, next, book⟩ := forest_of_origins run 2
  have listed : cancels = [3, 4] := (congrArg Book.cancels book).symm
  have now : g.now = 60 := (congrArg Book.now book).symm
  have deadline : g.deadline? 2 = some 50 := by decide
  have alone : ¬ ∃ above ∈ cancels, Above origins above 2 := by
    rintro ⟨above, mem, is⟩
    have le := (Recounted.of_run run).scopes.le_of_above is
    rw [listed] at mem
    simp only [List.mem_cons, List.not_mem_nil, or_false] at mem
    rcases mem with rfl | rfl <;> exact absurd le (by decide)
  refine ⟨lawful, next, listed, now, deadline,
    lawful.exceeded.mpr ⟨alone, 50, by rw [now]; decide, deadline⟩, ?_, ?_⟩
  · exact (forest_of_origins run 3).1.cancelled.mpr ⟨3, by decide, .refl 3⟩
  · exact (forest_of_origins run 5).1.cancelled.mpr ⟨4, by decide, .derived rfl rfl (.refl 4)⟩

/-- **The cause of an end stays the same, unless the scope or one above it is cancelled since.** -/
theorem cause_of_later {run later : List Action} {scope : ScopeId} {cause : Fault}
    (ended : (({} : Grove).acts run).cause? scope = some cause) :
    let origins := ({} : Grove).origins (run ++ later)
    let since := (({} : Grove).acts run).cancels later
    let after := ({} : Grove).acts (run ++ later)
    ((∃ above ∈ since, Above origins above scope) → after.cause? scope = some .cancelled) ∧
      ((¬ ∃ above ∈ since, Above origins above scope) → after.cause? scope = some cause) := by
  simp only [acts_append, origins_append]
  exact (Recounted.of_run run).cause_acts later ended

/-- A scope under one that has run past its deadline. It keeps that cause when a scope beside it is
cancelled and more time passes, and takes the other when its root is cancelled. -/
theorem cause_of_later_twice :
    let run : List Action := [.background, .withTimeout 0 10, .withCancel 1, .withTimeout 0 20,
      .pass 10]
    (({} : Grove).acts run).cause? 2 = some .deadlineExceeded ∧
      (({} : Grove).acts (run ++ [.cancel 3, .pass 100])).cause? 2 = some .deadlineExceeded ∧
      (({} : Grove).acts (run ++ [.cancel 3, .cancel 0])).cause? 2 = some .cancelled := by
  intro run
  have ended : (({} : Grove).acts run).cause? 2 = some .deadlineExceeded := by decide
  refine ⟨ended, (cause_of_later ended).2 ?_, (cause_of_later ended).1 ⟨0, by decide, ?_⟩⟩
  · rintro ⟨above, mem, is⟩
    have beside : above = 3 := List.mem_singleton.mp mem
    have le := (Recounted.of_run (run ++ [.cancel 3, .pass 100])).scopes.le_of_above is
    exact absurd (beside ▸ le) (by decide)
  · exact .derived rfl rfl (.derived rfl rfl (.refl 0))

/-- A scope that has run past its deadline and is cancelled then has ended for another cause than
before. -/
theorem cause_overtaken :
    let run : List Action := [.background, .withTimeout 0 10, .pass 10]
    (({} : Grove).acts run).cause? 1 = some .deadlineExceeded ∧
      (({} : Grove).acts (run ++ [.cancel 1])).cause? 1 = some .cancelled := by
  decide

end Grove

end HealthTree
