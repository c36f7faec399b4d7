import HealthTree.Proofs.Calls
import HealthTree.Proofs.Gathering

/-!
# What a call comes to, given what its probes answer

A call that is not interrupted asks each probe below it once. `Check.comesTo` is its outcome read
off the answers, with no clock and no order in it: the children of a group are gathered as they
stand, and a debounced check answers from what it kept before the call. `Check.Settled` says what
the debounced checks keep afterwards.

Calls differ from this in one thing. The fault that an aggregate wraps is the one that came last,
and outcomes are compared without it (`Outcome.outline`). That is enough to see all the rest: a
group judges the outline of an answer only (`judged_outline`), it gathers the same from the same
entries in any order (`outcome_outline`), and a debounced check does not keep the fault of a failure
(`after_outline`).
-/

namespace HealthTree

/-! ## Outcomes without the fault that an aggregate wraps -/

/-- **The fault without the one it wraps.** -/
def Fault.outline : Fault → Fault
  | aggregate failed total _ => aggregate failed total (probe "")
  | probe message => probe message
  | pending name => pending name
  | panicked name => panicked name
  | cancelled => cancelled
  | deadlineExceeded => deadlineExceeded

/-- The words of a fault are in its outline. -/
theorem Fault.message_outline (f : Fault) : f.outline.message = f.message := by
  cases f <;> rfl

namespace Outcome

/-- **An outcome without the fault that its own wraps.** -/
def outline : Outcome → Outcome
  | .ok h => .ok h
  | .error f => .error ⟨f.health, f.fault.outline⟩

@[simp] theorem outline_isOk (o : Outcome) : o.outline.isOk = o.isOk := by
  cases o <;> rfl

@[simp] theorem outline_health (o : Outcome) : o.outline.health = o.health := by
  cases o <;> rfl

@[simp] theorem outline_fault? (o : Outcome) : o.outline.fault? = o.fault?.map Fault.outline := by
  cases o <;> rfl

/-- Outcomes of one outline are on one side and say the same, and of aggregates they count the
same. -/
theorem of_outline {o o' : Outcome} (same : o.outline = o'.outline) :
    o.isOk = o'.isOk ∧ o.health = o'.health ∧ ∀ failed total last,
      o.fault? = some (.aggregate failed total last) →
        ∃ last', o'.fault? = some (.aggregate failed total last') := by
  refine ⟨?_, ?_, ?_⟩
  · rw [← outline_isOk, same, outline_isOk]
  · rw [← outline_health, same, outline_health]
  · intro failed total last told
    have shown := congrArg fault? same
    rw [outline_fault?, outline_fault?, told] at shown
    obtain ⟨fault, told', outline⟩ := Option.map_eq_some_iff.mp shown.symm
    cases fault <;> cases outline
    exact ⟨_, told'⟩

/-- A group sees the outline of an answer only. -/
theorem judged_outline (name : String) (o : Outcome) :
    (o.outline.judged name).health = (o.judged name).health := by
  cases o with
  | ok h => rfl
  | error f =>
    show (Failure.normalized _).health = f.normalized.health
    unfold Failure.normalized Failure.normalHealth
    rw [Fault.message_outline]

end Outcome

namespace Debounce

variable (d : Debounce) {o o' : Outcome}

/-- A debounced check keeps the same for one outline. -/
theorem after_outline (same : o.outline = o'.outline) : d.after o = d.after o' := by
  cases o with
  | ok h =>
    cases o' with
    | ok h' =>
      cases same
      rfl
    | error f' => cases same
  | error f =>
    cases o' with
    | ok h' => cases same
    | error f' => rfl

/-- It answers with one outline for one outline. -/
theorem answer_outline (budget : UInt32) (same : o.outline = o'.outline) :
    (d.answer budget o).outline = (d.answer budget o').outline := by
  cases o with
  | ok h =>
    cases o' with
    | ok h' => exact same
    | error f' => cases same
  | error f =>
    cases o' with
    | ok h' => cases same
    | error f' =>
      simp only [answer]
      split
      · rfl
      · exact same

end Debounce

namespace Gathered

/-- **Answers of the same outlines come to one outline**, in whatever order they came. -/
theorem outcome_outline {given given' : List (String × Outcome)}
    (distinct : (given.map Prod.fst).Nodup)
    (perm : (given.map fun a => (a.1, a.2.outline)).Perm (given'.map fun a => (a.1, a.2.outline)))
    (total : Nat) :
    Outcome.outline ((ofAnswers given).outcome total) =
      Outcome.outline ((ofAnswers given').outcome total) := by
  have entries (answers : List (String × Outcome)) :
      (answers.map fun a => (a.1, a.2.outline)).map entry = answers.map entry := by
    rw [List.map_map]
    apply List.map_congr_left
    intro a _
    exact congrArg (Prod.mk a.1) (Outcome.judged_outline a.1 a.2)
  have same := perm.map entry
  rw [entries, entries] at same
  obtain ⟨services, failed, told⟩ := ofAnswers_perm distinct same
  unfold outcome
  rw [services, failed]
  cases last : (ofAnswers given).last with
  | none => rw [told.mp last]
  | some fault =>
    cases last' : (ofAnswers given').last with
    | none =>
      rw [told.mpr last'] at last
      cases last
    | some fault' => rfl

end Gathered

/-! ## The evaluation -/

/-- **What each probe answers**, by the names on the way to it; `none` is a panic. -/
abbrev Answers := List String → Option Outcome

/-- What the probes below the child of this name answer. -/
def Answers.under (answers : Answers) (name : String) : Answers :=
  fun path => answers (name :: path)

namespace Check

mutual
/-- **What a call comes to** if nothing interrupts it, the probes answer like this, and this is what
the debounced checks keep before it; `none` is a panic. Caches are left out of it. -/
def comesTo (kept : List Debounce) (answers : Answers) : Check → Option Outcome
  | fixed name status message => some (fixedOutcome name status message)
  | probe _ => answers []
  | group _ children =>
    some (if children.isEmpty then .ok .healthy
      else (Gathered.ofAnswers (allComeTo kept answers children)).outcome children.length)
  | cached _ _ _ => none
  | debounced slot budget inner =>
    (inner.comesTo kept answers).map (((kept[slot]?).getD (.initial budget)).answer budget)
/-- What a group takes for the answers of its children. -/
def allComeTo (kept : List Debounce) (answers : Answers) : List Check → List (String × Outcome)
  | [] => []
  | c :: rest =>
    (c.name, (c.comesTo kept (answers.under c.name)).getD (.error (.ofFault (.panicked c.name)))) ::
      allComeTo kept answers rest
end

mutual
/-- **The debounced checks keep what such a call leaves them with**: each is shown what its inner
check comes to, unless that panics. -/
def Settled (kept : List Debounce) (answers : Answers) : Check → List Debounce → Prop
  | fixed _ _ _, _ | probe _, _ | cached _ _ _, _ => True
  | group _ children, after => AllSettled kept answers children after
  | debounced slot _ inner, after =>
    inner.Settled kept answers after ∧
      after[slot]? = match inner.comesTo kept answers with
        | some o => (kept[slot]?).map (·.after o)
        | none => kept[slot]?
/-- So do those below each of these. -/
def AllSettled (kept : List Debounce) (answers : Answers) : List Check → List Debounce → Prop
  | [], _ => True
  | c :: rest, after =>
    c.Settled kept (answers.under c.name) after ∧ AllSettled kept answers rest after
end

mutual
/-- The numbers of the debounced checks below a check, in declaration order. -/
def delays : Check → List Nat
  | fixed _ _ _ | probe _ => []
  | group _ children => delaysOf children
  | cached _ _ inner => inner.delays
  | debounced slot _ inner => slot :: inner.delays
/-- The same for several. -/
def delaysOf : List Check → List Nat
  | [] => []
  | c :: rest => c.delays ++ delaysOf rest
end

mutual
/-- **Groups and debounced checks over leaves**: there is no cache, and the children of a group have
names of their own. -/
def Plain : Check → Prop
  | fixed _ _ _ | probe _ => True
  | group _ children => (children.map name).Nodup ∧ AllPlain children
  | cached _ _ _ => False
  | debounced _ _ inner => inner.Plain
/-- All of these are. -/
def AllPlain : List Check → Prop
  | [] => True
  | c :: rest => c.Plain ∧ AllPlain rest
end

mutual
/-- **The check with the scripts of its probes taken out**: what is left says which probes there
are, not what they answer or how long they take. -/
def unscripted : Check → Check
  | fixed name status message => fixed name status message
  | probe p => probe ⟨p.name, p.id, default, []⟩
  | group name children => group name (allUnscripted children)
  | cached slot interval inner => cached slot interval inner.unscripted
  | debounced slot budget inner => debounced slot budget inner.unscripted
/-- The same for several. -/
def allUnscripted : List Check → List Check
  | [] => []
  | c :: rest => c.unscripted :: allUnscripted rest
end

variable {kept : List Debounce} {answers : Answers}

/-- A group comes to an outcome, never to a panic, and fails with an aggregate. -/
theorem comesTo_group (kept : List Debounce) (answers : Answers) (name : String)
    (children : List Check) :
    ∃ o, (group name children).comesTo kept answers = some o ∧
      ∀ fault, o.fault? = some fault → ∃ failed total last, fault = .aggregate failed total last := by
  refine ⟨_, rfl, ?_⟩
  intro fault told
  split at told
  · cases told
  · unfold Gathered.outcome at told
    split at told <;> cases told
    exact ⟨_, _, _, rfl⟩

theorem allComeTo_eq (children : List Check) :
    allComeTo kept answers children = children.map fun c => (c.name,
      (c.comesTo kept (answers.under c.name)).getD (.error (.ofFault (.panicked c.name)))) := by
  induction children with
  | nil => rfl
  | cons c rest ih => rw [allComeTo, ih, List.map_cons]

theorem allSettled_iff {children : List Check} {after : List Debounce} :
    AllSettled kept answers children after ↔
      ∀ c ∈ children, c.Settled kept (answers.under c.name) after := by
  induction children with
  | nil => simp [AllSettled]
  | cons c rest ih => rw [AllSettled, ih, List.forall_mem_cons]

theorem allPlain_iff {children : List Check} : AllPlain children ↔ ∀ c ∈ children, c.Plain := by
  induction children with
  | nil => simp [AllPlain]
  | cons c rest ih => rw [AllPlain, ih, List.forall_mem_cons]

theorem delaysOf_eq (children : List Check) : delaysOf children = children.flatMap delays := by
  induction children with
  | nil => rfl
  | cons c rest ih => rw [delaysOf, ih, List.flatMap_cons]

/-- A debounced check below another is among those listed. -/
theorem mem_delays_of_has {c inner : Check} {slot : Nat} {budget : UInt32}
    (has : c.Has (.debounced slot budget inner)) : slot ∈ c.delays := by
  generalize node : Check.debounced slot budget inner = d at has
  induction has with
  | self c =>
    subst node
    exact List.mem_cons_self
  | child mem _ ih =>
    rw [delays, delaysOf_eq]
    exact List.mem_flatMap_of_mem mem (ih node)
  | cached _ ih => exact ih node
  | debounced _ ih => exact List.mem_cons_of_mem _ (ih node)

/-! ### The scripts have no part in it -/

@[simp] theorem unscripted_name : (c : Check) → c.unscripted.name = c.name
  | fixed _ _ _ | probe _ | group _ _ => rfl
  | cached _ _ inner | debounced _ _ inner => unscripted_name inner

theorem allUnscripted_eq (children : List Check) :
    allUnscripted children = children.map unscripted := by
  induction children with
  | nil => rfl
  | cons c rest ih => rw [allUnscripted, ih, List.map_cons]

mutual
theorem unscripted_comesTo (kept : List Debounce) (answers : Answers) (c : Check) :
    c.unscripted.comesTo kept answers = c.comesTo kept answers := by
  cases c with
  | fixed | probe | cached => rfl
  | group name children =>
    have lengths : (allUnscripted children).length = children.length := by
      rw [allUnscripted_eq, List.length_map]
    rw [unscripted, comesTo, comesTo, unscripted_allComeTo kept answers children, lengths]
    simp only [List.isEmpty_iff_length_eq_zero, lengths]
  | debounced slot budget inner =>
    rw [unscripted, comesTo, comesTo, unscripted_comesTo kept answers inner]
theorem unscripted_allComeTo (kept : List Debounce) (answers : Answers) (children : List Check) :
    allComeTo kept answers (allUnscripted children) = allComeTo kept answers children := by
  cases children with
  | nil => rfl
  | cons c rest =>
    rw [allUnscripted, allComeTo, allComeTo, unscripted_name, unscripted_comesTo kept _ c,
      unscripted_allComeTo kept answers rest]
end

mutual
theorem unscripted_settled (kept after : List Debounce) (answers : Answers) (c : Check) :
    c.unscripted.Settled kept answers after ↔ c.Settled kept answers after := by
  cases c with
  | fixed | probe | cached => rfl
  | group name children => exact unscripted_allSettled kept after answers children
  | debounced slot budget inner =>
    rw [unscripted, Settled, Settled, unscripted_settled kept after answers inner,
      unscripted_comesTo]
theorem unscripted_allSettled (kept after : List Debounce) (answers : Answers)
    (children : List Check) :
    AllSettled kept answers (allUnscripted children) after ↔
      AllSettled kept answers children after := by
  cases children with
  | nil => rfl
  | cons c rest =>
    rw [allUnscripted, AllSettled, AllSettled, unscripted_name, unscripted_settled kept after _ c,
      unscripted_allSettled kept after answers rest]
end

mutual
theorem unscripted_delays (c : Check) : c.unscripted.delays = c.delays := by
  cases c with
  | fixed | probe => rfl
  | group name children => exact unscripted_delaysOf children
  | cached slot interval inner => exact unscripted_delays inner
  | debounced slot budget inner =>
    rw [unscripted, delays, delays, unscripted_delays inner]
theorem unscripted_delaysOf (children : List Check) :
    delaysOf (allUnscripted children) = delaysOf children := by
  cases children with
  | nil => rfl
  | cons c rest =>
    rw [allUnscripted, delaysOf, delaysOf, unscripted_delays c, unscripted_delaysOf rest]
end

mutual
theorem unscripted_plain (c : Check) : c.unscripted.Plain ↔ c.Plain := by
  cases c with
  | fixed | probe | cached => rfl
  | group name children =>
    have names : (allUnscripted children).map Check.name = children.map Check.name := by
      rw [allUnscripted_eq, List.map_map]
      exact List.map_congr_left fun c _ => c.unscripted_name
    rw [unscripted, Plain, Plain, names, unscripted_allPlain children]
  | debounced slot budget inner => exact unscripted_plain inner
theorem unscripted_allPlain (children : List Check) :
    AllPlain (allUnscripted children) ↔ AllPlain children := by
  cases children with
  | nil => rfl
  | cons c rest =>
    rw [allUnscripted, AllPlain, AllPlain, unscripted_plain c, unscripted_allPlain rest]
end

/-! ### What it says of the debounced checks is all -/

mutual
/-- What a call leaves the debounced checks below it with is determined. -/
theorem Settled.unique {c : Check} {answers : Answers} {after after' : List Debounce}
    (settled : c.Settled kept answers after) (settled' : c.Settled kept answers after')
    (plain : c.Plain) : ∀ slot ∈ c.delays, after[slot]? = after'[slot]? := by
  cases c with
  | fixed | probe => nofun
  | cached slot interval inner => exact plain.elim
  | group name children => exact AllSettled.unique settled settled' plain.2
  | debounced slot budget inner =>
    intro other mem
    rcases List.mem_cons.mp mem with rfl | mem
    · exact settled.2.trans settled'.2.symm
    · exact Settled.unique settled.1 settled'.1 plain other mem
theorem AllSettled.unique {children : List Check} {answers : Answers}
    {after after' : List Debounce} (settled : AllSettled kept answers children after)
    (settled' : AllSettled kept answers children after') (plain : AllPlain children) :
    ∀ slot ∈ delaysOf children, after[slot]? = after'[slot]? := by
  cases children with
  | nil => nofun
  | cons c rest =>
    intro slot mem
    rcases List.mem_append.mp mem with mem | mem
    · exact Settled.unique settled.1 settled'.1 plain.1 slot mem
    · exact AllSettled.unique settled.2 settled'.2 plain.2 slot mem
end

mutual
/-- It is told of the debounced checks below the call only. -/
theorem Settled.congr {c : Check} {answers : Answers} {after after' : List Debounce}
    (settled : c.Settled kept answers after)
    (same : ∀ slot ∈ c.delays, after'[slot]? = after[slot]?) : c.Settled kept answers after' := by
  cases c with
  | fixed | probe | cached => trivial
  | group name children => exact AllSettled.congr settled same
  | debounced slot budget inner =>
    refine ⟨Settled.congr settled.1 fun other mem => same other (List.mem_cons_of_mem _ mem), ?_⟩
    rw [same slot List.mem_cons_self]
    exact settled.2
theorem AllSettled.congr {children : List Check} {answers : Answers} {after after' : List Debounce}
    (settled : AllSettled kept answers children after)
    (same : ∀ slot ∈ delaysOf children, after'[slot]? = after[slot]?) :
    AllSettled kept answers children after' := by
  cases children with
  | nil => trivial
  | cons c rest =>
    exact ⟨Settled.congr settled.1 fun slot mem => same slot (List.mem_append_left _ mem),
      AllSettled.congr settled.2 fun slot mem => same slot (List.mem_append_right _ mem)⟩
end

end Check

end HealthTree
