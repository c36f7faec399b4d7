import HealthTree.Flight
import HealthTree.Proofs.Gathering

/-!
# Calls of a group, from the first step to the last

`Flight.Ends` is a call taken to its end: some steps, and between them the world may change in any
way at all. So it stands for every timing of the children, every other call and every end of a
scope at once.

While a group waits, what it has gathered are answers of the children it no longer waits for
(`Gathers`). A step gathers more answers (`stepAll_answers`), or interrupts, which answers for all
the rest; in both cases every child has answered when the group does, so the outcome keeps
`GroupContract` (`group_contract`).
-/

namespace HealthTree

/-- A call is over: it answered, or it panicked. -/
def Turn.Over : Turn → Prop
  | .still _ => False
  | .done _ | .panicked => True

instance : DecidablePred Turn.Over
  | .still _ => inferInstanceAs (Decidable False)
  | .done _ | .panicked => inferInstanceAs (Decidable True)

namespace Flight

/-- **A call taken to its end**, one step at a time; the world a step is taken in need not be the
one that the step before left. -/
inductive Ends (scope : ScopeId) : Flight → Turn → Prop
  | last {flight : Flight} (w : World) (ended : (flight.step scope w).1.Over) :
      Ends scope flight (flight.step scope w).1
  | later {flight next : Flight} {t : Turn} (w : World)
      (still : (flight.step scope w).1 = .still next) (rest : Ends scope next t) :
      Ends scope flight t

/-- The steps of a call in these worlds, one after the other, until it is over. -/
def through (scope : ScopeId) : Flight → List World → Turn
  | flight, [] => .still flight
  | flight, w :: ws =>
    match (flight.step scope w).1 with
    | .still next => next.through scope ws
    | ended => ended

/-- One step more of a call that is not over. -/
theorem through_concat {scope : ScopeId} {flight next : Flight} {ws : List World}
    (still : flight.through scope ws = .still next) (w : World) :
    flight.through scope (ws ++ [w]) = (next.step scope w).1 := by
  induction ws generalizing flight with
  | nil =>
    cases still
    simp only [List.nil_append, through]
    cases (next.step scope w).1 <;> rfl
  | cons first rest ih =>
    simp only [List.cons_append, through] at still ⊢
    cases taken : (flight.step scope first).1 with
    | still flight' =>
      rw [taken] at still
      exact ih still
    | done | panicked =>
      rw [taken] at still
      cases still

theorem ends_through {scope : ScopeId} {flight : Flight} {ws : List World}
    (ended : (flight.through scope ws).Over) : Ends scope flight (flight.through scope ws) := by
  induction ws generalizing flight with
  | nil => exact ended.elim
  | cons w ws ih =>
    simp only [through] at ended ⊢
    have last := @Ends.last scope flight w
    cases taken : (flight.step scope w).1 with
    | still next =>
      rw [taken] at ended
      exact .later w taken (ih ended)
    | done o =>
      rw [taken] at last
      exact last trivial
    | panicked =>
      rw [taken] at last
      exact last trivial

/-- **The children that end in a step, with what a group takes for their answers**: the outcome of
one that is done, the panic of one that panicked. -/
def answersAll (scope : ScopeId) : List (String × Flight) → World → List (String × Outcome)
  | [], _ => []
  | (name, flight) :: rest, w =>
    let (turn, w) := flight.step scope w
    let (_, _, w') := w.gathered name {} turn
    match turn with
    | .still _ => answersAll scope rest w'
    | .done o => (name, o) :: answersAll scope rest w'
    | .panicked => (name, .error (.ofFault (.panicked name))) :: answersAll scope rest w'

/-- A step of the children gathers the answers of those it no longer waits for. -/
theorem stepAll_answers (scope : ScopeId) (waiting : List (String × Flight))
    (answers : List (String × Outcome)) (w : World) :
    (stepAll scope waiting (.ofAnswers answers) w).2.1 =
        .ofAnswers (answers ++ answersAll scope waiting w) ∧
      ((answersAll scope waiting w).map Prod.fst ++
        (stepAll scope waiting (.ofAnswers answers) w).1.map Prod.fst).Perm
          (waiting.map Prod.fst) := by
  induction waiting generalizing answers w with
  | nil => exact ⟨by simp [stepAll, answersAll], .refl _⟩
  | cons child rest ih =>
    obtain ⟨name, flight⟩ := child
    rcases taken : flight.step scope w with ⟨turn, w₁⟩
    -- a child that is over has answered `o`
    have answered (o : Outcome) (w₂ : World) :
        (stepAll scope rest ((Gathered.ofAnswers answers).add name o) w₂).2.1 =
            .ofAnswers (answers ++ (name, o) :: answersAll scope rest w₂) ∧
          (name :: (answersAll scope rest w₂).map Prod.fst ++ (stepAll scope rest
            ((Gathered.ofAnswers answers).add name o) w₂).1.map Prod.fst).Perm
              (name :: rest.map Prod.fst) := by
      obtain ⟨gathered, perm⟩ := ih (answers ++ [(name, o)]) w₂
      rw [Gathered.ofAnswers_concat] at gathered perm
      exact ⟨by rw [gathered, List.append_assoc]; rfl, perm.cons name⟩
    cases turn with
    | still next =>
      obtain ⟨gathered, perm⟩ := ih answers w₁
      simp only [stepAll, answersAll, taken, World.gathered, List.map_cons]
      exact ⟨gathered, List.perm_middle.trans (perm.cons name)⟩
    | done o =>
      simp only [stepAll, answersAll, taken, World.gathered, List.map_cons]
      exact answered o _
    | panicked =>
      simp only [stepAll, answersAll, taken, World.gathered, List.map_cons]
      exact answered _ _

/-- What the children of a group answer in one step of it. A group whose scope has ended looks at
none of them. -/
def answers (scope : ScopeId) : Flight → World → List (String × Outcome)
  | gathering _ _ _ waiting, w =>
    match w.cause? scope with
    | some _ => []
    | none => answersAll scope waiting w
  | fresh _, _ | pausing _ _ _ _, _ | debouncing _ _ _ _, _ => []

/-- A group of these names waits, and has gathered these answers: those of the children it does not
wait for. -/
inductive Waits (names : List String) (given : List (String × Outcome)) : Flight → Prop
  | intro (name : String) (waiting : List (String × Flight))
      (perm : (given.map Prod.fst ++ waiting.map Prod.fst).Perm names)
      (some : waiting ≠ []) :
      Waits names given (.gathering name names (.ofAnswers given) waiting)

/-- A group of these names waits, and has gathered the answers of the children it does not wait
for. -/
def Gathers (names : List String) (flight : Flight) : Prop :=
  ∃ given, Waits names given flight

variable {scope : ScopeId} {names : List String} {flight : Flight} {w : World}

namespace Waits

variable {given : List (String × Outcome)}

/-- No child has answered twice. -/
theorem once (waits : Waits names given flight) (distinct : names.Nodup) :
    (given.map Prod.fst).Nodup := by
  obtain ⟨name, waiting, perm, some⟩ := waits
  exact (List.nodup_append.mp (perm.nodup_iff.mpr distinct)).1

/-- Who has answered is a child. -/
theorem known (waits : Waits names given flight) : ∀ a ∈ given, a.1 ∈ names := by
  obtain ⟨name, waiting, perm, some⟩ := waits
  intro a mem
  exact perm.mem_iff.mp (List.mem_append_left _ (List.mem_map_of_mem mem))

/-- There is a child that has not answered. -/
theorem unfinished (waits : Waits names given flight) (distinct : names.Nodup) :
    ∃ name ∈ names, name ∉ given.map Prod.fst := by
  obtain ⟨name, waiting, perm, some⟩ := waits
  obtain ⟨child, mem⟩ := List.exists_mem_of_ne_nil _ some
  have apart := List.nodup_append.mp (perm.nodup_iff.mpr distinct)
  refine ⟨child.1, perm.mem_iff.mp (List.mem_append_right _ (List.mem_map_of_mem mem)), ?_⟩
  intro answered
  exact apart.2.2 _ answered _ (List.mem_map_of_mem mem) rfl

/-- When its scope has ended, the group answers for all the rest. -/
theorem step_ended {cause : Fault} (distinct : names.Nodup) (waits : Waits names given flight)
    (ended : w.cause? scope = some cause) :
    (flight.step scope w).1 = .done (Gathered.outcome
        { Gathered.ofAnswers (given ++ Gathered.missing cause given names) with
          last := some cause } names.length) ∧
      ((given ++ Gathered.missing cause given names).map Prod.fst).Perm names := by
  obtain ⟨name, waiting, perm, some⟩ := waits
  refine ⟨?_, Gathered.answered_missing_perm cause distinct perm⟩
  rw [← Gathered.interrupt_ofAnswers cause distinct]
  simp only [Flight.step, ended]
  rfl

/-- While its scope is live, the group gathers more answers, and is over when they are all. -/
theorem step_live (waits : Waits names given flight) (live : w.cause? scope = none) :
    (∃ next, (flight.step scope w).1 = .still next ∧
        Waits names (given ++ flight.answers scope w) next) ∨
      (flight.step scope w).1 =
          .done ((Gathered.ofAnswers (given ++ flight.answers scope w)).outcome names.length) ∧
        ((given ++ flight.answers scope w).map Prod.fst).Perm names := by
  obtain ⟨name, waiting, perm, some⟩ := waits
  simp only [Flight.step, Flight.answers, live]
  obtain ⟨gathered, perm'⟩ := stepAll_answers scope waiting given w
  generalize answersAll scope waiting w = new at gathered perm'
  rcases taken : stepAll scope waiting (.ofAnswers given) w with ⟨waiting', g, w'⟩
  rw [taken] at gathered perm'
  simp only at gathered perm' ⊢
  subst gathered
  have all : ((given ++ new).map Prod.fst ++ waiting'.map Prod.fst).Perm names := by
    rw [List.map_append, List.append_assoc]
    exact (perm'.append_left _).trans perm
  cases waiting' with
  | nil =>
    rw [List.map_nil, List.append_nil] at all
    exact .inr ⟨rfl, all⟩
  | cons child rest => exact .inl ⟨_, rfl, .intro name (child :: rest) all (List.cons_ne_nil _ _)⟩

end Waits

/-- What a group that waits comes to in one step: it waits on, or it keeps its contract. -/
theorem Gathers.step (distinct : names.Nodup) (inhabited : names ≠ [])
    (gathers : Gathers names flight) (w : World) :
    (∃ next, (flight.step scope w).1 = .still next ∧ Gathers names next) ∨
      ∃ o, (flight.step scope w).1 = .done o ∧ GroupContract names o := by
  obtain ⟨given, waits⟩ := gathers
  cases ended : w.cause? scope with
  | some cause =>
    obtain ⟨done, all⟩ := waits.step_ended distinct ended
    -- someone is waited for, so the interruption answers for someone, and with a failure
    have failed : (Gathered.ofAnswers (given ++ Gathered.missing cause given names)).failed ≠
        0 := by
      obtain ⟨child, named, unanswered⟩ := waits.unfinished distinct
      rw [Gathered.failed_ofAnswers]
      refine Nat.ne_of_gt (List.countP_pos_iff.mpr
        ⟨(child, .error (.ofFault cause)), List.mem_append_right _ ?_, ?_⟩)
      · exact List.mem_map_of_mem (List.mem_filter.mpr ⟨named, by simpa using unanswered⟩)
      · exact decide_eq_true (Outcome.normalized_fits (.ofFault cause))
    exact .inr ⟨_, done, Gathered.outcome_contract distinct inhabited all (by simp [failed])⟩
  | none =>
    rcases waits.step_live ended with ⟨next, still, on⟩ | ⟨done, all⟩
    · exact .inl ⟨next, still, _, on⟩
    · exact .inr ⟨_, done,
        Gathered.outcome_contract distinct inhabited all (Gathered.last_ofAnswers _)⟩

/-- A group that waits ends with an outcome that keeps its contract. -/
private theorem Gathers.ends {t : Turn} (distinct : names.Nodup)
    (inhabited : names ≠ []) (gathers : Gathers names flight) (ends : Ends scope flight t) :
    ∃ o, t = .done o ∧ GroupContract names o := by
  induction ends with
  | last w ended =>
    rcases gathers.step distinct inhabited w with ⟨next, still, _⟩ | done
    · rw [still] at ended
      exact ended.elim
    · exact done
  | later w still _ ih =>
    rcases gathers.step distinct inhabited w with ⟨next, still', on⟩ | ⟨o, done, _⟩
    · rw [still] at still'
      exact ih (Turn.still.inj still' ▸ on)
    · rw [still] at done
      cases done

/-- The call of a group with all its children set out. -/
def setOut (name : String) (children : List Check) : Flight :=
  .gathering name (children.map Check.name) {} (children.map fun c => (c.name, .fresh c))

theorem setOut_waits {name : String} {children : List Check} (inhabited : children ≠ []) :
    Waits (children.map Check.name) [] (setOut name children) := by
  refine .intro name _ ?_ (by simpa using inhabited)
  simp [Function.comp_def]

theorem setOut_gathers {name : String} {children : List Check} (inhabited : children ≠ []) :
    Gathers (children.map Check.name) (setOut name children) :=
  ⟨[], setOut_waits inhabited⟩

/-- While its scope is live, a group begins by setting its children out. -/
theorem step_fresh_live {name : String} {children : List Check} (inhabited : children ≠ [])
    (live : w.cause? scope = none) :
    ((fresh (.group name children)).step scope w).1 = .still (setOut name children) := by
  simp only [Flight.step, setOut, Check.begin, World.gather, List.isEmpty_iff, if_neg inhabited,
    live]

/-- A group whose scope has ended is interrupted at once, as it would be with its children set
out. -/
theorem step_fresh_ended {name : String} {children : List Check} {cause : Fault}
    (inhabited : children ≠ []) (ended : w.cause? scope = some cause) :
    (fresh (.group name children)).step scope w = (setOut name children).step scope w := by
  simp only [Flight.step, setOut, Check.begin, World.gather, List.isEmpty_iff, if_neg inhabited,
    ended]

/-- A group begins by setting its children out, unless it is interrupted, as it would be then. -/
theorem step_fresh_group {name : String} {children : List Check} (inhabited : children ≠ [])
    (w : World) :
    ((fresh (.group name children)).step scope w).1 = .still (setOut name children) ∨
      (fresh (.group name children)).step scope w = (setOut name children).step scope w := by
  cases ended : w.cause? scope with
  | some cause => exact .inr (step_fresh_ended inhabited ended)
  | none => exact .inl (step_fresh_live inhabited ended)

/-- **A call of a group ends with an outcome, never with a panic, and the outcome keeps the
contract of its children's names**: for all children whose names differ, whatever they answer or
whether they panic, in whatever order they do, and whether or not the scope ends first. -/
theorem group_contract {name : String} {children : List Check} {t : Turn}
    (inhabited : children ≠ []) (distinct : (children.map Check.name).Nodup)
    (ends : Ends scope (.fresh (.group name children)) t) :
    ∃ o, t = .done o ∧ GroupContract (children.map Check.name) o := by
  have waits : Ends scope (setOut name children) t := by
    cases ends with
    | last w ended =>
      rcases step_fresh_group inhabited w with still | same
      · rw [still] at ended
        exact ended.elim
      · rw [same] at ended ⊢
        exact .last w ended
    | later w still rest =>
      rcases step_fresh_group inhabited w with still' | same
      · rw [still] at still'
        exact Turn.still.inj still' ▸ rest
      · exact .later w (same ▸ still) rest
  exact (setOut_gathers inhabited).ends distinct (by simpa using inhabited) waits

/-- A child that passes without a status, one that panics, one that is still waited for when the
scope runs past its deadline, and one that is degraded: three of the four have failed. -/
theorem group_contract_interrupted :
    let ask (name : String) (pauses : List Pause) (answer : Answer) : Check :=
      .probe ⟨name, name, ⟨pauses, answer⟩, []⟩
    let group : Check := .group "g" [ask "a" [] (.outcome (.ok .blank)), ask "b" [] .panic,
      ask "c" [⟨some 9, false⟩] (.outcome (.ok .healthy)), .fixed "d" .degraded "slow"]
    let early : World := { scopes := ⟨[{ deadline := some 5 }]⟩ }
    let late : World := { early with now := 5 }
    ∃ o, through 0 (.fresh group) [early, early, late] = .done o ∧
      GroupContract ["a", "b", "c", "d"] o ∧
      o.fault? = some (.aggregate 3 4 .deadlineExceeded) := by
  intro ask group early late
  have ended : (through 0 (.fresh group) [early, early, late]).Over := by decide +kernel
  obtain ⟨o, done, contract⟩ := group_contract (List.cons_ne_nil _ _) (by decide)
    (ends_through ended)
  have told : (match through 0 (.fresh group) [early, early, late] with
      | .done o => o.fault?
      | _ => none) = some (.aggregate 3 4 .deadlineExceeded) := by decide +kernel
  rw [done] at told
  exact ⟨o, done, contract, told⟩

end Flight

end HealthTree
