import HealthTree.Proofs.Evaluation
import HealthTree.Proofs.GroupRun

/-!
# The outcome of a call does not depend on timing

`Flight.Alone` is a call taken to its end under a scope that stays live, while nobody else touches
the debounced checks. The worlds of its steps are otherwise free: any time may pass between two of
them, so a probe may take as long as it likes and the children of a group may end in any order.
`Flight.told` is what the probes answered on the way.

While such a call is under way (`Flight.Course`), a child that is over has given the answer that
`Check.comesTo` gives it, but for the fault an aggregate wraps, and has left its debounced checks
`Settled`. A step keeps this for the child that takes it (`step_course`), and since no debounced
check stands twice, it keeps it for the others as well (`step_other`). At the end all children are
over and the group has gathered their answers, in some order.
-/

namespace HealthTree

/-- What a probe answers in a step of its call: nothing until it is over. -/
def Turn.told : Turn → List (List String × Option Outcome)
  | .still _ => []
  | .done o => [([], some o)]
  | .panicked => [([], none)]

/-- What the probes answer in the first step of a call. A group asks none of them yet. -/
def Check.told (scope : ScopeId) : Check → World → List (List String × Option Outcome)
  | probe p, w => ((probe p).begin scope w).1.told
  | debounced _ _ inner, w => inner.told scope w
  | fixed _ _ _, _ | group _ _, _ | cached _ _ _, _ => []

namespace Flight

mutual
/-- **What the probes answer in one step of a call**, with the names on the way to them. -/
def told (scope : ScopeId) : Flight → World → List (List String × Option Outcome)
  | fresh check, w => check.told scope w
  | pausing p wake heeds act, w => ((pausing p wake heeds act).step scope w).1.told
  | gathering _ _ _ waiting, w =>
    match w.cause? scope with
    | some _ => []
    | none => toldAll scope waiting w
  | debouncing _ _ _ inner, w => inner.told scope w
/-- What they answer in one step of each child a group waits for. -/
def toldAll (scope : ScopeId) :
    List (String × Flight) → World → List (List String × Option Outcome)
  | [], _ => []
  | (name, flight) :: rest, w =>
    let (turn, after) := flight.step scope w
    let (_, _, after) := after.gathered name {} turn
    (flight.told scope w).map (fun e => (name :: e.1, e.2)) ++ toldAll scope rest after
end

/-- **A call taken to its end alone**: the scope is live in each step, and each step finds the
debounced checks as the one before has left them. They are given before the call and after it, with
what the probes answered on the way. -/
inductive Alone (scope : ScopeId) :
    Flight → List Debounce → List (List String × Option Outcome) → Turn → List Debounce → Prop
  | last {flight : Flight} (w : World) (live : w.cause? scope = none)
      (isOver : (flight.step scope w).1.Over) :
      Alone scope flight w.debounces (flight.told scope w) (flight.step scope w).1
        (flight.step scope w).2.debounces
  | later {flight next : Flight} {told : List (List String × Option Outcome)} {t : Turn}
      {after : List Debounce} (w : World) (live : w.cause? scope = none)
      (still : (flight.step scope w).1 = .still next)
      (rest : Alone scope next (flight.step scope w).2.debounces told t after) :
      Alone scope flight w.debounces (flight.told scope w ++ told) t after

/-! ## The course of a call -/

/-- What children have answered, but for the faults that aggregates wrap, is what they come to. -/
def Given (kept : List Debounce) (answers : Answers) (given : List (String × Outcome))
    (past : List Check) : Prop :=
  given.map (fun a => (a.1, a.2.outline)) =
    (Check.allComeTo kept answers past).map fun a => (a.1, a.2.outline)

mutual
/-- **A call on its way to what it comes to.** What has not begun finds its debounced checks as they
were before the call; what is over has left them settled. -/
def Course (kept : List Debounce) (answers : Answers) : Flight → Check → List Debounce → Prop
  | fresh check, c, now => check = c ∧ ∀ slot ∈ c.delays, now[slot]? = kept[slot]?
  | pausing p _ _ _, c, _ => c = .probe p
  | gathering name names g waiting, c, now =>
    ∃ (children past going : List Check) (given : List (String × Outcome)),
      c = .group name children ∧ names = children.map Check.name ∧ g = .ofAnswers given ∧
      waiting ≠ [] ∧ (past ++ going).Perm children ∧ Given kept answers given past ∧
      Check.AllSettled kept answers past now ∧ AllCourse kept answers waiting going now
  | debouncing slot budget name inner, c, now =>
    ∃ d, c = .debounced slot budget d ∧ name = d.name ∧ inner.Course kept answers d now ∧
      now[slot]? = kept[slot]?
/-- So are the calls of these checks, one each. -/
def AllCourse (kept : List Debounce) (answers : Answers) :
    List (String × Flight) → List Check → List Debounce → Prop
  | [], going, _ => going = []
  | (name, flight) :: rest, going, now =>
    ∃ c more, going = c :: more ∧ c.name = name ∧
      flight.Course kept (answers.under name) c now ∧ AllCourse kept answers rest more now
end

end Flight

/-- A call is on its way, or has come to what it had to and left the debounced checks settled. -/
def Turn.Course (kept : List Debounce) (answers : Answers) :
    Turn → Check → List Debounce → Prop
  | .still flight, c, now => flight.Course kept answers c now
  | .done o, c, now =>
    (c.comesTo kept answers).map Outcome.outline = some o.outline ∧ c.Settled kept answers now
  | .panicked, c, now => c.comesTo kept answers = none ∧ c.Settled kept answers now

namespace Flight

variable {kept : List Debounce} {answers : Answers}

mutual
/-- It is a call of its check. -/
theorem Course.of {f : Flight} {c : Check} {answers : Answers} {now : List Debounce}
    (course : f.Course kept answers c now) : f.Of c := by
  cases f with
  | fresh check => exact course.1
  | pausing p wake heeds act => exact course
  | gathering name names g waiting =>
    obtain ⟨children, past, going, given, rfl, rfl, _, _, perm, _, _, courses⟩ := course
    refine ⟨children, rfl, rfl, AllCourse.of courses ?_⟩
    intro c mem
    exact perm.mem_iff.mp (List.mem_append_right _ mem)
  | debouncing slot budget name inner =>
    obtain ⟨d, rfl, rfl, course, _⟩ := course
    exact ⟨d, rfl, rfl, Course.of course⟩
theorem AllCourse.of {waiting : List (String × Flight)} {going children : List Check}
    {answers : Answers} {now : List Debounce}
    (courses : AllCourse kept answers waiting going now) (sub : ∀ c ∈ going, c ∈ children) :
    AllOf waiting children := by
  cases waiting with
  | nil => trivial
  | cons child rest =>
    obtain ⟨name, flight⟩ := child
    obtain ⟨c, more, rfl, named, course, courses⟩ := courses
    exact ⟨⟨c, sub c List.mem_cons_self, named, Course.of course⟩,
      AllCourse.of courses fun d mem => sub d (List.mem_cons_of_mem _ mem)⟩
end

mutual
/-- It is told of the debounced checks below the call only. -/
theorem Course.congr {f : Flight} {c : Check} {answers : Answers} {now now' : List Debounce}
    (course : f.Course kept answers c now) (same : ∀ slot ∈ c.delays, now'[slot]? = now[slot]?) :
    f.Course kept answers c now' := by
  cases f with
  | fresh check =>
    obtain ⟨rfl, untouched⟩ := course
    exact ⟨rfl, fun slot mem => (same slot mem).trans (untouched slot mem)⟩
  | pausing p wake heeds act => exact course
  | gathering name names g waiting =>
    obtain ⟨children, past, going, given, rfl, named, gathered, some, perm, came, settled, courses⟩
      := course
    have below : ∀ d ∈ past ++ going, ∀ slot ∈ d.delays, now'[slot]? = now[slot]? := by
      intro d mem slot listed
      apply same
      rw [Check.delays, Check.delaysOf_eq]
      exact List.mem_flatMap_of_mem (perm.mem_iff.mp mem) listed
    refine ⟨children, past, going, given, rfl, named, gathered, some, perm, came, ?_, ?_⟩
    · apply settled.congr
      rw [Check.delaysOf_eq]
      intro slot listed
      obtain ⟨d, mem, listed⟩ := List.mem_flatMap.mp listed
      exact below d (List.mem_append_left _ mem) slot listed
    · apply AllCourse.congr courses
      rw [Check.delaysOf_eq]
      intro slot listed
      obtain ⟨d, mem, listed⟩ := List.mem_flatMap.mp listed
      exact below d (List.mem_append_right _ mem) slot listed
  | debouncing slot budget name inner =>
    obtain ⟨d, rfl, rfl, course, before⟩ := course
    exact ⟨d, rfl, rfl, Course.congr course fun other mem => same other (List.mem_cons_of_mem _ mem),
      (same slot List.mem_cons_self).trans before⟩
theorem AllCourse.congr {waiting : List (String × Flight)} {going : List Check}
    {answers : Answers} {now now' : List Debounce}
    (courses : AllCourse kept answers waiting going now)
    (same : ∀ slot ∈ Check.delaysOf going, now'[slot]? = now[slot]?) :
    AllCourse kept answers waiting going now' := by
  cases waiting with
  | nil => exact courses
  | cons child rest =>
    obtain ⟨name, flight⟩ := child
    obtain ⟨c, more, rfl, named, course, courses⟩ := courses
    exact ⟨c, more, rfl, named,
      Course.congr course fun slot mem => same slot (List.mem_append_left _ mem),
      AllCourse.congr courses fun slot mem => same slot (List.mem_append_right _ mem)⟩
end

/-! ## What a step leaves alone -/

/-- Deeds of a call touch no debounced check outside it. -/
private theorem performAll_other {c : Check} {slot : Nat} (other : slot ∉ c.delays) (w : World)
    {deeds : List Deed} (inside : ∀ d ∈ deeds, d.In c) :
    (w.performAll deeds).debounces[slot]? = w.debounces[slot]? := by
  induction deeds generalizing w with
  | nil => rfl
  | cons d deeds ih =>
    obtain ⟨first, later⟩ := List.forall_mem_cons.mp inside
    rw [World.performAll_cons, ih _ later]
    cases d with
    | observe there budget name inner =>
      obtain ⟨e, has, _⟩ := first
      have apart : there ≠ slot := by
        rintro rfl
        exact other (Check.mem_delays_of_has has)
      show (w.debounces.set there _)[slot]? = _
      rw [List.getElem?_set_ne apart]
    | startCall | completeCall | tell => rfl

/-- **A step touches no debounced check outside its call.** -/
theorem step_other (scope : ScopeId) {f : Flight} {c : Check} (of : f.Of c) (w : World) {slot : Nat}
    (other : slot ∉ c.delays) :
    (f.step scope w).2.debounces[slot]? = w.debounces[slot]? := by
  rw [step_world]
  exact performAll_other other w (observed_of scope of w)

/-- Nor do the steps of several. -/
theorem stepAll_other (scope : ScopeId) {waiting : List (String × Flight)} {going : List Check}
    (of : AllOf waiting going) (g : Gathered) (w : World) {slot : Nat}
    (other : slot ∉ Check.delaysOf going) :
    (stepAll scope waiting g w).2.2.debounces[slot]? = w.debounces[slot]? := by
  rw [stepAll_world]
  exact performAll_other (c := .group "" going) other w (observedAll_of scope of w)

/-! ## A step keeps the course -/

end Flight

namespace Turn.Course

variable {kept : List Debounce} {answers : Answers} {t : Turn} {c : Check}

/-- What a step of a probe comes to is on course if the probe answers as it should. -/
theorem probe {p : Probe} {now : List Debounce} (of : t.Of (.probe p))
    (gave : ∀ e ∈ t.told, answers e.1 = e.2) : t.Course kept answers (.probe p) now := by
  cases t with
  | still flight =>
    cases flight with
    | fresh check =>
      refine ⟨of, fun slot mem => ?_⟩
      cases mem
    | pausing q wake heeds act => exact of
    | gathering name names g waiting =>
      obtain ⟨children, other, _⟩ := of
      cases other
    | debouncing slot budget name inner =>
      obtain ⟨d, other, _⟩ := of
      cases other
  | done o =>
    have answered : answers [] = some o := gave ([], some o) List.mem_cons_self
    exact ⟨congrArg (Option.map Outcome.outline) answered, trivial⟩
  | panicked => exact ⟨gave ([], none) List.mem_cons_self, trivial⟩

/-- It is told of the debounced checks below the call only. -/
theorem congr {now now' : List Debounce} (course : t.Course kept answers c now)
    (same : ∀ slot ∈ c.delays, now'[slot]? = now[slot]?) : t.Course kept answers c now' := by
  cases t with
  | still flight => exact Flight.Course.congr course same
  | done o => exact ⟨course.1, course.2.congr same⟩
  | panicked => exact ⟨course.1, course.2.congr same⟩

/-- A debounced check is on course after a step of its inner check that is, if it was not shown
anything before. -/
theorem debounced {slot : Nat} {budget : UInt32} {w : World} (apart : slot ∉ c.delays)
    (before : w.debounces[slot]? = kept[slot]?) (course : t.Course kept answers c w.debounces) :
    (w.debounced slot budget c.name t).1.Course kept answers (.debounced slot budget c)
      (w.debounced slot budget c.name t).2.debounces := by
  cases t with
  | still flight => exact ⟨c, rfl, rfl, course, before⟩
  | panicked =>
    obtain ⟨panics, settled⟩ := course
    refine ⟨?_, settled, ?_⟩
    · rw [Check.comesTo, panics]
      rfl
    · rw [panics]
      exact before
  | done o =>
    obtain ⟨came, settled⟩ := course
    obtain ⟨o', comes, outline⟩ := Option.map_eq_some_iff.mp came
    let d := w.debounce slot budget
    have shown : d = (kept[slot]?).getD (.initial budget) := by
      rw [← before]
      rfl
    have after : (w.debounced slot budget c.name (.done o)).2.debounces =
        w.debounces.set slot (d.after o) := rfl
    refine ⟨?_, ?_, ?_⟩
    · rw [Check.comesTo, comes, ← shown]
      exact congrArg some (d.answer_outline budget outline)
    · apply settled.congr
      intro other mem
      have different : slot ≠ other := by
        rintro rfl
        exact apart mem
      rw [after, List.getElem?_set_ne different]
    · rw [after, comes, List.getElem?_set_self', before, d.after_outline outline.symm, shown]
      cases kept[slot]? <;> rfl

end Turn.Course

namespace Flight

variable {kept : List Debounce} {scope : ScopeId}

/-- The call of a group with its children set out is on course if nothing was shown to a debounced
check yet. -/
theorem setOut_course {answers : Answers} {name : String} {children : List Check}
    (inhabited : children ≠ []) {now : List Debounce}
    (untouched : ∀ slot ∈ Check.delaysOf children, now[slot]? = kept[slot]?) :
    (setOut name children).Course kept answers (.group name children) now := by
  have courses (children : List Check)
      (untouched : ∀ slot ∈ Check.delaysOf children, now[slot]? = kept[slot]?) :
      AllCourse kept answers (children.map fun c => (c.name, fresh c)) children now := by
    induction children with
    | nil => rfl
    | cons c rest ih =>
      exact ⟨c, rest, rfl, rfl, ⟨rfl, fun slot mem => untouched slot (List.mem_append_left _ mem)⟩,
        ih fun slot mem => untouched slot (List.mem_append_right _ mem)⟩
  exact ⟨children, [], children, [], rfl, rfl, rfl, by simpa using inhabited, .refl _, rfl, trivial,
    courses children untouched⟩

/-- **A call that begins is on course.** -/
theorem begin_course {answers : Answers} {c : Check} {w : World} (plain : c.Plain)
    (once : c.delays.Nodup) (untouched : ∀ slot ∈ c.delays, w.debounces[slot]? = kept[slot]?)
    (live : w.cause? scope = none) (gave : ∀ e ∈ c.told scope w, answers e.1 = e.2) :
    (c.begin scope w).1.Course kept answers c (c.begin scope w).2.debounces := by
  cases c with
  | fixed name status message => exact ⟨rfl, trivial⟩
  | probe p => exact .probe (begin_of scope (.probe p) w) gave
  | group name children =>
    by_cases empty : children = []
    · subst empty
      exact ⟨rfl, trivial⟩
    · simp only [Check.begin, World.gather, List.isEmpty_iff, if_neg empty, live]
      exact setOut_course empty untouched
  | cached slot interval inner => exact plain.elim
  | debounced slot budget inner =>
    obtain ⟨apart, once⟩ := List.nodup_cons.mp once
    have course : (inner.begin scope w).1.Course kept answers inner
        (inner.begin scope w).2.debounces := by
      apply begin_course (c := inner) plain once _ live gave
      intro other mem
      exact untouched other (List.mem_cons_of_mem _ mem)
    have same : (inner.begin scope w).2.debounces[slot]? = w.debounces[slot]? :=
      step_other scope (f := fresh inner) rfl w apart
    exact .debounced apart (same.trans (untouched slot List.mem_cons_self)) course

namespace Given

variable {answers : Answers} {given new : List (String × Outcome)} {past more : List Check}

theorem append (came : Given kept answers given past) (came' : Given kept answers new more) :
    Given kept answers (given ++ new) (past ++ more) := by
  simp only [Given, Check.allComeTo_eq, List.map_append] at came came' ⊢
  rw [came, came']

/-- **When all children have answered, in whatever order, the group comes to what it has to.** -/
theorem outcome {children : List Check} (came : Given kept answers given past)
    (distinct : (children.map Check.name).Nodup) (perm : past.Perm children) (total : Nat) :
    Outcome.outline ((Gathered.ofAnswers (Check.allComeTo kept answers children)).outcome total) =
      Outcome.outline ((Gathered.ofAnswers given).outcome total) := by
  apply Gathered.outcome_outline
  · rw [Check.allComeTo_eq, List.map_map]
    exact distinct
  · rw [came, Check.allComeTo_eq, Check.allComeTo_eq]
    exact (perm.symm.map _).map _

end Given

mutual
/-- **A step keeps a call on course**, if the probes that answer in it answer as they should. -/
theorem step_course {f : Flight} {c : Check} {answers : Answers} {w : World} (plain : c.Plain)
    (once : c.delays.Nodup) (live : w.cause? scope = none)
    (course : f.Course kept answers c w.debounces)
    (gave : ∀ e ∈ f.told scope w, answers e.1 = e.2) :
    (f.step scope w).1.Course kept answers c (f.step scope w).2.debounces := by
  cases f with
  | fresh check =>
    obtain ⟨rfl, untouched⟩ := course
    exact begin_course plain once untouched live gave
  | pausing p wake heeds act =>
    cases (course : c = .probe p)
    have of : (pausing p wake heeds act).Of (.probe p) := rfl
    exact .probe (step_of scope of w) gave
  | debouncing slot budget name inner =>
    obtain ⟨d, rfl, rfl, course, before⟩ := course
    obtain ⟨apart, once⟩ := List.nodup_cons.mp once
    have kept := step_course (c := d) plain once live course gave
    exact .debounced apart ((step_other scope course.of w apart).trans before) kept
  | gathering name names g waiting =>
    obtain ⟨children, past, going, given, rfl, rfl, rfl, some, perm, came, settled, courses⟩ :=
      course
    obtain ⟨distinct, plains⟩ := plain
    have split : (Check.delaysOf past ++ Check.delaysOf going).Nodup := by
      rw [Check.delays, Check.delaysOf_eq, ← (perm.flatMap_right _).nodup_iff,
        List.flatMap_append] at once
      rwa [Check.delaysOf_eq, Check.delaysOf_eq]
    obtain ⟨_, onceGoing, apart⟩ := List.nodup_append.mp split
    have plainsGoing : ∀ d ∈ going, d.Plain := fun d mem =>
      Check.allPlain_iff.mp plains d (perm.mem_iff.mp (List.mem_append_right _ mem))
    simp only [told, live] at gave
    obtain ⟨past', going', perm', came', settled', courses'⟩ :=
      stepAll_course (.ofAnswers given) plainsGoing onceGoing live courses gave
    -- those that were over before the step are as they were
    have still := settled.congr fun slot mem => stepAll_other scope (courses.of fun _ mem => mem)
      (.ofAnswers given) w fun there => apart slot mem slot there rfl
    have all : (past ++ past' ++ going').Perm children := by
      rw [List.append_assoc]
      exact (perm'.append_left past).trans perm
    obtain ⟨gathered, _⟩ := stepAll_answers scope waiting given w
    have came := came.append came'
    simp only [Flight.step, live]
    generalize stepAll scope waiting (.ofAnswers given) w = result at *
    obtain ⟨waiting', g, after⟩ := result
    simp only at gathered settled' courses' still ⊢
    subst gathered
    have settled : Check.AllSettled kept answers (past ++ past') after.debounces := by
      rw [Check.allSettled_iff] at still settled' ⊢
      exact List.forall_mem_append.mpr ⟨still, settled'⟩
    cases waiting' with
    | cons child rest =>
      exact ⟨children, past ++ past', going', given ++ answersAll scope waiting w, rfl, rfl, rfl,
        List.cons_ne_nil _ _, all, came, settled, courses'⟩
    | nil =>
      cases (courses' : going' = [])
      rw [List.append_nil] at all
      have inhabited : children ≠ [] := by
        rintro rfl
        have none := List.append_eq_nil_iff.mp perm.eq_nil
        cases waiting with
        | nil => exact some rfl
        | cons child rest =>
          obtain ⟨c, more, listed, _⟩ := courses
          rw [none.2] at listed
          cases listed
      refine ⟨?_, ?_⟩
      · simp only [Check.comesTo, List.isEmpty_iff, if_neg inhabited, Option.map_some,
          List.length_map]
        exact congrArg Option.some (came.outcome distinct all children.length)
      · apply Check.allSettled_iff.mpr
        intro d mem
        exact Check.allSettled_iff.mp settled d (all.mem_iff.mpr mem)
theorem stepAll_course {waiting : List (String × Flight)} {going : List Check} {answers : Answers}
    {w : World} (g : Gathered) (plains : ∀ c ∈ going, c.Plain) (once : (Check.delaysOf going).Nodup)
    (live : w.cause? scope = none) (courses : AllCourse kept answers waiting going w.debounces)
    (gave : ∀ e ∈ toldAll scope waiting w, answers e.1 = e.2) :
    ∃ past going', (past ++ going').Perm going ∧
      Given kept answers (answersAll scope waiting w) past ∧
      Check.AllSettled kept answers past (stepAll scope waiting g w).2.2.debounces ∧
      AllCourse kept answers (stepAll scope waiting g w).1 going'
        (stepAll scope waiting g w).2.2.debounces := by
  cases waiting with
  | nil =>
    cases (courses : going = [])
    exact ⟨[], [], .refl _, rfl, trivial, rfl⟩
  | cons child rest =>
    obtain ⟨name, flight⟩ := child
    obtain ⟨c, more, rfl, rfl, course, courses⟩ := courses
    obtain ⟨onceHere, onceMore, apart⟩ := List.nodup_append.mp once
    obtain ⟨plain, plains⟩ := List.forall_mem_cons.mp plains
    have ofRest : AllOf rest more := courses.of fun _ mem => mem
    -- the first child takes its step and leaves the others as they were
    have stepped := step_course plain onceHere live course fun e mem =>
      gave (c.name :: e.1, e.2) (List.mem_append_left _ (List.mem_map_of_mem mem))
    have spared : ∀ slot ∈ Check.delaysOf more,
        (flight.step scope w).2.debounces[slot]? = w.debounces[slot]? := fun slot mem =>
      step_other scope course.of w fun here => apart slot here slot mem rfl
    have live' : (flight.step scope w).2.cause? scope = none := by rw [step_cause?, live]
    rcases taken : flight.step scope w with ⟨turn, w₁⟩
    rw [taken] at stepped spared live'
    -- the others take theirs in a world with the same debounced checks, and leave it as it was
    have others (g : Gathered) (w₂ : World) (same : w₂.debounces = w₁.debounces)
        (live : w₂.cause? scope = none) (gave : ∀ e ∈ toldAll scope rest w₂, answers e.1 = e.2) :
        ∃ past going', (past ++ going').Perm more ∧
          Given kept answers (answersAll scope rest w₂) past ∧
          Check.AllSettled kept answers past (stepAll scope rest g w₂).2.2.debounces ∧
          AllCourse kept answers (stepAll scope rest g w₂).1 going'
            (stepAll scope rest g w₂).2.2.debounces ∧
          turn.Course kept (answers.under c.name) c (stepAll scope rest g w₂).2.2.debounces := by
      have courses : AllCourse kept answers rest more w₂.debounces := by
        apply courses.congr
        rw [same]
        exact spared
      obtain ⟨past, going', perm, came, settled, courses⟩ :=
        stepAll_course g plains onceMore live courses gave
      refine ⟨past, going', perm, came, settled, courses, stepped.congr fun slot mem => ?_⟩
      have other : slot ∉ Check.delaysOf more := fun there => apart slot mem slot there rfl
      rw [stepAll_other scope ofRest g w₂ other, same]
    have gave' : ∀ e ∈ toldAll scope rest (w₁.gathered c.name {} turn).2.2, answers e.1 = e.2 := by
      intro e mem
      apply gave
      simp only [toldAll, taken]
      exact List.mem_append_right _ mem
    -- a child that is over has answered `o`, or what a group takes for the answer
    have answered (o : Outcome) (w₂ : World)
        (came : ((c.comesTo kept (answers.under c.name)).getD
          (.error (.ofFault (.panicked c.name)))).outline = o.outline)
        {past : List Check} (given : Given kept answers (answersAll scope rest w₂) past) :
        Given kept answers ((c.name, o) :: answersAll scope rest w₂) (c :: past) := by
      simp only [Given, Check.allComeTo, List.map_cons, came]
      exact congrArg _ given
    cases turn with
    | still next =>
      obtain ⟨past, going', perm, came, settled, courses, course⟩ := others g w₁ rfl live' gave'
      simp only [stepAll, answersAll, taken, World.gathered]
      exact ⟨past, c :: going', List.perm_middle.trans (perm.cons c), came, settled,
        c, going', rfl, rfl, course, courses⟩
    | done o =>
      obtain ⟨past, going', perm, given, settled, courses, came, mine⟩ :=
        others (g.add c.name o) (w₁.tell (Gathered.eventsOf c.name o)) rfl live' gave'
      simp only [stepAll, answersAll, taken, World.gathered]
      refine ⟨c :: past, going', perm.cons c, answered o _ ?_ given, ⟨mine, settled⟩, courses⟩
      obtain ⟨o', comes, outline⟩ := Option.map_eq_some_iff.mp came
      rw [comes]
      exact outline
    | panicked =>
      obtain ⟨past, going', perm, given, settled, courses, panics, mine⟩ :=
        others _ (w₁.tell _) rfl live' gave'
      simp only [stepAll, answersAll, taken, World.gathered]
      refine ⟨c :: past, going', perm.cons c, answered _ _ ?_ given, ⟨mine, settled⟩, courses⟩
      rw [panics]
      rfl
end

/-! ## Whole calls -/

namespace Alone

variable {answers : Answers} {flight : Flight} {before after : List Debounce}
  {told : List (List String × Option Outcome)} {t : Turn} {c : Check}

/-- A call left alone is on course to its end. -/
theorem course (run : Alone scope flight before told t after) (plain : c.Plain)
    (once : c.delays.Nodup) (course : flight.Course kept answers c before)
    (gave : ∀ e ∈ told, answers e.1 = e.2) : t.Course kept answers c after := by
  induction run with
  | last w live isOver => exact step_course plain once live course gave
  | later w live still rest ih =>
    obtain ⟨now, later⟩ := List.forall_mem_append.mp gave
    have stepped := step_course plain once live course now
    rw [still] at stepped
    exact ih stepped later

/-- It is over at the end. -/
theorem isOver (run : Alone scope flight before told t after) : t.Over := by
  induction run with
  | last w live isOver => exact isOver
  | later w live still rest ih => exact ih

/-- It touches no debounced check but its own. -/
theorem other (run : Alone scope flight before told t after) (of : flight.Of c) {slot : Nat}
    (other : slot ∉ c.delays) : after[slot]? = before[slot]? := by
  induction run with
  | last w live isOver => exact step_other scope of w other
  | later w live still rest ih =>
    have kept := step_of scope of w
    rw [still] at kept
    exact (ih kept).trans (step_other scope of w other)

end Alone

/-- The steps of a call at these instants, if nothing else happens: how it stands then, what its
probes have answered, and the world. -/
def atInstants (scope : ScopeId) :
    Flight → World → List Nat → Turn × List (List String × Option Outcome) × World
  | flight, w, [] => (.still flight, [], w)
  | flight, w, now :: later =>
    let w := { w with now := now }
    match flight.step scope w with
    | (.still next, after) =>
      let (t, told, after) := next.atInstants scope after later
      (t, flight.told scope w ++ told, after)
    | (ended, after) => (ended, flight.told scope w, after)

/-- **Any instants will do**: a call that is over after its steps was left alone in them. -/
theorem alone_atInstants {flight : Flight} {w : World} {instants : List Nat}
    (live : ∀ now ∈ instants, w.scopes.cause? now scope = none)
    (isOver : (flight.atInstants scope w instants).1.Over) :
    Alone scope flight w.debounces (flight.atInstants scope w instants).2.1
      (flight.atInstants scope w instants).1
      (flight.atInstants scope w instants).2.2.debounces := by
  induction instants generalizing flight w with
  | nil => exact isOver.elim
  | cons now later ih =>
    obtain ⟨first, live⟩ := List.forall_mem_cons.mp live
    let w' : World := { w with now := now }
    have last := @Alone.last scope flight w' first
    have goes := @Alone.later scope flight
    have scopes := step_scopes scope flight w'
    simp only [atInstants] at isOver ⊢
    rcases taken : flight.step scope w' with ⟨turn, after⟩
    rw [taken] at last scopes
    cases turn with
    | still next =>
      rw [taken] at isOver
      refine goes w' first (congrArg Prod.fst taken) ?_
      rw [taken]
      exact ih (by rwa [scopes]) isOver
    | done o => exact last trivial
    | panicked => exact last trivial

/-- **The outcome of a group does not depend on timing.** Two groups are alike but for what is
written in the scripts of their probes, and are called when the debounced checks keep the same. Both
are left alone, and each probe answers the same in both calls, or panics in both, after however
long. Then both calls come to the same side and the same health in every part, and a failure counts
the same; and both leave the debounced checks with the same. Only the fault that came last may be
another. -/
theorem group_timing_free {name : String} {children : List Check} {root : Check}
    {kept after after' : List Debounce} {answers : Answers} {scope scope' : ScopeId}
    {told told' : List (List String × Option Outcome)} {t t' : Turn}
    (plain : (Check.group name children).Plain) (once : (Check.group name children).delays.Nodup)
    (alike : root.unscripted = (Check.group name children).unscripted)
    (run : Alone scope (fresh (.group name children)) kept told t after)
    (run' : Alone scope' (fresh root) kept told' t' after')
    (gave : ∀ e ∈ told, answers e.1 = e.2) (gave' : ∀ e ∈ told', answers e.1 = e.2) :
    ∃ o o', t = .done o ∧ t' = .done o' ∧ o.isOk = o'.isOk ∧ o.health = o'.health ∧
      (∀ fault, o.fault? = some fault → ∃ failed total last last',
        fault = .aggregate failed total last ∧
          o'.fault? = some (.aggregate failed total last')) ∧
      after = after' := by
  have plain' : root.Plain := by
    rwa [← Check.unscripted_plain, alike, Check.unscripted_plain]
  have delays : root.delays = (Check.group name children).delays := by
    rw [← Check.unscripted_delays, alike, Check.unscripted_delays]
  have course := run.course plain once ⟨rfl, fun _ _ => rfl⟩ gave
  have course' := run'.course plain' (delays ▸ once) ⟨rfl, fun _ _ => rfl⟩ gave'
  obtain ⟨ideal, comes, aggregates⟩ := Check.comesTo_group kept answers name children
  have comes' : root.comesTo kept answers = some ideal := by
    rw [← Check.unscripted_comesTo, alike, Check.unscripted_comesTo, comes]
  have ended {t : Turn} {c : Check} {now : List Debounce} (isOver : t.Over)
      (comes : c.comesTo kept answers = some ideal) (course : t.Course kept answers c now) :
      ∃ o, t = .done o ∧ ideal.outline = o.outline ∧ c.Settled kept answers now := by
    cases t with
    | still => exact isOver.elim
    | panicked => cases comes.symm.trans course.1
    | done o =>
      refine ⟨o, rfl, ?_, course.2⟩
      have same := course.1
      rw [comes] at same
      exact Option.some.inj same
  obtain ⟨o, done, outline, settled⟩ := ended run.isOver comes course
  obtain ⟨o', done', outline', settled'⟩ := ended run'.isOver comes' course'
  obtain ⟨sides, healths, counts⟩ := Outcome.of_outline (outline.symm.trans outline')
  refine ⟨o, o', done, done', sides, healths, ?_, ?_⟩
  · intro fault told
    have shown := congrArg Outcome.fault? outline
    rw [Outcome.outline_fault?, Outcome.outline_fault?, told] at shown
    obtain ⟨fault₀, told₀, _⟩ := Option.map_eq_some_iff.mp shown
    obtain ⟨failed, total, last₀, rfl⟩ := aggregates fault₀ told₀
    obtain ⟨last, told₁⟩ := (Outcome.of_outline outline).2.2 _ _ _ told₀
    obtain ⟨last', told'⟩ := (Outcome.of_outline outline').2.2 _ _ _ told₀
    cases told.symm.trans told₁
    exact ⟨failed, total, last, last', rfl, told'⟩
  · apply List.ext_getElem?
    intro slot
    by_cases mine : slot ∈ (Check.group name children).delays
    · refine settled.unique ?_ plain slot mine
      rwa [← Check.unscripted_settled, ← alike, Check.unscripted_settled]
    · have of : (fresh (.group name children)).Of (.group name children) := rfl
      have of' : (fresh root).Of root := rfl
      rw [run.other of mine, run'.other of' (delays ▸ mine)]

/-- A debounced group of two probes, a debounced probe that panics, and a degraded leaf. In the
first call the probes end in the order in which they stand, in the second in the other one: so the
group below fails with the words of another probe, and the group above with another child's
fault. -/
theorem group_timing_free_reversed :
    let down (words : String) : Outcome := .error (.ofFault (.probe words))
    let ask (name : String) (after : Nat) (answer : Answer) : Check :=
      .probe ⟨name, name, ⟨[⟨some after, true⟩], answer⟩, []⟩
    let tree (a b c : Nat) : List Check := [.debounced 0 1 (.group "h"
        [ask "a" a (.outcome (down "gone")), ask "b" b (.outcome (down "slow"))]),
      .debounced 1 3 (ask "c" c .panic), .fixed "d" .degraded "worn"]
    let kept : List Debounce := [⟨1, .healthy⟩, ⟨0, .healthy⟩]
    let w : World := { scopes := ⟨[{}]⟩, debounces := kept }
    let first := (fresh (.group "g" (tree 1 2 3))).atInstants 0 w [0, 0, 0, 1, 2, 3]
    let second := (fresh (.group "g" (tree 3 2 1))).atInstants 0 w [0, 0, 0, 1, 2, 3]
    ∃ o o', first.1 = .done o ∧ second.1 = .done o' ∧
      o.fault? = some (.aggregate 2 3 (.panicked "c")) ∧
      o'.fault? = some (.aggregate 2 3 (.aggregate 2 2 (.probe "gone"))) ∧
      o.isOk = o'.isOk ∧ o.health = o'.health ∧
      first.2.2.debounces = second.2.2.debounces := by
  intro down ask tree kept w first second
  let answers : Answers := fun path =>
    if path = ["h", "a"] then some (down "gone")
    else if path = ["h", "b"] then some (down "slow") else none
  have isOver : first.1.Over := by decide +kernel
  have isOver' : second.1.Over := by decide +kernel
  have run : Alone 0 (fresh (.group "g" (tree 1 2 3))) kept first.2.1 first.1
      first.2.2.debounces := alone_atInstants (by decide) isOver
  have run' : Alone 0 (fresh (.group "g" (tree 3 2 1))) kept second.2.1 second.1
      second.2.2.debounces := alone_atInstants (by decide) isOver'
  have told : first.2.1 = [(["h", "a"], some (down "gone")), (["h", "b"], some (down "slow")),
    (["c"], none)] := rfl
  have told' : second.2.1 = [(["c"], none), (["h", "b"], some (down "slow")),
    (["h", "a"], some (down "gone"))] := rfl
  have gave : ∀ e ∈ first.2.1, answers e.1 = e.2 := by simp [told, answers]
  have gave' : ∀ e ∈ second.2.1, answers e.1 = e.2 := by simp [told', answers]
  have plain : (Check.group "g" (tree 1 2 3)).Plain :=
    ⟨by decide, ⟨by decide, trivial, trivial, trivial⟩, trivial, trivial, trivial⟩
  have alike : (Check.group "g" (tree 3 2 1)).unscripted =
      (Check.group "g" (tree 1 2 3)).unscripted := rfl
  obtain ⟨o, o', done, done', sides, healths, _, same⟩ :=
    group_timing_free plain (by decide) alike run run' gave gave'
  have failed : first.1.outcome?.bind Outcome.fault? = some (.aggregate 2 3 (.panicked "c")) := by
    decide +kernel
  have failed' : second.1.outcome?.bind Outcome.fault? =
      some (.aggregate 2 3 (.aggregate 2 2 (.probe "gone"))) := by
    decide +kernel
  rw [done] at failed
  rw [done'] at failed'
  exact ⟨o, o', done, done', failed, failed', sides, healths, same⟩

end Flight

end HealthTree
