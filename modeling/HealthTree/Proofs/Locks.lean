import HealthTree.Proofs.Assembly
import Mathlib.Data.List.Nodup
import Mathlib.Data.List.Perm.Basic

/-!
# One refresh at a time

A job has a stake in the lock of a cache: it holds the lock, it waits for it, or neither
(`Job.stake`). The lock says the same of every job (`World.Agrees`): the one it names as its holder
is the one that holds it, and those in its line are those that wait.

A step of a job changes the stakes of that job, and of the job it sets off, and the lock follows;
of every other job it goes on to say what it said (`Moves`, `step_moves`). So lock and jobs agree in
every state of every run (`Machine.Locked`), and since a lock names one holder at most, at most one
refresh of a cache is under way (`Locked.holders_le_one`).
-/

namespace HealthTree

/-- What a job has to do with the lock of a cache. -/
inductive Stake where
  /-- It neither holds it nor waits for it. -/
  | free
  | waits
  | holds
  deriving DecidableEq, Repr, Inhabited

/-- The lock gives a job this stake. -/
def Lock.Gives (l : Lock) (id : JobId) (stake : Stake) : Prop :=
  (l.1 = some id ↔ stake = .holds) ∧ (id ∈ l.2 ↔ stake = .waits)

/-- A stake in the lock of one cache, and none in any other. -/
def Stake.at (slot : Nat) (stake : Stake) (other : Nat) : Stake :=
  if other = slot then stake else .free

@[simp] theorem Stake.at_self (slot : Nat) (stake : Stake) : stake.at slot slot = stake :=
  if_pos rfl

/-- The stake of a refresh in the lock of its cache. -/
def Phase.stake : Phase → Stake
  | .arriving => .free
  | .queued => .waits
  | .granted | .calling _ _ => .holds

/-- The stake of a job in the lock of each cache. -/
def Job.stake : Job → Nat → Stake
  | .refresh slot _ _ phase => phase.stake.at slot
  | .call _ _ _ | .loop _ _ | .work _ _ | .watch _ _ | .sleep _ => fun _ => .free

/-- The stake of what a step leaves of a job. -/
def JobTurn.stake : JobTurn → Nat → Stake
  | .going job => job.stake
  | .finished _ | .gone => fun _ => .free

namespace World

/-- The locks give a job these stakes. -/
def Agrees (w : World) (id : JobId) (stakes : Nat → Stake) : Prop :=
  ∀ slot (l : Lock), w.locks[slot]? = some l → l.Gives id (stakes slot)

/-- **The locks change for one job**: they give it these stakes, and to every other job what they
gave it. -/
structure Moves (w : World) (id : JobId) (stakes : Nat → Stake) (w' : World) : Prop where
  own : w'.Agrees id stakes
  others : ∀ other, other ≠ id → ∀ theirs, w.Agrees other theirs → w'.Agrees other theirs

variable {w w₁ w₂ : World} {id : JobId} {slot : Nat} {a b : Nat → Stake}

theorem Agrees.of_locks (agrees : w.Agrees id a) (same : w₁.locks = w.locks) : w₁.Agrees id a :=
  fun slot l found => agrees slot l (same ▸ found)

theorem Moves.refl (agrees : w.Agrees id a) : w.Moves id a w :=
  ⟨agrees, fun _ _ _ theirs => theirs⟩

theorem Moves.trans (first : w.Moves id a w₁) (second : w₁.Moves id b w₂) : w.Moves id b w₂ :=
  ⟨second.own, fun other apart theirs agrees =>
    second.others other apart theirs (first.others other apart theirs agrees)⟩

theorem Moves.of_locks (moves : w.Moves id a w₁) (same : w₂.locks = w₁.locks) :
    w.Moves id a w₂ :=
  ⟨moves.own.of_locks same, fun other apart theirs agrees =>
    (moves.others other apart theirs agrees).of_locks same⟩

/-- A change of one lock moves a job if it does so in that lock. -/
theorem Moves.modify {stake stake' : Stake} {f : Lock → Lock} (agrees : w.Agrees id (stake.at slot))
    (locks : w₁.locks = w.locks.modify slot f)
    (own : ∀ l, w.locks[slot]? = some l → l.Gives id stake → (f l).Gives id stake')
    (others : ∀ l, w.locks[slot]? = some l → l.Gives id stake → ∀ other, other ≠ id →
      ∀ theirs, l.Gives other theirs → (f l).Gives other theirs) :
    w.Moves id (stake'.at slot) w₁ := by
  have here {l : Lock} (found : w.locks[slot]? = some l) : l.Gives id stake := by
    simpa using agrees slot l found
  have before {i : Nat} {l : Lock} (found : w₁.locks[i]? = some l) :
      ∃ l', w.locks[i]? = some l' ∧ l = if slot = i then f l' else l' := by
    rw [locks, List.getElem?_modify] at found
    obtain ⟨l', found, changed⟩ := Option.map_eq_some_iff.mp found
    exact ⟨l', found, changed.symm⟩
  constructor
  · intro i l after
    obtain ⟨l', found, rfl⟩ := before after
    by_cases same : slot = i
    · subst same
      simpa using own l' found (here found)
    · have away := agrees i l' found
      simpa [Stake.at, same, Ne.symm same] using away
  · intro other apart theirs agrees' i l after
    obtain ⟨l', found, rfl⟩ := before after
    by_cases same : slot = i
    · subst same
      simpa using others l' found (here found) other apart _ (agrees' slot l' found)
    · simpa [same] using agrees' i l' found

/-- A lock that nobody holds is given to a job. -/
theorem lock_moves {stake : Stake} (agrees : w.Agrees id (stake.at slot))
    (unheld : ∀ l, w.locks[slot]? = some l → l.1 = none) :
    w.Moves id (Stake.holds.at slot) (w.lock slot id) := by
  refine .modify agrees (w.locks_lock slot id) ?_ ?_
  · intro l _ _
    simp [Lock.Gives]
  · intro l found _ other apart theirs gives
    have none := unheld l found
    simp only [Lock.Gives, none, List.mem_filter, bne_iff_ne, ne_eq, apart, Option.some.injEq,
      Ne.symm apart, reduceCtorEq, not_false_eq_true, and_true] at gives ⊢
    exact gives

/-- The holder of a lock gives it back. -/
theorem unlock_moves (agrees : w.Agrees id (Stake.holds.at slot)) :
    w.Moves id (Stake.free.at slot) (w.unlock slot) := by
  refine .modify agrees (w.locks_unlock slot) ?_ ?_
  · intro l _ gives
    simpa [Lock.Gives] using gives.2
  · intro l _ held other apart theirs gives
    have holder := held.1.mpr rfl
    simp only [Lock.Gives, holder, Option.some.injEq, Ne.symm apart, false_iff, reduceCtorEq]
      at gives ⊢
    exact gives

/-- A job gets in line. -/
theorem enqueue_moves (agrees : w.Agrees id (Stake.free.at slot)) :
    w.Moves id (Stake.waits.at slot) (w.enqueue slot id) := by
  refine .modify agrees (w.locks_enqueue slot id) ?_ ?_
  · intro l _ gives
    simp only [Lock.Gives, reduceCtorEq, iff_false] at gives ⊢
    exact ⟨gives.1, by simp⟩
  · intro l _ _ other apart theirs gives
    simpa [Lock.Gives, apart] using gives

/-- A job gives up its place in the line. -/
theorem dequeue_moves (agrees : w.Agrees id (Stake.waits.at slot)) :
    w.Moves id (Stake.free.at slot) (w.dequeue slot id) := by
  refine .modify agrees (w.locks_dequeue slot id) ?_ ?_
  · intro l _ gives
    simp only [Lock.Gives, reduceCtorEq, iff_false] at gives ⊢
    exact ⟨gives.1, by simp⟩
  · intro l _ _ other apart theirs gives
    simpa [Lock.Gives, apart] using gives

/-! ## Steps of jobs -/

variable {c : Cache} {scope limit : ScopeId} {purpose : Purpose}

theorem locks_at (cached : w.cache? slot = some c) : w.locks[slot]? = some c.lock := by
  simpa [locks, cache?] using ⟨c, cached, rfl⟩

end World

/-- The stake of a refresh once its attempt has come to this. -/
def Attempt.stake : Attempt → Stake
  | refused _ _ => .free
  | waits _ => .waits
  | calls _ _ _ => .holds

@[simp] theorem Stake.free_at (slot : Nat) : Stake.free.at slot = fun _ => .free := by
  funext other
  simp [Stake.at]

namespace World

variable {w w₁ w₂ : World} {id : JobId} {slot : Nat} {a b : Nat → Stake} {c : Cache}
  {scope limit : ScopeId} {purpose : Purpose}

/-- An attempt gets the lock, gets in line for it, or leaves the line. -/
theorem attempt_moves {phase : Phase} (cached : w.cache? slot = some c)
    (agrees : w.Agrees id (phase.stake.at slot)) :
    w.Moves id ((w.attempt id slot c scope phase).stake.at slot)
      (w.attempt id slot c scope phase).world := by
  have unheld (unheld : c.holder = none) (l : Lock) (found : w.locks[slot]? = some l) :
      l.1 = none := by
    rw [locks_at cached] at found
    cases found
    exact unheld
  have cases := w.attempt_cases id slot c scope phase
  generalize w.attempt id slot c scope phase = attempted at cases ⊢
  cases cases with
  | turnsBack | stays | calling => exact .refl agrees
  | stepsOut => exact dequeue_moves agrees
  | linesUp => exact enqueue_moves agrees
  | walksIn live idle =>
    simp only [Cache.isIdle, Bool.and_eq_true, Option.isNone_iff_eq_none] at idle
    exact (lock_moves agrees (unheld idle.1)).of_locks rfl
  | movesUp first =>
    simp only [Bool.and_eq_true, Option.isNone_iff_eq_none] at first
    exact (lock_moves agrees (unheld first.1)).of_locks rfl
  | granted =>
    have same : (w.limited c scope).locks = w.locks := rfl
    exact .of_locks (.refl agrees) same

/-- What a step of a job does to the locks: they change for the job, and then for the job it sets
off. -/
def StepMoves (w : World) (id : JobId) (r : JobTurn × Spawned × World) : Prop :=
  ∃ w₁, w.Moves id r.1.stake w₁ ∧ match r.2.1 with
    | none => r.2.2.locks = w₁.locks
    | some (new, job) => new = w.nextJob ∧ w₁.Moves new job.stake r.2.2

/-- A refresh without a stake is concluded, and a loop has none. -/
theorem conclude_stepMoves {fault : Option Fault} (moves : w.Moves id (fun _ => .free) w₁)
    (next : w₁.nextJob = w.nextJob) (fresh : w.Agrees w.nextJob fun _ => .free)
    (apart : w.nextJob ≠ id) :
    w.StepMoves id (w₁.conclude slot c scope fault purpose) := by
  refine ⟨w₁, ?_, ?_⟩
  · cases turn : (w₁.conclude slot c scope fault purpose).1 with
    | going job =>
      obtain ⟨next, rest, rfl⟩ := conclude_going _ _ _ _ _ _ turn
      simpa [JobTurn.stake, Job.stake, Phase.stake] using moves
    | finished r | gone => exact moves
  · rcases w₁.conclude_spawned slot c scope purpose fault with ⟨spawned, _⟩ | ⟨spawned, _, _⟩
    · simp only [spawned, conclude_locks]
    · simp only [spawned]
      refine ⟨next, Moves.of_locks (.refl ?_) (conclude_locks ..)⟩
      exact next ▸ moves.others _ apart _ fresh

theorem finishRefresh_stepMoves {o : Outcome} (moves : w.Moves id (Stake.holds.at slot) w₁)
    (next : w₁.nextJob = w.nextJob) (fresh : w.Agrees w.nextJob fun _ => .free)
    (apart : w.nextJob ≠ id) :
    w.StepMoves id (w₁.finishRefresh slot c scope purpose o) := by
  have released {w₂ : World} (same : w₂.locks = w₁.locks) :
      w.Moves id (fun _ => .free) (w₂.unlock slot) := by
    have moves := moves.of_locks same
    exact Stake.free_at slot ▸ moves.trans (unlock_moves moves.own)
  simp only [finishRefresh]
  cases w₁.cause? scope with
  | some cause => exact conclude_stepMoves (released (locks_tell w₁ _)) next fresh apart
  | none => exact conclude_stepMoves (released (locks_commit w₁ slot c o)) next fresh apart

theorem refreshTurn_stepMoves {t : Turn} (moves : w.Moves id (Stake.holds.at slot) w₁)
    (next : w₁.nextJob = w.nextJob) (fresh : w.Agrees w.nextJob fun _ => .free)
    (apart : w.nextJob ≠ id) :
    w.StepMoves id (w₁.refreshTurn slot c scope purpose limit t) := by
  cases t with
  | still flight => exact ⟨w₁, moves, rfl⟩
  | done o => exact finishRefresh_stepMoves moves next fresh apart
  | panicked =>
    refine ⟨w₁.unlock slot, ?_, rfl⟩
    have released := Stake.free_at slot ▸ moves.trans (unlock_moves moves.own)
    cases purpose <;> exact released

theorem stepLoop_stepMoves (cached : w.cache? slot = some c)
    (agrees : w.Agrees id fun _ => .free) (fresh : w.Agrees w.nextJob fun _ => .free) :
    w.StepMoves id (w.stepLoop slot c scope) := by
  have ticked : (w.ticked slot).locks = w.locks := locks_modifyCache_same w slot fun _ => rfl
  -- a tick that finds the cache idle locks it for the refresh that it sets off
  have granted {w₁ w₂ : World} (idle : c.isIdle = true) (before : w₁.locks = w.locks)
      (after : w₂.locks = (w₁.granted slot).locks) (next : w₁.nextJob = w.nextJob) :
      w₁.Moves w.nextJob (Stake.holds.at slot) w₂ := by
    have unheld (l : Lock) (found : w₁.locks[slot]? = some l) : l.1 = none := by
      rw [before, locks_at cached] at found
      cases found
      simp only [Cache.isIdle, Bool.and_eq_true, Option.isNone_iff_eq_none] at idle
      exact idle.1
    have free := Stake.free_at slot ▸ fresh.of_locks before
    rw [← next] at free ⊢
    exact .of_locks (lock_moves free unheld) after
  have cases := w.stepLoop_cases slot c scope
  generalize w.stepLoop slot c scope = r at cases ⊢
  cases cases with
  | stops | rests | skipsLast => exact ⟨w, .refl agrees, rfl⟩
  | ticks _ _ idle =>
    exact ⟨w.ticked slot, .of_locks (.refl agrees) ticked, rfl, granted idle ticked rfl rfl⟩
  | ticksLast _ _ _ idle => exact ⟨w, .refl agrees, rfl, granted idle rfl rfl rfl⟩
  | skips => exact ⟨w, .refl agrees, ticked⟩

end World

namespace Job

variable {w : World} {id : JobId} {job : Job}

/-- **A step of a job moves the job, and the job it sets off, and no other.** -/
theorem step_moves (agrees : w.Agrees id job.stake) (fresh : w.Agrees w.nextJob fun _ => .free)
    (apart : w.nextJob ≠ id) : w.StepMoves id (job.step id w) := by
  cases job with
  | call name scope flight =>
    simp only [Job.step]
    refine ⟨(flight.step scope w).2, ?_, rfl⟩
    have moves : w.Moves id (fun _ => .free) (flight.step scope w).2 :=
      .of_locks (.refl agrees) (by simp [World.locks])
    cases (flight.step scope w).1 <;> exact moves
  | refresh slot scope purpose phase =>
    simp only [Job.step]
    cases cached : w.cache? slot with
    | none =>
      refine ⟨w, ⟨?_, fun _ _ _ theirs => theirs⟩, rfl⟩
      intro other l found
      have away : other ≠ slot := by
        rintro rfl
        rw [World.locks, List.getElem?_map, show w.caches[other]? = none from cached] at found
        cases found
      have free := agrees other l found
      rwa [Job.stake, Stake.at, if_neg away] at free
    | some c =>
      have moves : w.Moves id ((w.attempt id slot c scope phase).stake.at slot)
          (w.attempt id slot c scope phase).world := World.attempt_moves cached agrees
      have next := w.attempt_next id slot c scope phase
      simp only [World.stepRefresh_eq]
      cases attempted : w.attempt id slot c scope phase with
      | refused cause w₁ =>
        rw [attempted] at moves next
        exact World.conclude_stepMoves (Stake.free_at slot ▸ moves) next fresh apart
      | waits w₁ =>
        rw [attempted] at moves
        exact ⟨w₁, moves, rfl⟩
      | calls limit flight w₁ =>
        rw [attempted] at moves next
        simp only [World.goOnRefresh_eq]
        refine World.refreshTurn_stepMoves (moves.of_locks ?_) ?_ fresh apart
        · rw [World.locks, World.callInner_caches]
          rfl
        · exact (w₁.callInner_nextJob limit flight).trans next
  | loop slot scope =>
    simp only [Job.step]
    cases cached : w.cache? slot with
    | none => exact ⟨w, .refl agrees, rfl⟩
    | some c => exact World.stepLoop_stepMoves cached agrees fresh
  | work scope wake | watch scope wake =>
    refine ⟨w, ?_, rfl⟩
    simp only [Job.step]
    split
    · exact .refl agrees
    · split <;> exact .refl agrees
  | sleep wake =>
    refine ⟨w, ?_, rfl⟩
    simp only [Job.step]
    split <;> exact .refl agrees

end Job

/-! ## Every state of every run -/

/-- **Locks and jobs agree**: jobs have numbers of their own, the locks give each job its stake,
and a number that no job has they give none. Of a job that is taken out nothing is said. -/
structure World.Locked (w : World) (jobs : List (JobId × Job)) (out : Option JobId) : Prop where
  distinct : (jobs.map Prod.fst).Nodup
  numbered : ∀ p ∈ jobs, p.1 < w.nextJob
  away : ∀ id, out = some id → id ∉ jobs.map Prod.fst
  agrees : ∀ p ∈ jobs, w.Agrees p.1 p.2.stake
  others : ∀ id, id ∉ jobs.map Prod.fst → out ≠ some id → w.Agrees id fun _ => .free

namespace World.Locked

variable {w w' : World} {jobs : List (JobId × Job)} {id : JobId} {job : Job}

theorem fresh (locked : w.Locked jobs none) : w.nextJob ∉ jobs.map Prod.fst := fun mem => by
  obtain ⟨p, mem, same⟩ := List.mem_map.mp mem
  exact Nat.lt_irrefl _ (same ▸ locked.numbered p mem)

/-- A job is taken out of the list. -/
theorem takeOut (locked : w.Locked jobs none) {rest : List (JobId × Job)}
    (perm : ((id, job) :: rest).Perm jobs) : w.Locked rest (some id) := by
  have names := perm.map Prod.fst
  rw [List.map_cons] at names
  obtain ⟨away, distinct⟩ := List.nodup_cons.mp (names.nodup_iff.mpr locked.distinct)
  have sub {p : JobId × Job} (mem : p ∈ rest) : p ∈ jobs :=
    perm.mem_iff.mp (List.mem_cons_of_mem _ mem)
  refine ⟨distinct, fun p mem => locked.numbered p (sub mem), ?_,
    fun p mem => locked.agrees p (sub mem), ?_⟩
  · rintro _ ⟨⟩
    exact away
  · intro other absent apart
    refine locked.others other ?_ nofun
    intro mem
    rcases List.mem_cons.mp (names.mem_iff.mpr mem) with rfl | mem
    · exact apart rfl
    · exact absent mem

/-- A number that no job has is set aside. -/
theorem reserve (locked : w.Locked jobs none) (absent : id ∉ jobs.map Prod.fst) :
    w.Locked jobs (some id) where
  distinct := locked.distinct
  numbered := locked.numbered
  away := by
    rintro _ ⟨⟩
    exact absent
  agrees := locked.agrees
  others other absent _ := locked.others other absent nofun

/-- The locks change for the job that is taken out. -/
theorem moves {stakes : Nat → Stake} (locked : w.Locked jobs (some id))
    (moves : w.Moves id stakes w') (next : w.nextJob ≤ w'.nextJob) : w'.Locked jobs (some id) where
  distinct := locked.distinct
  numbered p mem := Nat.lt_of_lt_of_le (locked.numbered p mem) next
  away := locked.away
  agrees p mem := by
    refine moves.others p.1 (fun same => locked.away id rfl ?_) _ (locked.agrees p mem)
    exact same ▸ List.mem_map_of_mem mem
  others other absent apart :=
    moves.others other (fun same => apart (same ▸ rfl)) _ (locked.others other absent apart)

/-- The job that was taken out is over. -/
theorem drop (locked : w.Locked jobs (some id)) (free : w.Agrees id fun _ => .free) :
    w.Locked jobs none where
  distinct := locked.distinct
  numbered := locked.numbered
  away := nofun
  agrees := locked.agrees
  others other absent _ := by
    by_cases same : other = id
    · exact same ▸ free
    · exact locked.others other absent fun eq => same (Option.some.inj eq).symm

/-- The job that was taken out is put back, or a new one is put in its place. -/
theorem putBack (locked : w.Locked jobs (some id)) (agrees : w.Agrees id job.stake)
    (numbered : id < w.nextJob) : w.Locked (jobs ++ [(id, job)]) none where
  distinct := by
    rw [List.map_append, List.nodup_append]
    refine ⟨locked.distinct, List.nodup_singleton id, ?_⟩
    intro other mem _ mem' same
    have same : other = id := List.mem_singleton.mp (same ▸ mem')
    exact locked.away id rfl (same ▸ mem)
  numbered p mem := by
    rcases List.mem_append.mp mem with mem | mem
    · exact locked.numbered p mem
    · exact List.mem_singleton.mp mem ▸ numbered
  away := nofun
  agrees p mem := by
    rcases List.mem_append.mp mem with mem | mem
    · exact locked.agrees p mem
    · exact List.mem_singleton.mp mem ▸ agrees
  others other absent _ := by
    simp only [List.map_append, List.map_cons, List.map_nil, List.mem_append, List.mem_singleton,
      not_or] at absent
    exact locked.others other absent.1 fun eq => absent.2 (Option.some.inj eq).symm

end World.Locked

/-- The job of a number stands before all others of the list, where every number stands once. -/
theorem lookup_filter_perm {jobs : List (JobId × Job)} {id : JobId} {job : Job}
    (distinct : (jobs.map Prod.fst).Nodup) (found : jobs.lookup id = some job) :
    ((id, job) :: jobs.filter (·.1 != id)).Perm jobs := by
  induction jobs with
  | nil => cases found
  | cons first rest ih =>
    obtain ⟨other, theirs⟩ := first
    obtain ⟨away, distinct⟩ := List.nodup_cons.mp distinct
    by_cases same : id = other
    · subst same
      simp only [List.lookup_cons, beq_self_eq_true, Option.some.injEq] at found
      subst found
      have all : rest.filter (·.1 != id) = rest := by
        apply List.filter_eq_self.mpr
        intro p mem
        apply bne_iff_ne.mpr
        intro same
        have named : p.1 ∈ rest.map Prod.fst := List.mem_map_of_mem mem
        exact away (same ▸ named)
      simp [all]
    · simp only [List.lookup_cons, beq_eq_false_iff_ne.mpr same] at found
      rw [List.filter_cons_of_pos (by simpa using Ne.symm same)]
      exact (List.Perm.swap ..).trans ((ih distinct found).cons _)

/-- A job that is dropped gives back what it has of the locks. -/
theorem Job.drop_moves {w : World} {id : JobId} {job : Job} (agrees : w.Agrees id job.stake) :
    w.Moves id (fun _ => .free) (job.drop id w) := by
  cases job with
  | refresh slot scope purpose phase =>
    rw [← Stake.free_at slot]
    cases phase with
    | arriving => exact .refl agrees
    | queued => exact World.dequeue_moves agrees
    | granted | calling => exact World.unlock_moves agrees
  | _ => exact .refl agrees

@[simp] theorem Job.drop_nextJob (w : World) (id : JobId) (job : Job) :
    (job.drop id w).nextJob = w.nextJob := by
  cases job with
  | refresh slot scope purpose phase => cases phase <;> rfl
  | _ => rfl

namespace Machine

/-- Locks and jobs of a machine agree. -/
abbrev Locked (m : Machine) : Prop :=
  m.world.Locked m.jobs none

variable {m : Machine}

/-- The job that takes its step, and those beside it. -/
theorem beside_perm {i : Nat} {p : JobId × Job} (found : m.jobs[i]? = some p) :
    (p :: m.jobs.eraseIdx i).Perm m.jobs := by
  obtain ⟨lt, there⟩ := List.getElem?_eq_some_iff.mp found
  exact there ▸ List.getElem_cons_eraseIdx_perm lt

/-- **No other job has the number** of the one that takes its step. -/
theorem Locked.beside (locked : m.Locked) {i : Nat} {p : JobId × Job}
    (found : m.jobs[i]? = some p) : p.1 ∉ (m.jobs.eraseIdx i).map Prod.fst := by
  have numbers := (beside_perm found).map Prod.fst
  rw [List.map_cons] at numbers
  exact (List.nodup_cons.mp (numbers.nodup_iff.mpr locked.distinct)).1

/-- **A step of a job keeps locks and jobs in agreement.** -/
theorem Locked.takeTurn (locked : m.Locked) (i : Nat) : (m.takeTurn i).Locked := by
  unfold Machine.takeTurn
  cases found : m.jobs[i]? with
  | none => exact locked
  | some p =>
    obtain ⟨id, job⟩ := p
    have mem := List.mem_of_getElem? found
    have perm := beside_perm found
    have numbered := locked.numbered _ mem
    have fresh : m.world.Agrees m.world.nextJob fun _ => .free :=
      locked.others _ locked.fresh nofun
    obtain ⟨w₁, moves, spawned⟩ := Job.step_moves (locked.agrees _ mem) fresh
      (Nat.ne_of_gt numbered)
    have numbers := Job.step_numbered id m.world job
    rcases taken : job.step id m.world with ⟨turn, spawned?, w⟩
    simp only [taken, Numbered] at moves spawned numbers ⊢
    -- the job as the step leaves it, before the one that is set off
    have left (w' : World) (moves : m.world.Moves id turn.stake w')
        (next : m.world.nextJob ≤ w'.nextJob) :
        w'.Locked (m.jobs.eraseIdx i ++ turn.left id) none := by
      have out := (locked.takeOut perm).moves moves next
      cases turn with
      | going job => exact out.putBack moves.own (Nat.lt_of_lt_of_le numbered next)
      | finished | gone =>
        simpa only [JobTurn.left, List.append_nil] using out.drop moves.own
    cases spawned? with
    | none =>
      simp only [Option.toList_none, List.append_nil]
      exact left w (moves.of_locks spawned) (Nat.le_of_eq numbers.symm)
    | some new =>
      obtain ⟨new, started⟩ := new
      obtain ⟨rfl, spawned⟩ := spawned
      let w₂ : World := { w₁ with nextJob := m.world.nextJob }
      have locked' := left w₂ (moves.of_locks rfl) (Nat.le_refl _)
      have absent := locked'.fresh
      have moves' : w₂.Moves m.world.nextJob started.stake w :=
        ⟨spawned.own, spawned.others⟩
      have out := (locked'.reserve absent).moves moves' (numbers.2 ▸ Nat.le_succ _)
      simpa using out.putBack spawned.own (numbers.2 ▸ Nat.lt_succ_self _)

theorem Locked.abort (locked : m.Locked) (id : JobId) : (m.abort id).Locked := by
  unfold Machine.abort
  cases found : m.jobs.lookup id with
  | none => exact locked
  | some job =>
    have perm := lookup_filter_perm locked.distinct found
    have moves := Job.drop_moves (locked.agrees _ (perm.mem_iff.mp List.mem_cons_self))
    exact ((locked.takeOut perm).moves moves (Nat.le_of_eq (by simp))).drop moves.own

theorem Locked.submit (locked : m.Locked) {job : Job} (free : job.stake = fun _ => .free) :
    (m.submit job).2.Locked := by
  have unowned := locked.others _ locked.fresh nofun
  have moves : m.world.Moves m.world.nextJob job.stake
      { m.world with nextJob := m.world.nextJob + 1 } := .of_locks (.refl (free ▸ unowned)) rfl
  exact ((locked.reserve locked.fresh).moves moves (Nat.le_succ _)).putBack moves.own
    (Nat.lt_succ_self _)

/-- Nothing of the locks changes, and no job. -/
theorem Locked.of_world {w : World} {finished : List (JobId × Nat × Reply)} (locked : m.Locked)
    (locks : w.locks = m.world.locks) (next : w.nextJob = m.world.nextJob) :
    (Machine.mk w m.jobs finished).Locked where
  distinct := locked.distinct
  numbered p mem := next ▸ locked.numbered p mem
  away := nofun
  agrees p mem := (locked.agrees p mem).of_locks locks
  others id absent out := (locked.others id absent out).of_locks locks

theorem Locked.stop (locked : m.Locked) (slot : Nat) : (m.stop slot).Locked := by
  unfold Machine.stop
  split
  · exact locked.of_world (World.locks_modifyCache_same _ slot fun _ => rfl) rfl
  · exact locked

/-- **What a command changes keeps locks and jobs in agreement.** -/
theorem Locked.touch {known : Check → Prop} {p p' : Machine × List ScopeId} (locked : p.1.Locked)
    (touch : Touch known p p') : p'.1.Locked := by
  cases touch with
  | stop m held slot => exact locked.stop slot
  | abort m held id => exact locked.abort id
  | submit m asked =>
    apply locked.submit
    cases asked with
    | start | force => exact Stake.free_at _
    | _ => rfl
  | _ => exact locked.of_world rfl rfl

/-- A lock gives every number a stake that the job of the number has, or none. -/
theorem Locked.gives (locked : m.Locked) {slot : Nat} {c : Cache}
    (cached : m.world.cache? slot = some c) (id : JobId) :
    (∃ job, (id, job) ∈ m.jobs ∧ c.lock.Gives id (job.stake slot)) ∨ c.lock.Gives id .free := by
  by_cases listed : id ∈ m.jobs.map Prod.fst
  · obtain ⟨⟨_, job⟩, mem, rfl⟩ := List.mem_map.mp listed
    exact .inl ⟨job, mem, locked.agrees _ mem slot _ (World.locks_at cached)⟩
  · exact .inr (locked.others id listed nofun slot _ (World.locks_at cached))

/-- **At most one refresh of a cache is under way.** -/
theorem Locked.holders_le_one (locked : m.Locked) {slot : Nat} {c : Cache}
    (cached : m.world.cache? slot = some c) :
    m.jobs.countP (fun p => p.2.stake slot = .holds) ≤ 1 := by
  have named {p : JobId × Job} (mem : p ∈ m.jobs) (holds : p.2.stake slot = .holds) :
      c.holder = some p.1 := ((locked.agrees p mem) slot _ (World.locks_at cached)).1.mpr holds
  rw [List.countP_eq_length_filter]
  have distinct := locked.distinct.sublist
    ((List.filter_sublist (p := fun p => p.2.stake slot = .holds)).map Prod.fst)
  have all : ∀ id ∈ (m.jobs.filter fun p => p.2.stake slot = .holds).map Prod.fst,
      c.holder = some id := by
    intro id listed
    obtain ⟨p, held, rfl⟩ := List.mem_map.mp listed
    obtain ⟨mem, holds⟩ := List.mem_filter.mp held
    exact named mem (of_decide_eq_true holds)
  rw [← List.length_map (f := Prod.fst)]
  generalize (m.jobs.filter fun p => p.2.stake slot = .holds).map Prod.fst = holders at *
  match holders with
  | [] => exact Nat.zero_le 1
  | [_] => exact Nat.le_refl 1
  | id :: other :: rest =>
    have same := Option.some.inj ((all id (by simp)).symm.trans (all other (by simp)))
    simp [same] at distinct

end Machine

/-- A session begins with every lock free. -/
theorem CheckTree.Planned.locked {t : CheckTree} {plan : Plan} (planned : t.Planned plan)
    (before : List Event) : (Scenario.Session.ofTree (some t) before).machine.Locked := by
  refine ⟨List.nodup_nil, List.forall_mem_nil _, ?_, List.forall_mem_nil _,
    fun id _ _ slot l found => ?_⟩
  · rintro _ ⟨⟩
  obtain ⟨c, mem, rfl⟩ := List.mem_map.mp (List.mem_of_getElem? found)
  rw [planned.assembled.empty c mem]
  simp [Lock.Gives, Cache.lock]

end HealthTree
