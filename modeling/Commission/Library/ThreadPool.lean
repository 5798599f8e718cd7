import Commission.Library.Interleaving
import Mathlib.Algebra.Order.BigOperators.Group.Finset

/-! Threads which run one program over a common memory, one step of one thread
at a time. -/
namespace ThreadPool

/-- A program for a number of threads. `step` is undefined for a thread which
has ended and for one which waits; `observe` is what a step adds to the log. -/
structure Program (Mem Local Obs : Type*) where
  threads : ℕ
  launch : ℕ → Local
  step : ℕ → Local → Mem → Option (Local × Mem)
  halted : Local → Bool
  observe : ℕ → Local → Mem → List Obs

/-- The threads, their memory, and what they have done so far. -/
structure Pool (Mem Local Obs : Type*) where
  locals : ℕ → Local
  mem : Mem
  log : List Obs

variable {Mem Local Obs : Type*} (P : Program Mem Local Obs)

namespace Program

/-- The pool before the first step. -/
def start (mem : Mem) : Pool Mem Local Obs := ⟨P.launch, mem, []⟩

/-- Thread `t` takes a step. -/
def advance (pool : Pool Mem Local Obs) (t : ℕ) : Option (Pool Mem Local Obs) :=
  if t < P.threads then
    (P.step t (pool.locals t) pool.mem).map fun next =>
      ⟨Function.update pool.locals t next.1, next.2,
        pool.log ++ P.observe t (pool.locals t) pool.mem⟩
  else none

/-- The threads take steps in the order of the schedule. -/
def run (pool : Pool Mem Local Obs) (schedule : List ℕ) : Option (Pool Mem Local Obs) :=
  Interleaving.run P.advance pool schedule

/-- Every thread has ended. -/
def Finished (pool : Pool Mem Local Obs) : Prop :=
  ∀ t < P.threads, P.halted (pool.locals t) = true

/-- The program runs from `mem` to the end of all threads and leaves `mem'`. -/
def Completes (mem mem' : Mem) : Prop :=
  ∃ schedule pool, P.run (P.start mem) schedule = some pool ∧ P.Finished pool ∧ pool.mem = mem'

end Program

section Rules

variable {P} {pool pool' : Pool Mem Local Obs} {t : ℕ} {schedule : List ℕ}

theorem advance_eq_some :
    P.advance pool t = some pool' ↔ t < P.threads ∧ ∃ next mem,
      P.step t (pool.locals t) pool.mem = some (next, mem) ∧
      pool' = ⟨Function.update pool.locals t next, mem,
        pool.log ++ P.observe t (pool.locals t) pool.mem⟩ := by
  simp only [Program.advance, Option.ite_none_right_eq_some, Option.map_eq_some_iff, Prod.exists]
  constructor
  · rintro ⟨hThread, next, mem, hStep, rfl⟩
    exact ⟨hThread, next, mem, hStep, rfl⟩
  · rintro ⟨hThread, next, mem, hStep, rfl⟩
    exact ⟨hThread, next, mem, hStep, rfl⟩

/-- An invariant of the memory and of each thread's local state: a step keeps it
for its own thread, and no step of one thread spoils it for another. -/
theorem advance_local_invariant {I : Mem → Prop} {J : Mem → ℕ → Local → Prop}
    (hStep : ∀ t l m l' m', t < P.threads → I m → J m t l → P.step t l m = some (l', m') →
      I m' ∧ J m' t l' ∧ ∀ u k, u ≠ t → J m u k → J m' u k)
    (hInv : I pool.mem ∧ ∀ u < P.threads, J pool.mem u (pool.locals u))
    (hAdvance : P.advance pool t = some pool') :
    I pool'.mem ∧ ∀ u < P.threads, J pool'.mem u (pool'.locals u) := by
  obtain ⟨hThread, next, mem, hNext, rfl⟩ := advance_eq_some.mp hAdvance
  obtain ⟨hMem', hOwn, hOthers⟩ :=
    hStep t (pool.locals t) pool.mem next mem hThread hInv.1 (hInv.2 t hThread) hNext
  refine ⟨hMem', fun u hu => ?_⟩
  by_cases hSame : u = t
  · subst hSame
    simpa using hOwn
  · simpa [Function.update_of_ne hSame] using hOthers u _ hSame (hInv.2 u hu)

theorem run_local_invariant {I : Mem → Prop} {J : Mem → ℕ → Local → Prop}
    (hStep : ∀ t l m l' m', t < P.threads → I m → J m t l → P.step t l m = some (l', m') →
      I m' ∧ J m' t l' ∧ ∀ u k, u ≠ t → J m u k → J m' u k)
    (hMem : I pool.mem) (hLocals : ∀ u < P.threads, J pool.mem u (pool.locals u))
    (hRun : P.run pool schedule = some pool') :
    I pool'.mem ∧ ∀ u < P.threads, J pool'.mem u (pool'.locals u) :=
  Interleaving.run_invariant
    (fun pool : Pool Mem Local Obs => I pool.mem ∧ ∀ u < P.threads, J pool.mem u (pool.locals u))
    (fun _ _ _ hInv hAdvance => advance_local_invariant hStep hInv hAdvance) ⟨hMem, hLocals⟩ hRun

/-- A balance which holds for the step of one thread holds for all threads. -/
theorem sum_locals_step {M : Type*} [AddCancelCommMonoid M] {threads : ℕ} (hThread : t < threads)
    (weight : ℕ → Local → M) (locals : ℕ → Local) (next : Local) {a b : M}
    (hStep : a + weight t (locals t) = b + weight t next) :
    a + ∑ u ∈ Finset.range threads, weight u (locals u) =
      b + ∑ u ∈ Finset.range threads, weight u (Function.update locals t next u) := by
  have hSum := Interleaving.sum_update_add (Finset.mem_range.mpr hThread) weight locals next
  apply add_right_cancel (b := weight t (locals t) + weight t next)
  calc
    a + ∑ u ∈ Finset.range threads, weight u (locals u) + (weight t (locals t) + weight t next) =
        a + weight t (locals t) +
          (∑ u ∈ Finset.range threads, weight u (locals u) + weight t next) := by ac_rfl
    _ = b + weight t next + (∑ u ∈ Finset.range threads,
          weight u (Function.update locals t next u) + weight t (locals t)) := by rw [hStep, hSum]
    _ = _ := by ac_rfl

/-- If in every pool with the invariant which is not finished some thread can take a
step which lowers its measure, then some schedule ends all threads. -/
theorem exists_run_finished (Inv : Pool Mem Local Obs → Prop) (measure : ℕ → Local → ℕ)
    (hStep : ∀ pool t pool', Inv pool → P.advance pool t = some pool' → Inv pool')
    (hProgress : ∀ pool, Inv pool → ¬ P.Finished pool → ∃ t < P.threads, ∃ next mem,
      P.step t (pool.locals t) pool.mem = some (next, mem) ∧
        measure t next < measure t (pool.locals t))
    (pool : Pool Mem Local Obs) (hInv : Inv pool) :
    ∃ schedule pool', P.run pool schedule = some pool' ∧ P.Finished pool' := by
  by_cases hFinished : P.Finished pool
  · exact ⟨[], pool, rfl, hFinished⟩
  obtain ⟨t, hThread, next, mem, hNext, hLess⟩ := hProgress pool hInv hFinished
  have hAdvance := advance_eq_some.mpr ⟨hThread, next, mem, hNext, rfl⟩
  have hSum : ∑ u ∈ Finset.range P.threads,
        measure u (Function.update pool.locals t next u) <
      ∑ u ∈ Finset.range P.threads, measure u (pool.locals u) := by
    refine Finset.sum_lt_sum (fun u _ => ?_) ⟨t, Finset.mem_range.mpr hThread, by simpa using hLess⟩
    by_cases hSame : u = t
    · subst hSame
      simpa using hLess.le
    · rw [Function.update_of_ne hSame]
  obtain ⟨schedule, pool', hRun, hEnd⟩ :=
    exists_run_finished Inv measure hStep hProgress _ (hStep _ _ _ hInv hAdvance)
  exact ⟨t :: schedule, pool', Interleaving.run_cons.mpr ⟨_, hAdvance, hRun⟩, hEnd⟩
termination_by ∑ u ∈ Finset.range P.threads, measure u (pool.locals u)

end Rules

end ThreadPool
