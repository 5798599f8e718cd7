import Commission.Gpu.InitSeeds

/-! What `KernelSeed1::late_kernel<Stage>` leaves behind: the octaves of its stage
for every seed of its inputs, each of them initialised by one thread. -/
namespace Commission

open ThreadPool

variable {F : Type} [Arith F]

namespace KernelSeed1

section Invariant

variable (fuel : ℕ) (large : Bool) (stage : ℕ) (inputs : OutputBuffer) (n : ℕ) (d : Device F)

/-- `inputs.data[i].seed_index` -/
def inputSeed (i : ℕ) : ℕ := (d.positions inputs.data i).value.seedIndex

/-- All octaves of the stage are in place. -/
def StageDone (m : Device F) (seedIndex : ℕ) : Prop :=
  ∀ call ∈ lateCalls stage, ∀ word < u4PerStruct,
    m.HoldsWord fuel large seedIndex call.member word

/-- The inputs of thread `t` before loop variable `i` have their flag. -/
def Visited (m : Device F) (t i : ℕ) : Prop :=
  ∀ j < n, j < i → j % lateThreads = t → m.initFlags (inputSeed inputs d j) = stage

/-- A thread has taken the seed index from one of its inputs. -/
structure AtInput (t i seedIndex : ℕ) : Prop where
  lt : i < n
  own : i % lateThreads = t
  seed_eq : seedIndex = inputSeed inputs d i

/-- A thread has won the flag of its seed, has finished some calls of the stage and
has others left. -/
structure Initialising (m : Device F) (t i seedIndex : ℕ) (seed : BitVec 64)
    (finished calls : List InitCall) : Prop extends AtInput inputs n d t i seedIndex where
  visited : Visited stage inputs n d m t (i + lateThreads)
  value_eq : seed = (d.seeds seedIndex).value
  split : lateCalls stage = finished ++ calls
  words : ∀ call ∈ finished, ∀ word < u4PerStruct, m.HoldsWord fuel large seedIndex call.member word

def LateProgress (m : Device F) (t : ℕ) : LatePc F → Prop
  | .loop i => i % lateThreads = t ∧ Visited stage inputs n d m t i
  | .cas i seedIndex => AtInput inputs n d t i seedIndex ∧ Visited stage inputs n d m t i
  | .load i seedIndex =>
      AtInput inputs n d t i seedIndex ∧ Visited stage inputs n d m t (i + lateThreads)
  | .init i seedIndex seed calls =>
      ∃ finished, Initialising fuel large stage inputs n d m t i seedIndex seed finished calls
  | .copy i seedIndex seed call rest noise word =>
      ∃ finished, Initialising fuel large stage inputs n d m t i seedIndex seed finished (call :: rest) ∧
        octaveNoise fuel large (d.seeds seedIndex).value call.member = some noise ∧
        word < u4PerStruct ∧
        ∀ w < word, m.HoldsWord fuel large seedIndex call.member w

/-- Device memory during the kernel: only `results` and flags change, a flag only
from the stage before to this one, and no octave is spoilt. -/
structure LateMemory (m : Device F) : Prop where
  frame : m = { d with results := m.results, initFlags := m.initFlags }
  flags : ∀ s, m.initFlags s = d.initFlags s ∨ d.initFlags s = stage - 1 ∧ m.initFlags s = stage
  words : ∀ s member word, d.HoldsWord fuel large s member word →
    m.HoldsWord fuel large s member word

end Invariant

/-- The thread has won the flag of a seed and is not finished with it. -/
def LatePc.WorksOn (seedIndex : ℕ) : LatePc F → Prop
  | .loop _ | .cas _ _ => False
  | .load _ s | .init _ s _ _ | .copy _ s _ _ _ _ _ => s = seedIndex

section Steps

variable {fuel : ℕ} {large : Bool} {stage : ℕ} {inputs : OutputBuffer} {n : ℕ} {d m m' : Device F}
  {t : ℕ}

/-- What no step takes back. -/
structure Later (fuel : ℕ) (large : Bool) (stage : ℕ) (m m' : Device F) : Prop where
  flags : ∀ s, m.initFlags s = stage → m'.initFlags s = stage
  words : ∀ s member word, m.HoldsWord fuel large s member word →
    m'.HoldsWord fuel large s member word

theorem Later.refl (m : Device F) : Later fuel large stage m m :=
  ⟨fun _ hFlag => hFlag, fun _ _ _ hWord => hWord⟩

theorem Visited.mono {i : ℕ} (hLater : Later fuel large stage m m')
    (hVisited : Visited stage inputs n d m t i) : Visited stage inputs n d m' t i :=
  fun j hj hBefore hOwn => hLater.flags _ (hVisited j hj hBefore hOwn)

theorem Initialising.mono {i seedIndex : ℕ} {seed : BitVec 64} {finished calls : List InitCall}
    (hLater : Later fuel large stage m m')
    (hInit : Initialising fuel large stage inputs n d m t i seedIndex seed finished calls) :
    Initialising fuel large stage inputs n d m' t i seedIndex seed finished calls where
  toAtInput := hInit.toAtInput
  visited := hInit.visited.mono hLater
  value_eq := hInit.value_eq
  split := hInit.split
  words call hCall word hWord := hLater.words _ _ _ (hInit.words call hCall word hWord)

theorem LateProgress.mono {pc : LatePc F} (hLater : Later fuel large stage m m')
    (hProgress : LateProgress fuel large stage inputs n d m t pc) :
    LateProgress fuel large stage inputs n d m' t pc := by
  cases pc with
  | loop i => exact ⟨hProgress.1, hProgress.2.mono hLater⟩
  | cas i seedIndex => exact ⟨hProgress.1, hProgress.2.mono hLater⟩
  | load i seedIndex => exact ⟨hProgress.1, hProgress.2.mono hLater⟩
  | init i seedIndex seed calls =>
      obtain ⟨finished, hInit⟩ := hProgress
      exact ⟨finished, hInit.mono hLater⟩
  | copy i seedIndex seed call rest noise word =>
      obtain ⟨finished, hInit, hNoise, hWord, hCopied⟩ := hProgress
      exact ⟨finished, hInit.mono hLater, hNoise, hWord,
        fun w hw => hLater.words _ _ _ (hCopied w hw)⟩

omit [Arith F] in
/-- Once the flag of input `i` is set, the thread may go on. -/
theorem Visited.next {i : ℕ} (hVisited : Visited stage inputs n d m t i)
    (hOwn : i % lateThreads = t) (hFlag : m.initFlags (inputSeed inputs d i) = stage) :
    Visited stage inputs n d m t (i + lateThreads) := by
  intro j hj hBefore hjOwn
  have hLast : j < i ∨ j = i := by
    simp only [lateThreads, lateGridDim, threadsPerBlock] at hBefore hjOwn hOwn
    omega
  rcases hLast with hEarlier | rfl
  · exact hVisited j hj hEarlier hjOwn
  · exact hFlag

/-- What a step does: it keeps its thread's state and takes nothing back; who gets
the flag of a seed works on it, and stops only when the stage is done for it. -/
structure LateStepInv (fuel : ℕ) (large : Bool) (stage : ℕ) (inputs : OutputBuffer) (n : ℕ)
    (d m m' : Device F) (t : ℕ) (pc pc' : LatePc F) : Prop where
  mem : LateMemory fuel large stage d m'
  own : LateProgress fuel large stage inputs n d m' t pc'
  later : Later fuel large stage m m'
  wins : ∀ s, m'.initFlags s = stage → m.initFlags s = stage ∨ pc'.WorksOn s
  works : ∀ s, pc.WorksOn s → pc'.WorksOn s ∨ StageDone fuel large stage m' s

/-- A step which leaves the memory. -/
theorem LateStepInv.quiet {pc pc' : LatePc F} (hMem : LateMemory fuel large stage d m)
    (hOwn : LateProgress fuel large stage inputs n d m t pc')
    (hWorks : ∀ s, pc.WorksOn s → pc'.WorksOn s ∨ StageDone fuel large stage m s) :
    LateStepInv fuel large stage inputs n d m m t pc pc' :=
  ⟨hMem, hOwn, .refl m, fun _ hFlag => .inl hFlag, hWorks⟩

section Flags

variable (hBound : n + lateThreads ≤ 2 ^ 32)
  (hFlags : ∀ i < n, d.initFlags (inputSeed inputs d i) = stage - 1)

include hBound in
theorem next_eq {i : ℕ} (hi : i < n) : (i + lateThreads) % 2 ^ 32 = i + lateThreads :=
  Nat.mod_eq_of_lt (by omega)

include hBound hFlags in
/-- `atomicCAS`: whatever it returns, the flag of the seed is set afterwards. -/
theorem cas_inv {i seedIndex : ℕ} {pc' : LatePc F} (hMem : LateMemory fuel large stage d m)
    (hProgress : LateProgress fuel large stage inputs n d m t (.cas i seedIndex))
    (hStep : lateStep fuel large stage inputs n (.cas i seedIndex) m = some (pc', m')) :
    LateStepInv fuel large stage inputs n d m m' t (.cas i seedIndex) pc' := by
  obtain ⟨hInput, hVisited⟩ := hProgress
  simp only [lateStep] at hStep
  split at hStep
  · next hFree =>
      cases hStep
      have hOld : d.initFlags seedIndex = stage - 1 := by
        rw [hInput.seed_eq]
        exact hFlags i hInput.lt
      have hLater : Later fuel large stage m
          { m with initFlags := Function.update m.initFlags seedIndex stage } := by
        refine ⟨fun s hFlag => ?_, fun _ _ _ hWord => hWord⟩
        by_cases hSame : s = seedIndex
        · subst hSame
          exact Function.update_self ..
        · exact (Function.update_of_ne hSame _ _).trans hFlag
      refine ⟨⟨?_, fun s => ?_, hMem.words⟩, ⟨hInput, ?_⟩, hLater, fun s hFlag => ?_,
        fun _ hWorks => hWorks.elim⟩
      · rw [hMem.frame]
      · by_cases hSame : s = seedIndex
        · subst hSame
          exact .inr ⟨hOld, Function.update_self ..⟩
        · simp only [Function.update_of_ne hSame]
          exact hMem.flags s
      · apply (hVisited.mono hLater).next hInput.own
        rw [← hInput.seed_eq]
        exact Function.update_self ..
      · by_cases hSame : s = seedIndex
        · exact .inr hSame.symm
        · simp only [Function.update_of_ne hSame] at hFlag
          exact .inl hFlag
  · next hTaken =>
      cases hStep
      refine .quiet hMem ?_ fun _ hWorks => hWorks.elim
      rw [next_eq hBound hInput.lt]
      refine ⟨by rw [Nat.add_mod_right]; exact hInput.own, hVisited.next hInput.own ?_⟩
      have hOld := hFlags i hInput.lt
      rw [← hInput.seed_eq] at hOld ⊢
      rcases hMem.flags seedIndex with hSame | ⟨-, hSet⟩
      · exact absurd (hSame.trans hOld) hTaken
      · exact hSet

include hBound hFlags in
theorem late_step_inv {pc pc' : LatePc F} (hMem : LateMemory fuel large stage d m)
    (hProgress : LateProgress fuel large stage inputs n d m t pc)
    (hStep : lateStep fuel large stage inputs n pc m = some (pc', m')) :
    LateStepInv fuel large stage inputs n d m m' t pc pc' := by
  cases pc with
  | loop i =>
      simp only [lateStep, Option.ite_none_right_eq_some] at hStep
      obtain ⟨hLt, hNext⟩ := hStep
      cases hNext
      refine .quiet hMem ⟨⟨hLt, hProgress.1, ?_⟩, hProgress.2⟩ fun _ hWorks => hWorks.elim
      rw [inputSeed, hMem.frame]
  | cas i seedIndex => exact cas_inv hBound hFlags hMem hProgress hStep
  | load i seedIndex =>
      cases hStep
      refine .quiet hMem ⟨[], ⟨hProgress.1, hProgress.2, ?_, rfl, fun _ hNone =>
        absurd hNone List.not_mem_nil⟩⟩ fun _ hWorks => .inl hWorks
      rw [hMem.frame]
  | init i seedIndex seed calls =>
      obtain ⟨finished, hInit⟩ := hProgress
      cases calls with
      | nil =>
          cases hStep
          have hDone : StageDone fuel large stage m seedIndex := by
            intro call hCall
            rw [hInit.split, List.append_nil] at hCall
            exact hInit.words call hCall
          refine .quiet hMem ?_ fun s hWorks => .inr (hWorks ▸ hDone)
          rw [next_eq hBound hInit.lt]
          exact ⟨by rw [Nat.add_mod_right]; exact hInit.own, hInit.visited⟩
      | cons call rest =>
          obtain ⟨noise, hNoise, hNext⟩ := Option.map_eq_some_iff.mp hStep
          cases hNext
          have hCall : call ∈ lateCalls stage := by
            rw [hInit.split]
            exact List.mem_append_right _ (List.mem_cons_self ..)
          rw [InitCall.noise_eq fuel large seed (lateCalls_own stage call hCall),
            hInit.value_eq] at hNoise
          exact .quiet hMem ⟨finished, hInit, hNoise, by decide, fun w hw => absurd hw (Nat.not_lt_zero w)⟩
            fun _ hWorks => .inl hWorks
  | copy i seedIndex seed call rest noise word =>
      obtain ⟨finished, hInit, hNoise, hWord, hCopied⟩ := hProgress
      have hSeeds : m.seeds = d.seeds := by rw [hMem.frame]
      have hRight := hNoise
      rw [← hSeeds] at hRight
      have hLater : Later fuel large stage m (m.copyWord seedIndex call.member word noise) :=
        ⟨fun _ hFlag => hFlag, fun _ _ _ hHeld => Device.holdsWord_copyWord hRight (.inl hHeld)⟩
      have hBelow : ∀ w < word + 1,
          (m.copyWord seedIndex call.member word noise).HoldsWord fuel large seedIndex call.member w := by
        intro w hw
        rcases Nat.lt_succ_iff_lt_or_eq.mp hw with hBefore | rfl
        · exact hLater.words _ _ _ (hCopied w hBefore)
        · exact Device.holdsWord_copyWord hRight (.inr ⟨rfl, rfl, rfl⟩)
      have hMem' : LateMemory fuel large stage d (m.copyWord seedIndex call.member word noise) := by
        refine ⟨?_, hMem.flags, fun _ _ _ hHeld => hLater.words _ _ _ (hMem.words _ _ _ hHeld)⟩
        simp only [Device.copyWord]
        rw [hMem.frame]
      cases hStep
      refine ⟨hMem', ?_, hLater, fun _ hFlag => .inl hFlag, fun s hWorks => .inl ?_⟩
      · split
        · next hMore => exact ⟨finished, hInit.mono hLater, hNoise, hMore, hBelow⟩
        · next hLast =>
            refine ⟨finished ++ [call], (hInit.mono hLater).toAtInput, (hInit.mono hLater).visited,
              hInit.value_eq, by rw [List.append_assoc]; exact hInit.split, fun done hDone w hw => ?_⟩
            rcases List.mem_append.mp hDone with hBefore | hHere
            · exact (hInit.mono hLater).words done hBefore w hw
            · obtain rfl := List.mem_singleton.mp hHere
              exact hBelow w (by omega)
      · split <;> exact hWorks

end Flags

end Steps

section Run

variable {fuel : ℕ} {large : Bool} {stage : ℕ} {inputs : OutputBuffer} {n : ℕ} {d : Device F}
  {schedule : List ℕ} {pool : Pool (Device F) (LatePc F) ℕ}

/-- The kernel between two steps: a seed whose flag was set has its octaves, or a
thread works on them. -/
structure LateInv (fuel : ℕ) (large : Bool) (stage : ℕ) (inputs : OutputBuffer) (n : ℕ)
    (d : Device F) (pool : Pool (Device F) (LatePc F) ℕ) : Prop where
  mem : LateMemory fuel large stage d pool.mem
  locals : ∀ t < lateThreads, LateProgress fuel large stage inputs n d pool.mem t (pool.locals t)
  working : ∀ s, d.initFlags s = stage - 1 → pool.mem.initFlags s = stage →
    StageDone fuel large stage pool.mem s ∨ ∃ t < lateThreads, (pool.locals t).WorksOn s

theorem lateInv_start (hStage : 0 < stage) :
    LateInv fuel large stage inputs n d ((lateKernel fuel large stage inputs n).start d) := by
  refine ⟨⟨rfl, fun _ => .inl rfl, fun _ _ _ hWord => hWord⟩, fun t ht => ⟨Nat.mod_eq_of_lt ht, ?_⟩,
    fun s hOld hFlag => ?_⟩
  · intro j _ hBefore hOwn
    have hSmall := Nat.mod_eq_of_lt (hBefore.trans ht)
    omega
  · change d.initFlags s = stage at hFlag
    omega

theorem LateInv.advance (hBound : n + lateThreads ≤ 2 ^ 32)
    (hFlags : ∀ i < n, d.initFlags (inputSeed inputs d i) = stage - 1) {t : ℕ}
    {pool' : Pool (Device F) (LatePc F) ℕ} (hInv : LateInv fuel large stage inputs n d pool)
    (hAdvance : (lateKernel fuel large stage inputs n).advance pool t = some pool') :
    LateInv fuel large stage inputs n d pool' := by
  obtain ⟨hThread, next, mem, hStep, rfl⟩ := advance_eq_some.mp hAdvance
  have hThread : t < lateThreads := hThread
  have hNext := late_step_inv hBound hFlags hInv.mem (hInv.locals t hThread) hStep
  refine ⟨hNext.mem, fun u hu => ?_, fun s hOld hFlag => ?_⟩
  · by_cases hSame : u = t
    · subst hSame
      simpa using hNext.own
    · simpa [Function.update_of_ne hSame] using (hInv.locals u hu).mono hNext.later
  · rcases hNext.wins s hFlag with hBefore | hHere
    · rcases hInv.working s hOld hBefore with hDone | ⟨u, hu, hWorks⟩
      · exact .inl fun call hCall word hWord => hNext.later.words _ _ _ (hDone call hCall word hWord)
      · by_cases hSame : u = t
        · subst hSame
          rcases hNext.works s hWorks with hStill | hDone
          · exact .inr ⟨u, hu, by simpa using hStill⟩
          · exact .inl hDone
        · exact .inr ⟨u, hu, by simpa [Function.update_of_ne hSame] using hWorks⟩
    · exact .inr ⟨t, hThread, by simpa using hHere⟩

theorem run_lateInv (hStage : 0 < stage) (hBound : n + lateThreads ≤ 2 ^ 32)
    (hFlags : ∀ i < n, d.initFlags (inputSeed inputs d i) = stage - 1)
    (hRun : (lateKernel fuel large stage inputs n).run
      ((lateKernel fuel large stage inputs n).start d) schedule = some pool) :
    LateInv fuel large stage inputs n d pool :=
  Interleaving.run_invariant (LateInv fuel large stage inputs n d)
    (fun _ _ _ hInv hAdvance => hInv.advance hBound hFlags hAdvance) (lateInv_start hStage) hRun

/-- After the kernel the seeds of all inputs have the flag and the octaves of the
stage, and no octave was spoilt. -/
theorem lateKernel_completes {d' : Device F} (hStage : 0 < stage) (hBound : n + lateThreads ≤ 2 ^ 32)
    (hFlags : ∀ i < n, d.initFlags (inputSeed inputs d i) = stage - 1)
    (hCompletes : (lateKernel fuel large stage inputs n).Completes d d') :
    LateMemory fuel large stage d d' ∧ ∀ i < n,
      d'.initFlags (inputSeed inputs d i) = stage ∧
      ∀ call ∈ lateCalls stage, d'.HoldsOctave fuel large (inputSeed inputs d i) call.member := by
  obtain ⟨schedule, pool, hRun, hFinished, rfl⟩ := hCompletes
  have hInv := run_lateInv hStage hBound hFlags hRun
  have hLoop : ∀ t < lateThreads, ∃ i, pool.locals t = .loop i ∧ n ≤ i := by
    intro t ht
    have hHalted := hFinished t ht
    cases hLocal : pool.locals t with
    | loop i => exact ⟨i, rfl, by simpa [lateKernel, lateHalted, hLocal] using hHalted⟩
    | cas | load | init | copy => simp [lateKernel, lateHalted, hLocal] at hHalted
  refine ⟨hInv.mem, fun i hi => ?_⟩
  have hOwner : i % lateThreads < lateThreads := Nat.mod_lt _ (by decide)
  obtain ⟨last, hLocal, hEnd⟩ := hLoop _ hOwner
  have hProgress := hInv.locals _ hOwner
  rw [hLocal] at hProgress
  have hFlag := hProgress.2 i hi (hi.trans_le hEnd) rfl
  refine ⟨hFlag, fun call hCall => Device.holdsOctave_of_words ?_⟩
  rcases hInv.working _ (hFlags i hi) hFlag with hDone | ⟨t, ht, hWorks⟩
  · exact hDone call hCall
  · obtain ⟨j, hAt, -⟩ := hLoop t ht
    rw [hAt] at hWorks
    exact hWorks.elim

/-- A step sets one flag and logs its seed, or does neither. -/
theorem lateStep_flags {pc pc' : LatePc F} {m m' : Device F}
    (hStep : lateStep fuel large stage inputs n pc m = some (pc', m')) :
    (∃ s, m.initFlags s = stage - 1 ∧ lateObserve stage pc m = [s] ∧
        m'.initFlags = Function.update m.initFlags s stage) ∨
      lateObserve stage pc m = [] ∧ m'.initFlags = m.initFlags := by
  cases pc with
  | loop i =>
      simp only [lateStep, Option.ite_none_right_eq_some] at hStep
      obtain ⟨-, hNext⟩ := hStep
      cases hNext
      exact .inr ⟨rfl, rfl⟩
  | cas i s =>
      simp only [lateStep] at hStep
      split at hStep
      · next hFree =>
          cases hStep
          exact .inl ⟨s, hFree, if_pos hFree, rfl⟩
      · next hTaken =>
          cases hStep
          exact .inr ⟨if_neg hTaken, rfl⟩
  | load i s =>
      cases hStep
      exact .inr ⟨rfl, rfl⟩
  | init i s seed calls =>
      cases calls with
      | nil =>
          cases hStep
          exact .inr ⟨rfl, rfl⟩
      | cons call rest =>
          obtain ⟨noise, -, hNext⟩ := Option.map_eq_some_iff.mp hStep
          cases hNext
          exact .inr ⟨rfl, rfl⟩
  | copy i s seed call rest noise word =>
      cases hStep
      exact .inr ⟨rfl, rfl⟩

/-- A seed is in the log at most once, and not before its flag is set. -/
def LoggedOnce (stage seedIndex : ℕ) (pool : Pool (Device F) (LatePc F) ℕ) : Prop :=
  (pool.mem.initFlags seedIndex = stage - 1 → pool.log.count seedIndex = 0) ∧
    pool.log.count seedIndex ≤ 1

theorem LoggedOnce.advance (hStage : 0 < stage) {seedIndex t : ℕ}
    {pool' : Pool (Device F) (LatePc F) ℕ} (hInv : LoggedOnce stage seedIndex pool)
    (hAdvance : (lateKernel fuel large stage inputs n).advance pool t = some pool') :
    LoggedOnce stage seedIndex pool' := by
  obtain ⟨-, next, mem, hStep, rfl⟩ := advance_eq_some.mp hAdvance
  have hObserve : (lateKernel fuel large stage inputs n).observe t (pool.locals t) pool.mem =
      lateObserve stage (pool.locals t) pool.mem := rfl
  rw [hObserve]
  rcases lateStep_flags hStep with ⟨s, hFree, hLog, hFlags⟩ | ⟨hLog, hFlags⟩
  · rw [hLog]
    by_cases hSame : s = seedIndex
    · subst hSame
      have hNew : (pool.log ++ [s]).count s = 1 := by
        rw [List.count_append, hInv.1 hFree, List.count_singleton_self]
      refine ⟨fun hFlag => ?_, hNew.le⟩
      change mem.initFlags s = stage - 1 at hFlag
      rw [hFlags, Function.update_self] at hFlag
      omega
    · have hNone : [s].count seedIndex = 0 := List.count_eq_zero_of_not_mem (by simpa using Ne.symm hSame)
      have hOld : (pool.log ++ [s]).count seedIndex = pool.log.count seedIndex := by
        rw [List.count_append, hNone, Nat.add_zero]
      refine ⟨fun hFlag => ?_, hOld.trans_le hInv.2⟩
      change mem.initFlags seedIndex = stage - 1 at hFlag
      rw [hFlags, Function.update_of_ne (Ne.symm hSame)] at hFlag
      exact hOld.trans (hInv.1 hFlag)
  · rw [hLog, List.append_nil]
    refine ⟨fun hFlag => hInv.1 ?_, hInv.2⟩
    rw [← hFlags]
    exact hFlag

/-- Every seed is initialised at most once, whatever the inputs are: its flag never
returns to the stage before. -/
theorem count_late_log_le_one (hStage : 0 < stage) (seedIndex : ℕ)
    (hRun : (lateKernel fuel large stage inputs n).run
      ((lateKernel fuel large stage inputs n).start d) schedule = some pool) :
    pool.log.count seedIndex ≤ 1 := by
  have hStart : LoggedOnce stage seedIndex ((lateKernel fuel large stage inputs n).start d) :=
    ⟨fun _ => List.count_nil, Nat.zero_le 1⟩
  exact (Interleaving.run_invariant (LoggedOnce stage seedIndex)
    (fun _ _ _ hInv hAdvance => hInv.advance hStage hAdvance) hStart hRun).2

/-- A seed whose flag has changed is in the log. -/
theorem mem_late_log {s : ℕ} (hRun : (lateKernel fuel large stage inputs n).run
    ((lateKernel fuel large stage inputs n).start d) schedule = some pool)
    (hFlag : pool.mem.initFlags s ≠ d.initFlags s) : s ∈ pool.log := by
  refine (Interleaving.run_invariant
    (fun pool : Pool (Device F) (LatePc F) ℕ => pool.mem.initFlags s ≠ d.initFlags s → s ∈ pool.log)
    (fun pool t pool' hInv hAdvance => ?_) (fun hChanged => absurd rfl hChanged) hRun) hFlag
  obtain ⟨-, next, mem, hStep, rfl⟩ := advance_eq_some.mp hAdvance
  intro hChanged
  have hObserve : (lateKernel fuel large stage inputs n).observe t (pool.locals t) pool.mem =
      lateObserve stage (pool.locals t) pool.mem := rfl
  rw [hObserve]
  rcases lateStep_flags hStep with ⟨seedIndex, -, hLog, hFlags⟩ | ⟨hLog, hFlags⟩
  · by_cases hSame : s = seedIndex
    · rw [hLog, hSame]
      exact List.mem_append_right _ (List.mem_singleton_self _)
    · change mem.initFlags s ≠ _ at hChanged
      rw [hFlags, Function.update_of_ne hSame] at hChanged
      exact List.mem_append_left _ (hInv hChanged)
  · change mem.initFlags s ≠ _ at hChanged
    rw [hFlags] at hChanged
    exact List.mem_append_left _ (hInv hChanged)

end Run

end KernelSeed1

end Commission
