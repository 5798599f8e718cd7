import Commission.Gpu.LateInit

/-! The seed kernels do not get stuck: the barriers of `KernelSeed1::kernel` let
every block go on, and both kernels come to their end. -/
namespace Commission

open ThreadPool

variable {F : Type} [Arith F]

namespace KernelSeed1

section Barriers

/-- The steps of a thread in a call, at most. -/
def Phase.stepsLeft : Phase → ℕ
  | init => totalU4 + 6
  | filled => totalU4 + 5
  | waitFilled => totalU4 + 4
  | copy i => totalU4 - i + 3
  | copied => 2
  | waitCopied => 1

/-- The steps of a thread to its end, at most. -/
def Pc.stepsLeft : Pc → ℕ
  | entry => (kernelCalls.length + 1) * (totalU4 + 7) + 2
  | load => (kernelCalls.length + 1) * (totalU4 + 7) + 1
  | run _ calls phase => calls.length * (totalU4 + 7) + phase.stepsLeft
  | done => 0

/-- The thread stands at a barrier. -/
def Pc.Waits : Pc → Prop
  | run _ (_ :: _) .waitFilled | run _ (_ :: _) .waitCopied => True
  | _ => False

/-- A thread has left at once because its block has no inputs, or after all calls. -/
def Leaves (n : ℕ) (m : Memory F) (t : ℕ) : Pc → Prop
  | .entry => True
  | .load => blockBase t < n
  | .run _ calls phase => blockBase t < n ∧ (calls = [] → phase = .init)
  | .done => n ≤ blockBase t ∨ m.arrived t = 2 * kernelCalls.length

variable {fuel : ℕ} {large : Bool} {d : Device F} {n t : ℕ} {m m' : Memory F} {pc pc' : Pc}

omit [Arith F] in
theorem arrivals_le (phase : Phase) : phase.arrivals ≤ 2 := by
  cases phase with
  | init | filled | waitFilled | copy | copied | waitCopied => simp [Phase.arrivals]

theorem stepsLeft_initOctave {seed : BitVec 64} {call : InitCall} {rest : List InitCall}
    {phase : Phase}
    (hStep : initOctave fuel large n t seed call rest phase m = some (pc', m')) :
    pc'.stepsLeft < (Pc.run seed (call :: rest) phase).stepsLeft := by
  have hRest : (rest.length + 1) * (totalU4 + 7) = rest.length * (totalU4 + 7) + (totalU4 + 7) :=
    Nat.succ_mul ..
  cases phase with
  | init =>
      simp only [initOctave] at hStep
      split at hStep
      · obtain ⟨noise, -, hNext⟩ := Option.map_eq_some_iff.mp hStep
        cases hNext
        simp [Pc.stepsLeft, Phase.stepsLeft]
      · cases hStep
        simp [Pc.stepsLeft, Phase.stepsLeft]
  | filled =>
      cases hStep
      simp [Pc.stepsLeft, Phase.stepsLeft]
  | waitFilled =>
      obtain ⟨-, hNext⟩ := Option.ite_none_right_eq_some.mp hStep
      cases hNext
      simp only [Pc.stepsLeft, Phase.stepsLeft]
      omega
  | copy i =>
      simp only [initOctave] at hStep
      split at hStep
      · cases hStep
        simp only [Pc.stepsLeft, Phase.stepsLeft, threadsPerBlock]
        omega
      · cases hStep
        simp only [Pc.stepsLeft, Phase.stepsLeft]
        omega
  | copied =>
      cases hStep
      simp [Pc.stepsLeft, Phase.stepsLeft]
  | waitCopied =>
      obtain ⟨-, hNext⟩ := Option.ite_none_right_eq_some.mp hStep
      cases hNext
      simp only [Pc.stepsLeft, Phase.stepsLeft, List.length_cons]
      omega

/-- Every step brings its thread nearer to its end. -/
theorem stepsLeft_step (hStep : step fuel large n t pc m = some (pc', m')) :
    pc'.stepsLeft < pc.stepsLeft := by
  cases pc with
  | entry =>
      simp only [step] at hStep
      split at hStep
      · cases hStep
        exact Nat.succ_pos _
      · cases hStep
        exact Nat.lt_succ_self _
  | load =>
      cases hStep
      simp only [Pc.stepsLeft, Phase.stepsLeft, Nat.succ_mul]
      omega
  | run seed calls phase =>
      cases calls with
      | nil =>
          cases hStep
          cases phase with
          | init | filled | waitFilled | copy | copied | waitCopied =>
              simp [Pc.stepsLeft, Phase.stepsLeft]
      | cons call rest => exact stepsLeft_initOctave hStep
  | done => cases hStep

theorem leaves_initOctave {seed : BitVec 64} {call : InitCall} {rest : List InitCall}
    {phase : Phase} (hBlock : blockBase t < n)
    (hStep : initOctave fuel large n t seed call rest phase m = some (pc', m')) :
    Leaves n m' t pc' := by
  cases phase with
  | init =>
      simp only [initOctave] at hStep
      split at hStep
      · obtain ⟨noise, -, hNext⟩ := Option.map_eq_some_iff.mp hStep
        cases hNext
        exact ⟨hBlock, by simp⟩
      · cases hStep
        exact ⟨hBlock, by simp⟩
  | filled | copied =>
      cases hStep
      exact ⟨hBlock, by simp⟩
  | waitFilled =>
      obtain ⟨-, hNext⟩ := Option.ite_none_right_eq_some.mp hStep
      cases hNext
      exact ⟨hBlock, by simp⟩
  | copy i =>
      simp only [initOctave] at hStep
      split at hStep
      · cases hStep
        exact ⟨hBlock, by simp⟩
      · cases hStep
        exact ⟨hBlock, by simp⟩
  | waitCopied =>
      obtain ⟨-, hNext⟩ := Option.ite_none_right_eq_some.mp hStep
      cases hNext
      exact ⟨hBlock, fun _ => rfl⟩

theorem leaves_step (hProgress : Progress fuel large d n m t pc) (hLeaves : Leaves n m t pc)
    (hStep : step fuel large n t pc m = some (pc', m')) : Leaves n m' t pc' := by
  cases pc with
  | entry =>
      simp only [step] at hStep
      split at hStep
      · next hEmpty =>
          cases hStep
          exact .inl hEmpty
      · next hInputs =>
          cases hStep
          exact not_le.mp hInputs
  | load =>
      cases hStep
      exact ⟨hLeaves, fun _ => rfl⟩
  | run seed calls phase =>
      cases calls with
      | nil =>
          cases hStep
          obtain ⟨finished, hInv⟩ := hProgress
          right
          rw [hInv.split, List.append_nil, hInv.arrived, hLeaves.2 rfl]
          rfl
      | cons call rest => exact leaves_initOctave hLeaves.1 hStep
  | done => cases hStep

omit [Arith F] in
theorem copyNoise_arrived (member : Member) (i : ℕ) (m : Memory F) :
    (copyNoise n t member i m).arrived = m.arrived := by
  rw [copyNoise]
  split
  · rfl
  · rfl

theorem arrived_initOctave {u : ℕ} (hOther : u ≠ t) {seed : BitVec 64} {call : InitCall}
    {rest : List InitCall} {phase : Phase}
    (hStep : initOctave fuel large n t seed call rest phase m = some (pc', m')) :
    m'.arrived u = m.arrived u := by
  cases phase with
  | init =>
      simp only [initOctave] at hStep
      split at hStep
      · obtain ⟨noise, -, hNext⟩ := Option.map_eq_some_iff.mp hStep
        cases hNext
        rfl
      · cases hStep
        rfl
  | filled | copied =>
      cases hStep
      exact Memory.arrive_arrived_of_ne m hOther
  | waitFilled | waitCopied =>
      obtain ⟨-, hNext⟩ := Option.ite_none_right_eq_some.mp hStep
      cases hNext
      rfl
  | copy i =>
      simp only [initOctave] at hStep
      split at hStep
      · cases hStep
        rw [copyNoise_arrived]
      · cases hStep
        rfl

/-- A step counts for no arrivals but those of its own thread. -/
theorem arrived_step {u : ℕ} (hOther : u ≠ t) (hStep : step fuel large n t pc m = some (pc', m')) :
    m'.arrived u = m.arrived u := by
  cases pc with
  | entry =>
      simp only [step] at hStep
      split at hStep
      · cases hStep
        rfl
      · cases hStep
        rfl
  | load =>
      cases hStep
      rfl
  | run seed calls phase =>
      cases calls with
      | nil =>
          cases hStep
          rfl
      | cons call rest => exact arrived_initOctave hOther hStep
  | done => cases hStep

theorem Leaves.other {u : ℕ} (hOther : u ≠ t) (hStep : step fuel large n t pc m = some (pc', m'))
    {other : Pc} (hLeaves : Leaves n m u other) : Leaves n m' u other := by
  cases other with
  | entry | load | run => exact hLeaves
  | done => exact hLeaves.imp_right (arrived_step hOther hStep).trans

/-- A thread which has not ended can make a step, or it stands at a barrier. -/
theorem step_or_waits (hNoise : ∀ s < n, ∀ call ∈ kernelCalls,
      (call.noise (F := F) fuel large (d.seeds s).value).isSome)
    (hProgress : Progress fuel large d n m t pc) (hRuns : halted pc = false) :
    (∃ next, step fuel large n t pc m = some next) ∨ pc.Waits := by
  cases pc with
  | entry =>
      left
      simp only [step]
      split
      · exact ⟨_, rfl⟩
      · exact ⟨_, rfl⟩
  | load => exact .inl ⟨_, rfl⟩
  | run seed calls phase =>
      obtain ⟨finished, hInv⟩ := hProgress
      cases calls with
      | nil => exact .inl ⟨_, rfl⟩
      | cons call rest =>
          cases phase with
          | init =>
              left
              simp only [step, initOctave]
              split
              · next hActive =>
                  have hCall : call ∈ kernelCalls := by
                    rw [hInv.split]
                    exact List.mem_append_right _ (List.mem_cons_self ..)
                  have hSome := hNoise t hActive call hCall
                  rw [← hInv.seed_eq hActive] at hSome
                  obtain ⟨noise, hNoise⟩ := Option.isSome_iff_exists.mp hSome
                  rw [hNoise]
                  exact ⟨_, rfl⟩
              · exact ⟨_, rfl⟩
          | filled | copied => exact .inl ⟨_, rfl⟩
          | waitFilled | waitCopied => exact .inr trivial
          | copy i =>
              left
              simp only [step, initOctave]
              split
              · exact ⟨_, rfl⟩
              · exact ⟨_, rfl⟩
  | done => cases hRuns

/-- When its block has arrived, a thread passes the barrier. -/
theorem step_of_allArrived (hWaits : pc.Waits) (hAll : m.allArrived t = true) :
    ∃ next, step fuel large n t pc m = some next := by
  cases pc with
  | entry | load | done => exact hWaits.elim
  | run seed calls phase =>
      cases calls with
      | nil => exact hWaits.elim
      | cons call rest =>
          cases phase with
          | waitFilled | waitCopied =>
              simp only [step, initOctave, if_pos hAll]
              exact ⟨_, rfl⟩
          | init | filled | copy | copied => exact hWaits.elim

omit [Arith F] in
theorem allArrived_of_le
    (hLe : ∀ v, blockBase v = blockBase t → m.arrived t ≤ m.arrived v) : m.allArrived t = true := by
  refine List.all_eq_true.mpr fun place hPlace => decide_eq_true ?_
  exact hLe _ (blockBase_add (List.mem_range.mp hPlace))

omit [Arith F] in
/-- In every block some thread has the fewest arrivals. -/
theorem exists_fewest (m : Memory F) (t : ℕ) :
    ∃ u, blockBase u = blockBase t ∧ ∀ v, blockBase v = blockBase t → m.arrived u ≤ m.arrived v := by
  obtain ⟨place, hPlace, hLeast⟩ := Finset.exists_min_image (Finset.range threadsPerBlock)
    (fun place => m.arrived (blockBase t + place)) ⟨0, Finset.mem_range.mpr (by decide)⟩
  refine ⟨blockBase t + place, blockBase_add (Finset.mem_range.mp hPlace), fun v hBlock => ?_⟩
  have hLe := hLeast (v % threadsPerBlock) (Finset.mem_range.mpr (Nat.mod_lt v (by decide)))
  rwa [← hBlock, mod_of_blockBase, hBlock] at hLe

/-- A thread at a barrier has not arrived more often than one which has ended. -/
theorem arrived_le_of_waits (hProgress : Progress fuel large d n m t pc) (hWaits : pc.Waits) :
    m.arrived t ≤ 2 * kernelCalls.length := by
  cases pc with
  | entry | load | done => exact hWaits.elim
  | run seed calls phase =>
      obtain ⟨finished, hInv⟩ := hProgress
      cases calls with
      | nil => exact hWaits.elim
      | cons call rest =>
          have hLength := congrArg List.length hInv.split
          have hPhase := arrivals_le phase
          rw [List.length_append, List.length_cons] at hLength
          rw [hInv.arrived]
          omega

omit [Arith F] in
theorem blockBase_lt_of_waits (hLeaves : Leaves n m t pc) (hWaits : pc.Waits) : blockBase t < n := by
  cases pc with
  | entry | load | done => exact hWaits.elim
  | run => exact hLeaves.1

/-- As long as some thread has not ended, a thread can make a step: of a block which
waits, the one with the fewest arrivals is let through. -/
theorem exists_step (hNoise : ∀ s < n, ∀ call ∈ kernelCalls,
      (call.noise (F := F) fuel large (d.seeds s).value).isSome)
    {locals : ℕ → Pc} (hThreads : ∀ t < gridDim * threadsPerBlock,
      Progress fuel large d n m t (locals t) ∧ Leaves n m t (locals t))
    (hThread : t < gridDim * threadsPerBlock) (hRuns : halted (locals t) = false) :
    ∃ u < gridDim * threadsPerBlock, ∃ next, step fuel large n u (locals u) m = some next := by
  obtain ⟨hProgress, hLeaves⟩ := hThreads t hThread
  rcases step_or_waits hNoise hProgress hRuns with hStep | hWaits
  · exact ⟨t, hThread, hStep⟩
  obtain ⟨u, hBlock, hFewest⟩ := exists_fewest m t
  have hGrid : u < gridDim * threadsPerBlock := by
    simp only [blockBase, gridDim, threadsPerRun, threadsPerBlock] at hBlock hThread ⊢
    omega
  obtain ⟨hProgress', hLeaves'⟩ := hThreads u hGrid
  have hAll : m.allArrived u = true :=
    allArrived_of_le fun v hMates => hFewest v (hMates.trans hBlock)
  by_cases hEnded : halted (locals u) = true
  · have hDone : locals u = .done := by
      cases hLocal : locals u with
      | done => rfl
      | entry | load | run => simp [halted, hLocal] at hEnded
    rw [hDone] at hLeaves'
    rcases hLeaves' with hEmpty | hMost
    · rw [hBlock] at hEmpty
      exact absurd (blockBase_lt_of_waits hLeaves hWaits) (not_lt.mpr hEmpty)
    · have hLast := arrived_le_of_waits hProgress hWaits
      rw [← hMost] at hLast
      exact ⟨t, hThread, step_of_allArrived hWaits
        (allArrived_of_le fun v hMates => hLast.trans (hFewest v hMates))⟩
  · rcases step_or_waits hNoise hProgress' (Bool.not_eq_true _ ▸ hEnded) with hStep | hWaits'
    · exact ⟨u, hGrid, hStep⟩
    · exact ⟨u, hGrid, step_of_allArrived hWaits' hAll⟩

end Barriers

section Run

variable {fuel : ℕ} {large : Bool} {d : Device F} {n : ℕ}

/-- What holds between two steps of the kernel. -/
def KernelInv (fuel : ℕ) (large : Bool) (d : Device F) (n : ℕ) (pool : Pool (Memory F) Pc Unit) :
    Prop :=
  MemoryInv fuel large d n pool.mem ∧ ∀ t < gridDim * threadsPerBlock,
    Progress fuel large d n pool.mem t (pool.locals t) ∧ Leaves n pool.mem t (pool.locals t)

theorem KernelInv.advance {pool pool' : Pool (Memory F) Pc Unit} {t : ℕ}
    (hInv : KernelInv fuel large d n pool)
    (hAdvance : (kernel fuel large n).advance pool t = some pool') :
    KernelInv fuel large d n pool' := by
  refine advance_local_invariant (P := kernel fuel large n) (I := MemoryInv fuel large d n)
    (J := fun m t pc => Progress fuel large d n m t pc ∧ Leaves n m t pc) ?_ hInv hAdvance
  intro t pc m pc' m' _ hMem hThread hStep
  obtain ⟨hMem', hOwn, hOthers⟩ := step_inv hMem hThread.1 hStep
  refine ⟨hMem', ⟨hOwn, leaves_step hThread.1 hThread.2 hStep⟩, fun u other hOther hBoth => ?_⟩
  exact ⟨hOthers u other hOther hBoth.1, hBoth.2.other hOther hStep⟩

theorem kernelInv_start (shared : ℕ → ImprovedNoise F) :
    KernelInv fuel large d n ((kernel fuel large n).start (launchMemory d shared)) :=
  have hRun : (kernel fuel large n).run ((kernel fuel large n).start (launchMemory d shared)) [] =
      some ((kernel fuel large n).start (launchMemory d shared)) := rfl
  ⟨(run_inv hRun).1, fun _ _ => ⟨rfl, trivial⟩⟩

theorem KernelInv.exists_finished {pool : Pool (Memory F) Pc Unit}
    (hNoise : ∀ s < n, ∀ call ∈ kernelCalls,
      (call.noise (F := F) fuel large (d.seeds s).value).isSome)
    (hInv : KernelInv fuel large d n pool) :
    ∃ schedule pool', (kernel fuel large n).run pool schedule = some pool' ∧
      (kernel (F := F) fuel large n).Finished pool' := by
  refine exists_run_finished (KernelInv fuel large d n) (fun _ pc => pc.stepsLeft)
    (fun _ _ _ hInv hAdvance => hInv.advance hAdvance) (fun pool hInv hRuns => ?_) pool hInv
  simp only [Program.Finished, not_forall] at hRuns
  obtain ⟨t, hThread, hRuns⟩ := hRuns
  obtain ⟨u, hu, ⟨pc, mem⟩, hStep⟩ :=
    exists_step hNoise hInv.2 hThread (Bool.eq_false_iff.mpr hRuns)
  exact ⟨u, hu, pc, mem, hStep, stepsLeft_step hStep⟩

/-- Whatever its threads have done so far, the kernel can be run to its end, with the
first octaves of all its seeds. -/
theorem kernel_runs_on (fuel : ℕ) (large : Bool) (d : Device F) (n : ℕ)
    (shared : ℕ → ImprovedNoise F) (schedule : List ℕ) (pool : Pool (Memory F) Pc Unit)
    (hNoise : ∀ s < n, ∀ call ∈ kernelCalls,
      (call.noise (F := F) fuel large (d.seeds s).value).isSome)
    (hRun : (kernel fuel large n).run ((kernel fuel large n).start (launchMemory d shared)) schedule =
      some pool) :
    ∃ rest pool', (kernel fuel large n).run pool rest = some pool' ∧
      (kernel (F := F) fuel large n).Finished pool' ∧
      ∀ s < n, s < threadsPerRun → ∀ call ∈ kernelCalls,
        pool'.mem.device.HoldsOctave fuel large s call.member := by
  have hInv : KernelInv fuel large d n pool :=
    Interleaving.run_invariant (KernelInv fuel large d n) (fun _ _ _ hInv hAdvance => hInv.advance hAdvance)
      (kernelInv_start shared) hRun
  obtain ⟨rest, pool', hRest, hFinished⟩ := hInv.exists_finished hNoise
  have hWhole : (kernel fuel large n).run ((kernel fuel large n).start (launchMemory d shared))
      (schedule ++ rest) = some pool' := by
    rw [Program.run, Interleaving.run_append]
    exact Option.bind_eq_some_iff.mpr ⟨pool, hRun, hRest⟩
  exact ⟨rest, pool', hRest, hFinished,
    (kernel_completes d shared ⟨_, pool', hWhole, hFinished, rfl⟩).2⟩

/-- A device with one seed, in a kernel where nothing has happened. -/
def oneSeedDevice : Device ℚ where
  lens := Function.update (fun _ => 0) .filterSeeds 1
  seeds _ := ⟨0, 0⟩
  results _ _ _ := ⟨⟨fun _ => 0, 0, 0, 0⟩, 0⟩
  initFlags _ := 0
  positions _ _ := ⟨⟨0, 0, 0⟩, 0⟩
  batch := 0

theorem kernel_runs_on_one :
    ∃ schedule pool, (kernel 1 false 1).run ((kernel 1 false 1).start
        (launchMemory oneSeedDevice fun _ => ⟨fun _ => 0, 0, 0, 0⟩)) schedule = some pool ∧
      (kernel (F := ℚ) 1 false 1).Finished pool ∧
      ∀ call ∈ kernelCalls, pool.mem.device.HoldsOctave 1 false 0 call.member := by
  have hNoise : ∀ call ∈ kernelCalls, (call.noise (F := ℚ) 1 false 0).isSome := by
    decide +kernel
  obtain ⟨schedule, pool, hRun, hFinished, hOctaves⟩ := kernel_runs_on 1 false oneSeedDevice 1
    (fun _ => ⟨fun _ => 0, 0, 0, 0⟩) [] _ (fun _ _ => hNoise) rfl
  exact ⟨schedule, pool, hRun, hFinished, hOctaves 0 Nat.zero_lt_one (by decide)⟩

end Run

section Late

variable {fuel : ℕ} {large : Bool} {stage : ℕ} {inputs : OutputBuffer} {n : ℕ} {d : Device F}

/-- The steps for some calls, at most. -/
def callSteps (calls : List InitCall) : ℕ := calls.length * (u4PerStruct + 1)

/-- The steps of a thread of the late kernel to its end, at most. -/
def LatePc.stepsLeft (stage n : ℕ) : LatePc F → ℕ
  | .loop i => (n - i) * (callSteps (lateCalls stage) + 4)
  | .cas i _ => (n - (i + lateThreads)) * (callSteps (lateCalls stage) + 4) +
      callSteps (lateCalls stage) + 3
  | .load i _ => (n - (i + lateThreads)) * (callSteps (lateCalls stage) + 4) +
      callSteps (lateCalls stage) + 2
  | .init i _ _ calls =>
      (n - (i + lateThreads)) * (callSteps (lateCalls stage) + 4) + callSteps calls + 1
  | .copy i _ _ _ rest _ word => (n - (i + lateThreads)) * (callSteps (lateCalls stage) + 4) +
      callSteps rest + (u4PerStruct - word) + 1

theorem callSteps_cons (call : InitCall) (rest : List InitCall) :
    callSteps (call :: rest) = callSteps rest + (u4PerStruct + 1) :=
  Nat.succ_mul ..

theorem stepsLeft_lateStep (hBound : n + lateThreads ≤ 2 ^ 32) {m m' : Device F} {t : ℕ}
    {pc pc' : LatePc F} (hProgress : LateProgress fuel large stage inputs n d m t pc)
    (hStep : lateStep fuel large stage inputs n pc m = some (pc', m')) :
    pc'.stepsLeft stage n < pc.stepsLeft stage n := by
  cases pc with
  | loop i =>
      obtain ⟨hLoop, hNext⟩ := Option.ite_none_right_eq_some.mp hStep
      cases hNext
      have hPass : n - (i + lateThreads) + 1 ≤ n - i := by
        simp only [lateThreads, lateGridDim, threadsPerBlock]
        omega
      have hSteps := Nat.mul_le_mul_right (callSteps (lateCalls stage) + 4) hPass
      rw [Nat.succ_mul] at hSteps
      simp only [LatePc.stepsLeft]
      omega
  | cas i seedIndex =>
      simp only [lateStep] at hStep
      split at hStep
      · cases hStep
        exact Nat.lt_succ_self _
      · cases hStep
        rw [next_eq hBound hProgress.1.lt]
        simp only [LatePc.stepsLeft]
        omega
  | load i seedIndex =>
      cases hStep
      exact Nat.lt_succ_self _
  | init i seedIndex seed calls =>
      obtain ⟨finished, hInit⟩ := hProgress
      cases calls with
      | nil =>
          cases hStep
          rw [next_eq hBound hInit.lt]
          exact Nat.lt_succ_of_le (Nat.le_add_right _ _)
      | cons call rest =>
          obtain ⟨noise, -, hNext⟩ := Option.map_eq_some_iff.mp hStep
          cases hNext
          simp only [LatePc.stepsLeft, callSteps_cons]
          omega
  | copy i seedIndex seed call rest noise word =>
      obtain ⟨finished, -, -, hWord, -⟩ := hProgress
      cases hStep
      split
      · simp only [LatePc.stepsLeft]
        omega
      · simp only [LatePc.stepsLeft]
        omega

/-- A thread of the late kernel which has not ended can make a step. -/
theorem exists_lateStep (hNoise : ∀ i < n, ∀ call ∈ lateCalls stage,
      (call.noise (F := F) fuel large (d.seeds (inputSeed inputs d i)).value).isSome)
    {m : Device F} {t : ℕ} {pc : LatePc F}
    (hProgress : LateProgress fuel large stage inputs n d m t pc) (hRuns : lateHalted n pc = false) :
    ∃ next, lateStep fuel large stage inputs n pc m = some next := by
  cases pc with
  | loop i =>
      have hLoop : i < n := not_le.mp (of_decide_eq_false hRuns)
      simp only [lateStep, if_pos hLoop]
      exact ⟨_, rfl⟩
  | cas i seedIndex =>
      simp only [lateStep]
      split
      · exact ⟨_, rfl⟩
      · exact ⟨_, rfl⟩
  | load i seedIndex => exact ⟨_, rfl⟩
  | init i seedIndex seed calls =>
      obtain ⟨finished, hInit⟩ := hProgress
      cases calls with
      | nil => exact ⟨_, rfl⟩
      | cons call rest =>
          have hCall : call ∈ lateCalls stage := by
            rw [hInit.split]
            exact List.mem_append_right _ (List.mem_cons_self ..)
          have hSome := hNoise i hInit.lt call hCall
          rw [← hInit.seed_eq, ← hInit.value_eq] at hSome
          obtain ⟨noise, hNoise⟩ := Option.isSome_iff_exists.mp hSome
          simp only [lateStep, hNoise]
          exact ⟨_, rfl⟩
  | copy i seedIndex seed call rest noise word => exact ⟨_, rfl⟩

variable (fuel large) in
/-- The late kernel can be run to its end. -/
theorem exists_lateKernel_finished (hStage : 0 < stage) (hBound : n + lateThreads ≤ 2 ^ 32)
    (hFlags : ∀ i < n, d.initFlags (inputSeed inputs d i) = stage - 1)
    (hNoise : ∀ i < n, ∀ call ∈ lateCalls stage,
      (call.noise (F := F) fuel large (d.seeds (inputSeed inputs d i)).value).isSome) :
    ∃ schedule pool, (lateKernel fuel large stage inputs n).run
        ((lateKernel fuel large stage inputs n).start d) schedule = some pool ∧
      (lateKernel fuel large stage inputs n).Finished pool := by
  refine exists_run_finished (LateInv fuel large stage inputs n d)
    (fun _ pc => pc.stepsLeft stage n) (fun _ _ _ hInv hAdvance => hInv.advance hBound hFlags hAdvance)
    (fun pool hInv hRuns => ?_) _ (lateInv_start hStage)
  simp only [Program.Finished, not_forall] at hRuns
  obtain ⟨t, hThread, hRuns⟩ := hRuns
  have hProgress := hInv.locals t hThread
  obtain ⟨⟨pc, mem⟩, hStep⟩ := exists_lateStep hNoise hProgress (Bool.eq_false_iff.mpr hRuns)
  exact ⟨t, hThread, pc, mem, hStep, stepsLeft_lateStep hBound hProgress hStep⟩

end Late

end KernelSeed1

end Commission
