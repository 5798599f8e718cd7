import Commission.Gpu.TracedBatch
import Commission.Host.Report

/-! A process which finds something: one GPU thread and one CPU thread, whose test keeps
every output of the one batch. -/
namespace Commission.Host.State

section Steps

variable {cfg : Config} {s : State} {R : BitVec 64 → List GpuOutput → Prop}

/-- The CPU thread takes an output, keeps it and pushes it. -/
theorem run_keep (hCpus : 0 < cfg.cpus) (hTake : (s.cpu 0).pc = .take) {input : GpuOutput}
    {rest : List GpuOutput} (hQueue : s.gpuOutputs = input :: rest) {output : CpuOutput}
    (hKept : cfg.process input = some output) :
    run cfg s [.cpu 0, .cpu 0, .cpu 0] = some { s with
      gpuOutputs := rest
      cpuOutputs := s.cpuOutputs ++ [output]
      processed := s.processed ++ [input]
      produced := s.produced ++ [(0, output)] } := by
  have hThread : { s.cpu 0 with pc := .take } = s.cpu 0 := by
    rw [← hTake]
  simp [run, Interleaving.run, step, cpuStep, setCpu, hCpus, hTake, hQueue, hKept, hThread]

/-- And so the whole queue. -/
theorem run_keep_all (hCpus : 0 < cfg.cpus) (hKeep : ∀ input, (cfg.process input).isSome)
    (inputs : List GpuOutput) (hTake : (s.cpu 0).pc = .take) (hQueue : s.gpuOutputs = inputs) :
    run cfg s (inputs.flatMap fun _ => [.cpu 0, .cpu 0, .cpu 0]) = some { s with
      gpuOutputs := []
      cpuOutputs := s.cpuOutputs ++ inputs.filterMap cfg.process
      processed := s.processed ++ inputs
      produced := s.produced ++ (inputs.filterMap cfg.process).map fun output => (0, output) } := by
  induction inputs generalizing s with
  | nil =>
      cases s
      cases hQueue
      simp [run, Interleaving.run]
  | cons input rest ih =>
      obtain ⟨output, hKept⟩ := Option.isSome_iff_exists.mp (hKeep input)
      rw [List.flatMap_cons, run, Interleaving.run_append]
      change (run cfg s [.cpu 0, .cpu 0, .cpu 0]).bind _ = _
      rw [run_keep hCpus hTake hQueue hKept, Option.bind_some]
      refine Eq.trans (ih ?_ ?_) ?_
      · exact hTake
      · rfl
      · simp [hKept]

theorem delivers_of_other {event : Event} (hOther : ∀ i outputs, event ≠ .gpu i outputs) :
    Delivers R s event :=
  fun i outputs _ hEvent => absurd hEvent (hOther i outputs)

theorem delivers_of_idle {i : ℕ} (pc : GpuPc) (hPc : (s.gpu i).pc = pc)
    (hIdle : ∀ startSeed, pc ≠ .batch startSeed) (outputs : List GpuOutput) :
    Delivers R s (.gpu i outputs) := by
  rintro _ _ startSeed ⟨⟩ hBatch
  exact absurd (hPc.symm.trans hBatch) (hIdle startSeed)

end Steps

section Found

/-- One GPU thread and one CPU thread. -/
def pairOf (startSeed : BitVec 64) (process : GpuOutput → Option CpuOutput) : Config :=
  { pairConfig with startSeed, process }

/-- The GPU thread ends its batch with these outputs; the CPU thread keeps them all and leaves
its loop. -/
def foundRun (outputs : List GpuOutput) : List Event :=
  stopDuringBatch ++ ([.gpu 0 outputs, .gpu 0 []] ++
    ((outputs.flatMap fun _ => [.cpu 0, .cpu 0, .cpu 0]) ++ .cpu 0 :: joinAndReturn))

variable {startSeed : BitVec 64} {process : GpuOutput → Option CpuOutput}

theorem run_before (startSeed : BitVec 64) (process : GpuOutput → Option CpuOutput)
    (outputs : List GpuOutput) :
    ∃ s, run (pairOf startSeed process) (initial (pairOf startSeed process))
        (stopDuringBatch ++ [.gpu 0 outputs, .gpu 0 []]) = some s ∧
      s.cpu 0 = ⟨.take, true⟩ ∧ (s.gpu 0).pc = .exited ∧ s.main = .stopClient ∧
      s.gpuOutputs = outputs ∧ s.cpuOutputs = [] ∧ s.outputFile = [] ∧ s.claimed = [startSeed] :=
  ⟨_, rfl, rfl, rfl, rfl, rfl, rfl, rfl, rfl⟩

theorem run_after (startSeed : BitVec 64) (process : GpuOutput → Option CpuOutput) (s : State)
    (hCpu : s.cpu 0 = ⟨.take, true⟩) (hGpu : (s.gpu 0).pc = .exited)
    (hMain : s.main = .stopClient) (hQueue : s.gpuOutputs = []) :
    ∃ s', run (pairOf startSeed process) s (.cpu 0 :: joinAndReturn) = some s' ∧
      s'.main = .returned ∧ s'.gpuOutputs = [] ∧ s'.claimed = s.claimed ∧
      s'.outputFile = s.outputFile ++ s.cpuOutputs := by
  simp [run, Interleaving.run, step, cpuStep, mainStep, setCpu, drainOutputs, joinAndReturn, pairOf,
    pairConfig, hCpu, hGpu, hMain, hQueue]

theorem foundRun_returns (startSeed : BitVec 64) {process : GpuOutput → Option CpuOutput}
    (hKeep : ∀ input, (process input).isSome) (outputs : List GpuOutput) :
    ∃ s, run (pairOf startSeed process) (initial (pairOf startSeed process)) (foundRun outputs) =
        some s ∧ s.main = .returned ∧ s.gpuOutputs = [] ∧ s.claimed = [startSeed] ∧
      s.outputFile = outputs.filterMap process := by
  obtain ⟨s, hBefore, hCpu, hGpu, hMain, hQueue, hLines, hFile, hClaimed⟩ :=
    run_before startSeed process outputs
  have hTake : (s.cpu 0).pc = .take := by rw [hCpu]
  have hOne : 0 < (pairOf startSeed process).cpus := Nat.one_pos
  have hKept := run_keep_all hOne hKeep outputs hTake hQueue
  obtain ⟨s', hAfter, hReturned, hDrained, hSame, hWritten⟩ := run_after startSeed process
    { s with
      gpuOutputs := []
      cpuOutputs := s.cpuOutputs ++ outputs.filterMap process
      processed := s.processed ++ outputs
      produced := s.produced ++ (outputs.filterMap process).map fun output => (0, output) }
    hCpu hGpu hMain rfl
  refine ⟨s', ?_, hReturned, hDrained, hSame.trans hClaimed, ?_⟩
  · rw [foundRun, ← List.append_assoc, run, Interleaving.run_append]
    refine Option.bind_eq_some_iff.mpr ⟨s, hBefore, ?_⟩
    rw [Interleaving.run_append]
    exact Option.bind_eq_some_iff.mpr ⟨_, hKept, hAfter⟩
  · rw [hWritten]
    simp only [hFile, hLines, List.nil_append]

/-- Only these outputs are delivered. -/
theorem delivers_foundRun (startSeed : BitVec 64) (process : GpuOutput → Option CpuOutput)
    {R : BitVec 64 → List GpuOutput → Prop} {outputs : List GpuOutput}
    (hOutputs : R startSeed outputs) :
    Interleaving.Along (step (pairOf startSeed process)) (Delivers R)
      (initial (pairOf startSeed process)) (foundRun outputs) := by
  have hRest : ∀ event ∈ (outputs.flatMap fun _ => [.cpu 0, .cpu 0, .cpu 0]) ++ .cpu 0 ::
      joinAndReturn, ∀ i outputs, event ≠ Event.gpu i outputs := by
    rintro event hEvent i outputs rfl
    simp [joinAndReturn] at hEvent
  refine .cons (delivers_of_idle .test rfl (fun _ => nofun) _) rfl ?_
  refine .cons (delivers_of_idle .next rfl (fun _ => nofun) _) rfl ?_
  iterate 6 refine .cons (delivers_of_other (by simp)) rfl ?_
  refine .cons ?_ rfl (.cons (delivers_of_idle .test rfl (fun _ => nofun) _) rfl ?_)
  · rintro _ _ _ ⟨⟩ ⟨⟩
    exact hOutputs
  · exact Interleaving.along_of_forall fun event hEvent s => delivers_of_other (hRest event hEvent)

/-- The process is told to stop before the GPU thread claims a batch. -/
def idleRun : List Event :=
  [.signal, .main, .main, .main, .main, .main, .gpu 0 [], .cpu 0] ++ joinAndReturn

theorem idleRun_returns (startSeed : BitVec 64) (process : GpuOutput → Option CpuOutput) :
    ∃ s, run (pairOf startSeed process) (initial (pairOf startSeed process)) idleRun = some s ∧
      s.main = .returned ∧ s.gpuOutputs = [] :=
  ⟨_, rfl, rfl, rfl⟩

theorem delivers_idleRun (R : BitVec 64 → List GpuOutput → Prop) :
    Interleaving.Along (step (pairOf startSeed process)) (Delivers R)
      (initial (pairOf startSeed process)) idleRun := by
  have hRest : ∀ event ∈ Event.cpu 0 :: joinAndReturn, ∀ i outputs, event ≠ Event.gpu i outputs := by
    rintro event hEvent i outputs rfl
    simp [joinAndReturn] at hEvent
  rw [idleRun]
  simp only [List.cons_append, List.nil_append]
  iterate 6 refine .cons (delivers_of_other (by simp)) rfl ?_
  refine .cons (delivers_of_idle .test rfl (fun _ => nofun) _) rfl ?_
  exact Interleaving.along_of_forall fun event hEvent s => delivers_of_other (hRest event hEvent)

end Found

end Commission.Host.State
