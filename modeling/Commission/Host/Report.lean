import Commission.Gpu.BatchSoundness
import Commission.Host.Outputs

/-! The process as a whole: what its file says about the seeds which its batches
have covered. -/
namespace Commission.Host.State

variable {cfg : Config} {s s' : State} {event : Event} {events : List Event}

/-- The outputs which are pushed at the end of a batch are in a relation to its start
seed. -/
def Delivers (R : BitVec 64 → List GpuOutput → Prop) (s : State) (event : Event) : Prop :=
  ∀ i outputs startSeed, event = .gpu i outputs → (s.gpu i).pc = .batch startSeed →
    R startSeed outputs

section Pushed

/-- Without a server all that is pushed is the outputs of a batch which ends. -/
theorem step_pushed (hServer : cfg.server = false) (hStep : s.step cfg event = some s') :
    (s'.pushed = s.pushed ∧ s'.finished = s.finished) ∨
      ∃ i outputs startSeed, event = .gpu i outputs ∧ (s.gpu i).pc = .batch startSeed ∧
        s'.pushed = s.pushed ++ outputs ∧ s'.finished = s.finished ++ [startSeed] := by
  by_cases hGpu : ∃ i outputs, event = .gpu i outputs
  · obtain ⟨i, outputs, rfl⟩ := hGpu
    obtain ⟨-, hStep⟩ := Option.ite_none_right_eq_some.mp hStep
    cases hPc : (s.gpu i).pc with
    | test | next =>
        simp only [gpuStep, hPc] at hStep
        cases hStep
        exact .inl ⟨rfl, rfl⟩
    | batch startSeed =>
        simp only [gpuStep, hPc] at hStep
        cases hStep
        exact .inr ⟨i, outputs, startSeed, rfl, hPc, rfl, rfl⟩
    | exited =>
        simp only [gpuStep, hPc] at hStep
        cases hStep
  · obtain ⟨-, -, hFinished, -⟩ :=
      step_batches_frame (fun i outputs hEvent => hGpu ⟨i, outputs, hEvent⟩) hStep
    refine .inl ⟨?_, hFinished⟩
    cases event with
    | signal =>
        cases hStep
        rfl
    | main => exact (mainStep_frame hStep).2.1
    | gpu i outputs => exact absurd ⟨i, outputs, rfl⟩ hGpu
    | cpu i =>
        obtain ⟨-, hStep⟩ := Option.ite_none_right_eq_some.mp hStep
        obtain ⟨-, -, rfl⟩ | rfl | ⟨_, _, -, -, rfl⟩ | ⟨_, -, -, rfl⟩ | ⟨_, _, -, -, rfl⟩ |
          ⟨_, -, rfl⟩ := cpuStep_cases hStep
        all_goals rfl
    | client =>
        obtain ⟨-, hStep⟩ := Option.ite_none_right_eq_some.mp hStep
        exact (clientStep_frame hStep).2.1
    | server outputs =>
        obtain ⟨hOn, -⟩ := Option.ite_none_right_eq_some.mp hStep
        rw [hServer] at hOn
        cases hOn

/-- What is pushed is what the finished batches have found. -/
theorem run_pushed_perm (hServer : cfg.server = false) {found : BitVec 64 → List GpuOutput}
    (hDelivers : Interleaving.Along (step cfg)
      (Delivers fun startSeed outputs => outputs.Perm (found startSeed)) (initial cfg) events)
    (hRun : run cfg (initial cfg) events = some s) :
    s.pushed.Perm (s.finished.flatMap found) := by
  refine Interleaving.run_invariant_along
    (fun t : State => t.pushed.Perm (t.finished.flatMap found))
    (fun t event t' hInv hHere hStep => ?_) (List.Perm.refl []) hDelivers hRun
  rcases step_pushed hServer hStep with ⟨hPushed, hFinished⟩ |
    ⟨i, outputs, startSeed, rfl, hPc, hPushed, hFinished⟩
  · rw [hPushed, hFinished]
    exact hInv
  · rw [hPushed, hFinished, List.flatMap_append]
    have hBatch : outputs.Perm (found startSeed) := hHere i outputs startSeed rfl hPc
    refine hInv.append (hBatch.trans ?_)
    rw [List.flatMap_singleton]

/-- Nothing is pushed but what the finished batches have found. -/
theorem run_pushed_subset (hServer : cfg.server = false) {found : BitVec 64 → List GpuOutput}
    (hDelivers : Interleaving.Along (step cfg)
      (Delivers fun startSeed outputs => outputs ⊆ found startSeed) (initial cfg) events)
    (hRun : run cfg (initial cfg) events = some s) :
    s.pushed ⊆ s.finished.flatMap found := by
  refine Interleaving.run_invariant_along
    (fun t : State => t.pushed ⊆ t.finished.flatMap found)
    (fun t event t' hInv hHere hStep => ?_) (List.Subset.refl []) hDelivers hRun
  rcases step_pushed hServer hStep with ⟨hPushed, hFinished⟩ |
    ⟨i, outputs, startSeed, rfl, hPc, hPushed, hFinished⟩
  · rw [hPushed, hFinished]
    exact hInv
  · rw [hPushed, hFinished, List.flatMap_append, List.flatMap_singleton]
    have hBatch : outputs ⊆ found startSeed := hHere i outputs startSeed rfl hPc
    exact List.append_subset.mpr ⟨List.Subset.trans hInv (List.subset_append_left _ _),
      List.Subset.trans hBatch (List.subset_append_right _ _)⟩

end Pushed

section Produced

/-- Only CPU threads process outputs. -/
theorem step_processed_frame (hCpu : ∀ i, event ≠ .cpu i) (hStep : s.step cfg event = some s') :
    s'.processed = s.processed := by
  cases event with
  | signal =>
      cases hStep
      rfl
  | main => exact (mainStep_frame hStep).2.2.1
  | gpu i outputs =>
      obtain ⟨-, hStep⟩ := Option.ite_none_right_eq_some.mp hStep
      exact (gpuStep_frame hStep).2.2.1
  | cpu i => exact absurd rfl (hCpu i)
  | client =>
      obtain ⟨-, hStep⟩ := Option.ite_none_right_eq_some.mp hStep
      exact (clientStep_frame hStep).2.2.1
  | server outputs =>
      obtain ⟨-, hStep⟩ := Option.ite_none_right_eq_some.mp hStep
      exact (serverStep_frame hStep).2.2.1

/-- What the CPU threads have produced follows from what they have processed. -/
theorem run_produced (hRun : run cfg (initial cfg) events = some s) :
    s.produced.map Prod.snd = s.processed.filterMap cfg.process := by
  refine Interleaving.run_invariant
    (fun t : State => t.produced.map Prod.snd = t.processed.filterMap cfg.process)
    (fun t event t' hInv hStep => ?_) rfl hRun
  by_cases hCpu : ∃ i, event = .cpu i
  · obtain ⟨i, rfl⟩ := hCpu
    obtain ⟨-, hStep⟩ := Option.ite_none_right_eq_some.mp hStep
    obtain ⟨-, -, rfl⟩ | rfl | ⟨_, _, -, -, rfl⟩ | ⟨input, -, hNone, rfl⟩ |
      ⟨input, output, -, hSome, rfl⟩ | ⟨_, -, rfl⟩ := cpuStep_cases hStep
    · exact hInv
    · exact hInv
    · exact hInv
    · change t.produced.map Prod.snd = (t.processed ++ [input]).filterMap cfg.process
      rw [List.filterMap_append, List.filterMap_cons_none hNone, List.filterMap_nil, List.append_nil]
      exact hInv
    · change (t.produced ++ [(i, output)]).map Prod.snd =
        (t.processed ++ [input]).filterMap cfg.process
      rw [List.filterMap_append, List.filterMap_cons_some hSome, List.filterMap_nil,
        List.map_append, hInv]
      rfl
    · exact hInv
  · have hOther : ∀ i, event ≠ .cpu i := fun i hEvent => hCpu ⟨i, hEvent⟩
    rw [(step_outputs_frame hOther hStep).2.1, step_processed_frame hOther hStep]
    exact hInv

end Produced

section Seeds

/-- The batches which have been claimed cover the seeds from `start_seed` on. -/
theorem claimed_flatMap (hRun : run cfg (initial cfg) events = some s)
    (stage : BitVec 64 → List Candidate) :
    s.claimed.flatMap (Search.batch stage) =
      (seedsFrom cfg.startSeed (s.claimed.length * KernelFilterSeeds.threadsPerRun)).flatMap stage := by
  rw [← Search.flatMap_batch, ← (run_claimInv hRun).claimed]

theorem finished_subset_claimed (hRun : run cfg (initial cfg) events = some s) :
    s.finished ⊆ s.claimed := by
  intro startSeed hFinished
  rw [← Multiset.mem_coe, (run_claimInv hRun).balance]
  exact Multiset.mem_add.mpr (.inl (Multiset.mem_coe.mpr hFinished))

theorem processed_subset_pushed (hRun : run cfg (initial cfg) events = some s) :
    s.processed ⊆ s.pushed := by
  intro output hProcessed
  rw [← Multiset.mem_coe, run_conserved hRun]
  apply Multiset.mem_add.mpr
  exact .inl (Multiset.mem_add.mpr (.inr (Multiset.mem_coe.mpr hProcessed)))

theorem outputFile_subset_produced (hRun : run cfg (initial cfg) events = some s) :
    s.outputFile ⊆ s.produced.map Prod.snd := by
  intro line hLine
  rw [← Multiset.mem_coe, run_written hRun]
  exact Multiset.mem_add.mpr (.inr (Multiset.mem_coe.mpr (List.mem_append_left _ hLine)))

end Seeds

section Batches

variable {F : Type} [Arith F] {gpuCfg : Commission.Config}

/-- The outputs are those of a batch with room for its results, whose steps were in
order. -/
def FromOrderedBatch (F : Type) [Arith F] (gpuCfg : Commission.Config) (startSeed : BitVec 64)
    (outputs : List GpuOutput) : Prop :=
  Search.Fits F gpuCfg startSeed ∧ ∃ d₀ d : Device F,
    Batch gpuCfg startSeed True (fun _ _ => True) d₀ none d ∧ outputs = d.copyOutputs

/-- The outputs are those of a batch which never runs over the end of an input, and
whose steps were in order. -/
def FromBatch (F : Type) [Arith F] (gpuCfg : Commission.Config) (startSeed : BitVec 64)
    (outputs : List GpuOutput) : Prop :=
  ∃ d₀ d : Device F,
    Batch gpuCfg startSeed True InputFits d₀ none d ∧ outputs = d.copyOutputs

/-- The outputs which the search of a batch says. -/
def batchOutputs (F : Type) [Arith F] (gpuCfg : Commission.Config) (startSeed : BitVec 64) :
    List GpuOutput :=
  (Search.batch (Search.search F gpuCfg) startSeed).map Candidate.output

theorem FromOrderedBatch.perm {startSeed : BitVec 64} {outputs : List GpuOutput}
    (hFrom : FromOrderedBatch F gpuCfg startSeed outputs) :
    outputs.Perm (batchOutputs F gpuCfg startSeed) := by
  obtain ⟨hRoom, d₀, d, hBatch, rfl⟩ := hFrom
  exact hBatch.copyOutputs_perm hRoom

theorem FromBatch.subset {startSeed : BitVec 64} {outputs : List GpuOutput}
    (hFrom : FromBatch F gpuCfg startSeed outputs) : outputs ⊆ batchOutputs F gpuCfg startSeed := by
  obtain ⟨d₀, d, hBatch, rfl⟩ := hFrom
  exact fun output hOutput => hBatch.mem_copyOutputs hOutput

theorem claimed_batchOutputs (hRun : run cfg (initial cfg) events = some s) :
    s.claimed.flatMap (batchOutputs F gpuCfg) =
      ((seedsFrom cfg.startSeed (s.claimed.length * KernelFilterSeeds.threadsPerRun)).flatMap
        (Search.search F gpuCfg)).map Candidate.output := by
  rw [← claimed_flatMap hRun, List.map_flatMap]
  rfl

theorem FromOrderedBatch.fromBatch {startSeed : BitVec 64} {outputs : List GpuOutput}
    (hFrom : FromOrderedBatch F gpuCfg startSeed outputs) : FromBatch F gpuCfg startSeed outputs := by
  obtain ⟨hRoom, d₀, d, hBatch, hOutputs⟩ := hFrom
  exact ⟨d₀, d, hBatch.inputFits hRoom, hOutputs⟩

end Batches

/-- A line comes from an output which was pushed. -/
theorem exists_pushed_of_outputFile (hRun : run cfg (initial cfg) events = some s)
    {line : CpuOutput} (hLine : line ∈ s.outputFile) :
    ∃ output ∈ s.pushed, cfg.process output = some line := by
  have hProduced := outputFile_subset_produced hRun hLine
  rw [run_produced hRun] at hProduced
  obtain ⟨output, hProcessed, hKept⟩ := List.mem_filterMap.mp hProduced
  exact ⟨output, processed_subset_pushed hRun hProcessed, hKept⟩

/-- An output of a finished batch is a candidate of a claimed seed. -/
theorem exists_candidate_of_finished {F : Type} [Arith F] {gpuCfg : Commission.Config}
    (hRun : run cfg (initial cfg) events = some s) {output : GpuOutput}
    (hFound : output ∈ s.finished.flatMap (batchOutputs F gpuCfg)) :
    ∃ seed ∈ seedsFrom cfg.startSeed (s.claimed.length * KernelFilterSeeds.threadsPerRun),
      ∃ c ∈ Search.search F gpuCfg seed, c.output = output := by
  obtain ⟨startSeed, hStart, hFound⟩ := List.mem_flatMap.mp hFound
  have hClaimed : output ∈ s.claimed.flatMap (batchOutputs F gpuCfg) :=
    List.mem_flatMap.mpr ⟨startSeed, finished_subset_claimed hRun hStart, hFound⟩
  rw [claimed_batchOutputs hRun] at hClaimed
  obtain ⟨c, hSearched, rfl⟩ := List.mem_map.mp hClaimed
  obtain ⟨seed, hSeed, hC⟩ := List.mem_flatMap.mp hSearched
  exact ⟨seed, hSeed, c, hC, rfl⟩

theorem exists_candidate_of_outputFile {F : Type} [Arith F] {gpuCfg : Commission.Config}
    (hServer : cfg.server = false) (hRun : run cfg (initial cfg) events = some s)
    (hBatches : Interleaving.Along (step cfg) (Delivers (FromBatch F gpuCfg)) (initial cfg) events)
    {line : CpuOutput} (hLine : line ∈ s.outputFile) :
    ∃ seed ∈ seedsFrom cfg.startSeed (s.claimed.length * KernelFilterSeeds.threadsPerRun),
      ∃ c ∈ Search.search F gpuCfg seed, cfg.process c.output = some line := by
  obtain ⟨output, hPushed, hKept⟩ := exists_pushed_of_outputFile hRun hLine
  have hDelivers : Interleaving.Along (step cfg)
      (Delivers fun startSeed outputs => outputs ⊆ batchOutputs F gpuCfg startSeed) (initial cfg)
      events :=
    hBatches.imp fun _ _ hHere i outputs startSeed hEvent hPc =>
      (hHere i outputs startSeed hEvent hPc).subset
  obtain ⟨seed, hSeed, c, hC, rfl⟩ :=
    exists_candidate_of_finished hRun (run_pushed_subset hServer hDelivers hRun hPushed)
  exact ⟨seed, hSeed, c, hC, hKept⟩

/-- Every line which a process writes comes from a candidate which the search finds
for a seed of a claimed batch. -/
theorem report_sound (F : Type) [Arith F] (gpuCfg : Commission.Config) (cfg : Config)
    (events : List Event) (s : State) (hServer : cfg.server = false)
    (hRun : run cfg (initial cfg) events = some s)
    (hBatches : Interleaving.Along (step cfg) (Delivers (FromBatch F gpuCfg)) (initial cfg) events) :
    ∀ line ∈ s.outputFile,
      ∃ seed ∈ seedsFrom cfg.startSeed (s.claimed.length * KernelFilterSeeds.threadsPerRun),
        ∃ c ∈ Search.search F gpuCfg seed, cfg.process c.output = some line := by
  intro line hLine
  exact exists_candidate_of_outputFile hServer hRun hBatches hLine

/-- The lines of a process which has drained its queue, in terms of the search. -/
theorem outputFile_perm_search {F : Type} [Arith F] {gpuCfg : Commission.Config}
    (hServer : cfg.server = false) (hCpus : cfg.cpus ≠ 0)
    (hRun : run cfg (initial cfg) events = some s) (hReturned : s.main = .returned)
    (hDrained : s.gpuOutputs = [])
    (hBatches : Interleaving.Along (step cfg) (Delivers (FromOrderedBatch F gpuCfg)) (initial cfg)
      events) :
    s.outputFile.Perm
      ((seedsFrom cfg.startSeed (s.claimed.length * KernelFilterSeeds.threadsPerRun)).flatMap
        fun seed => (Search.search F gpuCfg seed).filterMap fun c => cfg.process c.output) := by
  have hDelivers : Interleaving.Along (step cfg)
      (Delivers fun startSeed outputs => outputs.Perm (batchOutputs F gpuCfg startSeed)) (initial cfg)
      events :=
    hBatches.imp fun _ _ hHere i outputs startSeed hEvent hPc =>
      (hHere i outputs startSeed hEvent hPc).perm
  have hPushed := pushed_eq_of_returned hCpus hRun hReturned
  rw [hDrained, Multiset.coe_nil, add_zero] at hPushed
  have hProcessed : s.processed.Perm (s.claimed.flatMap (batchOutputs F gpuCfg)) :=
    calc
      s.processed.Perm s.pushed := (Multiset.coe_eq_coe.mp hPushed).symm
      List.Perm _ (s.finished.flatMap (batchOutputs F gpuCfg)) :=
        run_pushed_perm hServer hDelivers hRun
      List.Perm _ (s.claimed.flatMap (batchOutputs F gpuCfg)) :=
        (finished_perm_claimed hRun (by rw [hReturned]; trivial)).flatMap_right _
  obtain ⟨tagged, hLines, hTagged, -⟩ := outputFile_of_returned hRun hReturned
  have hFile : s.outputFile.Perm (s.produced.map Prod.snd) := by
    rw [← hLines]
    exact hTagged.map _
  rw [run_produced hRun] at hFile
  rw [claimed_batchOutputs hRun] at hProcessed
  have hAll := hProcessed.filterMap cfg.process
  rw [List.filterMap_map, List.filterMap_flatMap] at hAll
  exact hFile.trans hAll

/-- A process without a server which returns with its queue drained has written the
islands of the seeds which it has claimed: a line for every candidate of the search
which the CPU test keeps, and no others. -/
theorem report_complete (F : Type) [Arith F] (gpuCfg : Commission.Config) (cfg : Config)
    (events : List Event) (s : State) (hServer : cfg.server = false) (hCpus : cfg.cpus ≠ 0)
    (hRun : run cfg (initial cfg) events = some s) (hReturned : s.main = .returned)
    (hDrained : s.gpuOutputs = [])
    (hBatches : Interleaving.Along (step cfg) (Delivers (FromOrderedBatch F gpuCfg)) (initial cfg)
      events) :
    s.outputFile.Perm
      ((seedsFrom cfg.startSeed (s.claimed.length * KernelFilterSeeds.threadsPerRun)).flatMap
        fun seed => (Search.search F gpuCfg seed).filterMap fun c => cfg.process c.output) := by
  exact outputFile_perm_search hServer hCpus hRun hReturned hDrained hBatches

end Commission.Host.State
