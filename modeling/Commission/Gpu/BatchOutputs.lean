import Commission.Gpu.InPlace
import Commission.Gpu.Search

/-! What a batch hands to the host. Seen with seeds in place of seed indices, each
stage leaves the candidates of the same stage of the search, in some order. -/
namespace Commission

open AtomicAppend ThreadPool

variable {F ρ : Type}

/-- An entry of a buffer with the seed which its index stands for. -/
def Device.candidate (d : Device F) (entry : SeedPos) : Candidate :=
  ⟨(d.seeds entry.seedIndex).value, entry.x, entry.z⟩

/-- The candidates in a buffer up to its counter. -/
def Device.candidates (d : Device F) (buffer : OutputBuffer) : List Candidate :=
  (List.range (d.lens buffer.len)).map fun i => d.candidate (d.positions buffer.data i).value

/-- The seeds which the first stage has kept. -/
def Device.keptSeeds (d : Device F) : List (BitVec 64) :=
  (List.range (d.lens outputsFilterSeeds.len)).map fun s => (d.seeds s).value

/-- The end of a pass of the loop in `GpuThread::run`: the entries of the last
buffer go to `outputs.queue`, each with the seed at its index. -/
def Device.copyOutputs (d : Device F) : List GpuOutput :=
  let finalOutputs := outputsFilter2 3
  let finalOutputsLen := min (d.lens finalOutputs.len) finalOutputs.maxLen
  (List.range finalOutputsLen).map fun i =>
    let result := (d.positions finalOutputs.data i).value
    ⟨(d.seeds result.seedIndex).value, BitVec.ofInt 32 (result.x * 4), BitVec.ofInt 32 (result.z * 4)⟩

theorem Device.copyOutputs_eq {d : Device F}
    (hLen : d.lens (outputsFilter2 3).len ≤ (outputsFilter2 3).maxLen) :
    d.copyOutputs = (d.candidates (outputsFilter2 3)).map Candidate.output := by
  rw [Device.copyOutputs, Device.candidates, List.map_map]
  simp only [min_eq_left hLen]
  rfl

section Tests

variable [Arith F] {cfg : Config} {d : Device F} {stage : ℕ}

omit [Arith F] in
theorem map_stamp {α β : Type} (d : Device F) (value : Option α) (view : α → β) :
    (stamp d value).map (fun cell => view cell.value) = value.map view := by
  rw [stamp, Option.map_map]
  rfl

/-- What the first stage does, seen as a list of seeds. -/
theorem KernelFilterSeeds.shows (large : Bool) (startSeed : BitVec 64) (d : Device F) :
    Shows (kernel large startSeed outputsFilterSeeds) threadsPerRun [()] d id Cell.value
      (fun seed _ => if accepts F large seed then some seed else none) := by
  intro i _ item _
  exact (map_stamp d _ id).trans Option.map_id'

/-- A kernel finds the noise of the seed at an index which is ready. -/
theorem Ready.noise_eq {s : ℕ} (hReady : Ready cfg d stage s) (member : Member)
    (hMember : ∃ call ∈ readyCalls stage, call.member = member) :
    d.noise s member = Search.noises F cfg (d.seeds s).value member := by
  obtain ⟨call, hCall, rfl⟩ := hMember
  rw [Search.noises, (hReady.octaves call hCall).octaveNoise_eq]
  rfl

/-- The outcome is about the position; the seed index goes through. -/
def PassesIndex (outcome : Result F → SeedPos → Option SeedPos) : Prop :=
  ∀ result s x z,
    outcome result ⟨s, x, z⟩ = (outcome result ⟨0, x, z⟩).map fun kept => ⟨s, kept.x, kept.z⟩

theorem KernelFilter2Pair.passesIndex {large : Bool} (T : KernelFilter2.Template large)
    (half : Half) : PassesIndex (F := F) (KernelFilter2Pair.outcome T half) := by
  intro result s x z
  have hCount : localCount T half result ⟨s, x, z⟩ = localCount T half result ⟨0, x, z⟩ := rfl
  rw [outcome, outcome, hCount]
  split
  · rfl
  · rfl

theorem KernelFilter2.passesIndex {large : Bool} (T : Template large) :
    PassesIndex (F := F) (outcome T) := by
  intro result s x z
  have hPoints : points T ⟨s, x, z⟩ = points T ⟨0, x, z⟩ := rfl
  simp only [outcome, hPoints]
  split
  · rfl
  · rfl

/-- A filter which asks for an outcome, on an entry whose octaves are ready. -/
theorem map_outcome {outcome : Result F → SeedPos → Option SeedPos} (hIndex : PassesIndex outcome)
    {entry : SeedPos}
    (hSame : outcome (d.result entry.seedIndex) entry =
      outcome (Search.noises F cfg (d.seeds entry.seedIndex).value) entry) :
    (stamp d (outcome (d.result entry.seedIndex) entry)).map (fun cell => d.candidate cell.value) =
      Search.judge F cfg outcome (d.candidate entry) := by
  rw [map_stamp, hSame, Search.judge, hIndex _ entry.seedIndex, Option.map_map]
  rfl

theorem KernelFilterGradVecs1.map_test (outputs : OutputBuffer) {s : ℕ} (hReady : Ready cfg d 0 s)
    (place : ℕ × ℕ) :
    ((kernel cfg.large outputs).test d s place).map (fun cell => d.candidate cell.value) =
      Search.window F cfg (d.seeds s).value place := by
  have hNoise := hReady.noise_eq ⟨0, .a⟩ (by decide)
  change (stamp d (testWindow cfg.large d s place)).map _ = _
  rw [map_stamp]
  simp only [testWindow, hNoise, apply_ite (Option.map d.candidate)]
  rfl

theorem KernelFilterGradVecs2.map_test (inputs outputs : OutputBuffer) {entry : SeedPos}
    (hReady : Ready cfg d 0 entry.seedIndex) (place : ℕ × ℕ) :
    ((kernel cfg.large cfg.unbound inputs outputs).test d entry place).map
        (fun cell => d.candidate cell.value) =
      Search.tile F cfg (d.candidate entry) place := by
  have hNoise := hReady.noise_eq ⟨0, .b⟩ (by decide)
  change (stamp d (testTile cfg.large cfg.unbound d entry place)).map _ = _
  rw [map_stamp]
  simp only [testTile, hNoise, apply_ite (Option.map d.candidate)]
  rfl

theorem KernelFilter2Pair.map_test (T : KernelFilter2.Template cfg.large) (half : Half)
    (inputs outputs : OutputBuffer) {entry : SeedPos} (hReady : Ready cfg d 0 entry.seedIndex)
    (item : ℕ × ℕ) :
    ((kernel T half inputs outputs).test d entry item).map (fun cell => d.candidate cell.value) =
      Search.judge F cfg (outcome T half) (d.candidate entry) := by
  apply map_outcome (passesIndex T half)
  apply outcome_congr
  intro member hMember
  apply hReady.noise_eq
  cases half with
  | a =>
      revert member
      decide
  | b =>
      revert member
      decide

theorem KernelFilter2.map_test (index : Fin 4) (inputs outputs : OutputBuffer) {entry : SeedPos}
    (hReady : Ready cfg d (index + 1) entry.seedIndex) (item : ℕ × ℕ) :
    ((kernel (filter2Runs cfg.large index) inputs outputs).test d entry item).map
        (fun cell => d.candidate cell.value) =
      Search.judge2 F cfg index (d.candidate entry) := by
  apply map_outcome (passesIndex _)
  apply outcome_congr
  intro member hMember
  exact hReady.noise_eq member (filter2_members_ready cfg.large index member hMember)

end Tests

section Batch

variable [Arith F]

/-- The operation, launched with memory `d` in the batch of `startSeed`, has come to
its end and has left `d'`. With `inOrder` no warp of `filter_2_01b` has replaced an
entry which another one had still to read. -/
def Op.Completes (cfg : Config) (startSeed : BitVec 64) (inOrder : Prop) (d d' : Device F) :
    Op → Prop
  | .filterSeeds =>
      ((KernelFilterSeeds.kernel cfg.large startSeed outputsFilterSeeds).program
        KernelFilterSeeds.threadsPerRun).Completes d d'
  | .filter2_0b =>
      let P := (KernelFilter2_0B.stage cfg.large).program (d.lens outputsFilterGradvecs2.len)
      ∃ schedule pool, P.run (P.start d) schedule = some pool ∧ P.Finished pool ∧ pool.mem = d' ∧
        (inOrder → Interleaving.Along P.advance
          (KeepsUnread (KernelFilter2_0B.stage cfg.large) Cell.value
            (d.lens outputsFilterGradvecs2.len)) (P.start d) schedule)
  | op => ∃ moment, Executes cfg d moment op ∧ moment.finished ∧ moment.device = d'

/-- The batch of `startSeed`, begun with memory `d₀`, up to before an operation, or to
its end. -/
inductive Batch (cfg : Config) (startSeed : BitVec 64) (inOrder : Prop)
    (Ok : Op → Device F → Prop) (d₀ : Device F) : Option Op → Device F → Prop where
  | start : Batch cfg startSeed inOrder Ok d₀ (some .resetLens) d₀
  | step {op : Op} {d d' : Device F} (hBatch : Batch cfg startSeed inOrder Ok d₀ (some op) d)
      (hOk : Ok op d) (hCompletes : op.Completes cfg startSeed inOrder d d') :
      Batch cfg startSeed inOrder Ok d₀ op.next d'

variable {cfg : Config} {startSeed : BitVec 64} {inOrder : Prop} {d d' : Device F} {op : Op}

theorem Op.Completes.executes (hCompletes : op.Completes cfg startSeed inOrder d d') :
    ∃ moment, Executes cfg d moment op ∧ moment.finished ∧ moment.device = d' := by
  cases op with
  | filterSeeds =>
      obtain ⟨schedule, pool, hRun, hFinished, rfl⟩ := hCompletes
      exact ⟨_, ⟨startSeed, schedule, pool, hRun, rfl⟩, hFinished, rfl⟩
  | filter2_0b =>
      obtain ⟨schedule, pool, hRun, hFinished, rfl, -⟩ := hCompletes
      exact ⟨_, ⟨schedule, pool, hRun, rfl⟩, hFinished, rfl⟩
  | resetLens | initSeeds | filterGradvecs1 | filter2_0a | filterGradvecs2 | resetFlags
  | initLate k | filter2 index => exact hCompletes

end Batch

end Commission
