import Commission.Cpu.ReportedIsland
import Commission.Cubiomes.SampledClimate
import Commission.Gpu.CandidateRange
import Commission.Host.Main

/-! From a command line to the lines of the output file. -/
namespace Commission.Host

variable {F : Type} [Arith F]

/-- What a line says: an island of the biome map of its seed, close to a position which the
search of that seed finds. -/
structure LineHolds (F : Type) [Arith F] (gpuCfg : Commission.Config) (cubiomes : Cubiomes)
    (minSize : ℤ) (seed : BitVec 64) (line : CpuOutput) : Prop where
  sameSeed : line.seed = seed
  found : ∃ c ∈ Search.search F gpuCfg seed,
    ReportedIsland gpuCfg.large cubiomes minSize c.output line ∧
      |line.x.toInt - 4 * c.x| ≤ searchRange gpuCfg.large / 2 + 3 ∧
      |line.z.toInt - 4 * c.z| ≤ searchRange gpuCfg.large / 2 + 3

/-- What the CPU test keeps of the candidates of a seed holds. -/
theorem lineHolds_of_process {gpuCfg : Commission.Config} {cubiomes : Cubiomes} {minSize : ℤ}
    {seed : BitVec 64} {c : Candidate} {line : CpuOutput}
    (hCentres : Search.CentresBounded F gpuCfg) (hFound : c ∈ Search.search F gpuCfg seed)
    (hLine : process gpuCfg.large cubiomes minSize c.output = some line) :
    LineHolds F gpuCfg cubiomes minSize seed line := by
  obtain ⟨hX, hZ, hNearX, hNearZ⟩ := Search.output_exact hCentres hFound
  have hBound : (2 : ℤ) ^ 29 ≤ 2 ^ 30 := by norm_num
  have hIsland := process_reportedIsland (hNearX.trans hBound) (hNearZ.trans hBound) hLine
  have hSeed : c.seed = seed := (Search.seed_of_mem_filter2 hFound).1
  refine ⟨hIsland.seed.trans hSeed, c, hFound, hIsland, ?_, ?_⟩
  · rw [← hX]
    exact hIsland.near.1
  · rw [← hZ]
    exact hIsland.near.2

/-- Every line in the output file of a process without a server, whatever its command line
and the interleaving of its threads, tells of an island of mushroom fields near a position
found by the search of one of the seeds from its start seed on. -/
theorem report_islands (F : Type) [Arith F] (gpuCfg : Commission.Config) (build : Build)
    (cubiomes : Cubiomes) (random : BitVec 64) (opens : Argument → Bool) (argv : List Argument)
    (setup : Setup) (events : List Event) (s : State) (hBuild : build.large = gpuCfg.large)
    (hCentres : Search.CentresBounded F gpuCfg)
    (hStart : mainInner build cubiomes random opens argv = .ok setup)
    (hServer : setup.cfg.server = false)
    (hRun : State.run setup.cfg (State.initial setup.cfg) events = some s)
    (hBatches : Interleaving.Along (State.step setup.cfg)
      (State.Delivers (State.FromBatch F gpuCfg)) (State.initial setup.cfg) events) :
    ∀ line ∈ s.outputFile,
      ∃ seed ∈ seedsFrom setup.cfg.startSeed (s.claimed.length * KernelFilterSeeds.threadsPerRun),
        LineHolds F gpuCfg cubiomes setup.minSize seed line := by
  intro line hLine
  obtain ⟨seed, hSeed, c, hFound, hProcess⟩ :=
    State.exists_candidate_of_outputFile hServer hRun hBatches hLine
  obtain ⟨args, -, -, -, -, -, -, -, hCfg, -⟩ := mainInner_eq_ok hStart
  rw [hCfg, hBuild] at hProcess
  exact ⟨seed, hSeed, lineHolds_of_process hCentres hFound hProcess⟩

open Cubiomes in
/-- What a line says about the noises of its seed. -/
structure NoiseLine (F : Type) [Arith F] (gpuCfg : Commission.Config) (bn : BiomeNoise)
    (minSize : ℤ) (seed : BitVec 64) (line : CpuOutput) : Prop where
  sameSeed : line.seed = seed
  found : ∃ c ∈ Search.search F gpuCfg seed, ∃ cells,
    NoiseIsland bn (makeRange c.output.x c.output.z (searchRange gpuCfg.large) 4) 2 cells ∧
      minCells minSize 4 ≤ cells.card ∧ line.score = BitVec.ofInt 32 (cells.card * 16) ∧
      |line.x.toInt - 4 * c.x| ≤ searchRange gpuCfg.large / 2 + 3 ∧
      |line.z.toInt - 4 * c.z| ≤ searchRange gpuCfg.large / 2 + 3

section Noise

open Cubiomes

variable {bt : BiomeTree} {before after : List ℕ} {field fuel : ℕ} {large : Bool}
  {limits : ℤ → Climate → ℤ × ℤ} {tileIds : Range → ℤ → ℤ → ℤ}
  {testMonteCarlo : (seed : BitVec 64) → (x z : BitVec 32) → (range minArea : ℤ) → Bool}

/-- A line whose seed has its noises set up tells of an island of their climate. -/
theorem noiseLine_of_lineHolds (hTable : bt.MushroomLeaves before field after)
    {gpuCfg : Commission.Config} {minSize : ℤ} {seed : BitVec 64} {bn : BiomeNoise}
    {line : CpuOutput} (hSeed : setBiomeSeed fuel seed large = some bn)
    (hLine : LineHolds F gpuCfg (newestCubiomes bt limits tileIds testMonteCarlo fuel large) minSize
      seed line) : NoiseLine F gpuCfg bn minSize seed line := by
  obtain ⟨c, hFound, hIsland, hNearX, hNearZ⟩ := hLine.found
  obtain ⟨cells, hCells, hEnough, hScore⟩ := hIsland.fine
  have hSame : c.output.seed = seed := (Search.seed_of_mem_filter2 hFound).1
  rw [hSame, newestCubiomes_g hSeed] at hCells
  exact ⟨hLine.sameSeed, c, hFound, cells,
    noiseIsland_of_island hTable (setBiomeSeed_bounded hSeed) rfl rfl hCells, hEnough, hScore,
    hNearX, hNearZ⟩

end Noise

end Commission.Host
