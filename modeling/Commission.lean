import Commission.Library.Interleaving
import Commission.Library.ThreadPool
import Commission.Library.StrideLoop
import Commission.Library.Reduction
import Commission.Library.AtomicAppend
import Commission.Library.InPlaceAppend
import Commission.Library.RecordStream
import Commission.Library.GridSearch
import Commission.Library.BoundedRuns
import Commission.Library.DepthFirstOrder
import Commission.Common
import Commission.Net.Connection
import Commission.Net.Framing
import Commission.Random
import Commission.Noise.Arith
import Commission.Noise.Device
import Commission.Cubiomes.BiomeTree
import Commission.Cubiomes.MushroomFields
import Commission.Cubiomes.Noise
import Commission.Noise.SeedAgreement
import Commission.Noise.SampleAgreement
import Commission.Gpu.ConvKernels
import Commission.Gpu.GradVecs
import Commission.Gpu.WindowScores
import Commission.Gpu.Coverage
import Commission.Gpu.Buffers
import Commission.Host.System
import Commission.Host.Shutdown
import Commission.Host.Client
import Commission.Host.Outputs
import Commission.Gpu.StageStats
import Commission.Gpu.Memory
import Commission.Gpu.Filter2
import Commission.Gpu.BlockFilter
import Commission.Gpu.PairFilter
import Commission.Gpu.FilterKernels
import Commission.Gpu.Border
import Commission.Gpu.ParallelFilter
import Commission.Gpu.InPlace
import Commission.Library.AppendRecords
import Commission.Gpu.FilterSeeds
import Commission.Host.Seeds
import Commission.Gpu.SeedKernels
import Commission.Gpu.InitSeeds
import Commission.Gpu.LateInit
import Commission.Gpu.Pipeline
import Commission.Gpu.Readiness
import Commission.Gpu.BatchSafety
import Commission.Cpu.FloodFill
import Commission.Cpu.FillStack
import Commission.Cpu.Tolerance
import Commission.Cpu.BiomeCenters
import Commission.Cpu.IslandSize
import Commission.Random.Forks
import Commission.Library.SwapChain
import Commission.Noise.Shuffle
import Commission.Gpu.YoScore
import Commission.Cpu.ShiftedSample
import Commission.Cpu.CenterSearch
import Commission.Cpu.SearchArea
import Commission.Cpu.IntRange
import Commission.Gpu.Tiling
import Commission.Library.FromChars
import Commission.Host.Args
import Commission.Host.CommandLine
import Commission.Host.ParseArgs
import Commission.Host.DocumentedArgs
import Commission.Net.ServerShutdown
import Commission.Library.MultiplyShift
import Commission.Random.BoundedDraw
import Commission.Library.BinaryPower
import Commission.Random.State
import Commission.Random.JavaSkip
import Commission.Library.LaunchView
import Commission.Library.InOrderAppend
import Commission.Gpu.Search
import Commission.Gpu.BatchOutputs
import Commission.Gpu.Progress
import Commission.Gpu.BatchRefinement
import Commission.Gpu.BatchSoundness
import Commission.Host.Report
import Commission.Gpu.CandidateRange
import Commission.Cpu.ReportedIsland
import Commission.Host.Main
import Commission.Host.Islands
import Commission.Host.Return
import Commission.Host.Cluster
import Commission.Host.ClusterReport
import Commission.Host.OutputText
import Commission.Host.Resume
import Commission.Library.NearestSearch
import Commission.Library.PrefixCode
import Commission.Gpu.StageTotals
import Commission.Library.CubicSpline
import Commission.Cubiomes.Spline
import Commission.Cubiomes.NoiseBounds
import Commission.Cubiomes.SampledClimate
import Commission.Cpu.MonteCarlo
import Commission.Library.FullPeriod
import Commission.Library.DistinctValues
import Commission.Random.Period
import Commission.Gpu.RareSeeds
import Commission.Gpu.TracedSearch
import Commission.Gpu.BatchRuns
import Commission.Gpu.TracedBatch
import Commission.Host.FoundRun
import Commission.Host.FoundReport
import Commission.Host.FoundCluster
