import Commission.Cpu.CenterSearch
import Commission.Host.Client
import Commission.Host.ParseArgs
import Commission.Host.Report

/-! `main_inner` from the command line to the creation of the threads, and which of the
threads there are. -/
namespace Commission.Host

/-- The macros of a build. -/
structure Build where
  noGpu : Bool
  noCpu : Bool
  noNet : Bool
  large : Bool

/-- Why `main_inner` returns 1. -/
inductive StartError where
  | usage (e : ParseError)
  | noGpuSupport
  | noCpuSupport
  | noNetSupport
  | couldNotOpen (path : Argument)
  deriving DecidableEq

/-- What goes to `stderr` last, without the line break. -/
def StartError.message (program : Argument) : StartError → Argument
  | usage _ => "Usage:\n".toList ++ program ++
      " [--device <device>,<device>,...] [--threads <threads>]".toList ++
      " [--client <server_address>] [--server <listen_address>]".toList ++
      " [--output <output_file>] [--start <start_seed>] [--size <min_size>]".toList
  | noGpuSupport => "The program was compiled without gpu support".toList
  | noCpuSupport => "The program was compiled without cpu support".toList
  | noNetSupport => "The program was compiled without net support".toList
  | couldNotOpen path => "Could not open ".toList ++ path

/-- What `main_inner` has set up before its threads run. -/
structure Setup where
  cfg : Config
  devices : List ℤ
  minSize : ℤ
  outputFile : Option Argument

variable (build : Build)

/-- `args.threads.value_or(args.client ? 0 : 1)` -/
def threadCount (args : Args) : ℤ := args.threads.getD (if args.client.isSome then 0 else 1)

/-- `args.min_size.value_or(10'000'000 * (large_biomes ? 16 : 1))` -/
def minSizeOf (args : Args) : ℤ := args.minSize.getD (10000000 * (if build.large then 16 else 1))

/-- `--threads` excludes `--client`. -/
theorem parse_client {argv : List Argument} {args : Args} (hParse : Args.parse argv = .ok args)
    (hClient : args.client.isSome = true) : args.threads = none := by
  obtain ⟨groups, -, hDescribes⟩ := parse_eq_ok_iff.mp hParse
  have hNamed : argumentsOf .client groups ≠ [] := by
    intro hNone
    rw [(field_none_iff hDescribes.client).mpr hNone] at hClient
    cases hClient
  exact (field_none_iff hDescribes.threads).mpr (hDescribes.alone hNamed).1

/-- `main_inner` up to its polling loop. `random` is what `random_start_seed` returns, and
`opens` tells whether a file can be opened. -/
def mainInner (cubiomes : Cubiomes) (random : BitVec 64) (opens : Argument → Bool)
    (argv : List Argument) : Except StartError Setup :=
  match hParse : Args.parse argv with
  | .error e => .error (.usage e)
  | .ok args =>
      let threads := threadCount args
      let minSize := minSizeOf build args
      if build.noGpu ∧ args.devices.length ≠ 0 then .error .noGpuSupport
      else if build.noCpu ∧ threads ≠ 0 then .error .noCpuSupport
      else if build.noNet ∧ (args.client.isSome ∨ args.server.isSome) then .error .noNetSupport
      else
        let path := args.outputFile.getD "output.txt".toList
        if threads ≠ 0 ∧ ¬opens path then .error (.couldNotOpen path)
        else .ok {
          cfg := {
            gpus := args.devices.length
            cpus := threads.toNat
            client := args.client.isSome
            server := args.server.isSome
            startSeed := (args.startSeed.map (BitVec.ofInt 64)).getD random
            process := process build.large cubiomes minSize
            client_cpus := by
              intro hClient
              simp only [threads, threadCount, parse_client hParse hClient, hClient]
              rfl }
          devices := args.devices
          minSize
          outputFile := if threads ≠ 0 then some path else none }

/-- What the threads of a process can rely on, whatever the command line was. -/
structure Setup.Sound (setup : Setup) : Prop where
  /-- Exactly one kind of thread takes from `gpu_outputs`. -/
  taker : setup.cfg.client = true ↔ setup.cfg.cpus = 0
  cpus_le : setup.cfg.cpus ≤ 1024
  gpus : setup.cfg.gpus = setup.devices.length
  devices : setup.devices.Nodup ∧ ∀ device ∈ setup.devices, 0 ≤ device ∧ device < 2 ^ 31
  /-- Something pushes to `gpu_outputs`. -/
  source : setup.cfg.gpus = 0 → setup.cfg.server = true
  /-- The file is open exactly if there are CPU threads. -/
  outputFile : setup.outputFile.isSome = true ↔ setup.cfg.cpus ≠ 0
  minSize : 0 ≤ setup.minSize ∧ setup.minSize < 2 ^ 31

section Setup

variable {build : Build} {cubiomes : Cubiomes} {random : BitVec 64} {opens : Argument → Bool}
  {argv : List Argument} {setup : Setup}

/-- Where `main_inner` comes to its polling loop, the parts of its setup follow from the
arguments. -/
theorem mainInner_eq_ok (hStart : mainInner build cubiomes random opens argv = .ok setup) :
    ∃ args, Args.parse argv = .ok args ∧ setup.devices = args.devices ∧
      setup.minSize = minSizeOf build args ∧ setup.cfg.gpus = args.devices.length ∧
      setup.cfg.cpus = (threadCount args).toNat ∧ setup.cfg.client = args.client.isSome ∧
      setup.cfg.server = args.server.isSome ∧
      setup.cfg.process = process build.large cubiomes setup.minSize ∧
      (setup.outputFile.isSome = true ↔ threadCount args ≠ 0) := by
  rw [mainInner] at hStart
  split at hStart
  · cases hStart
  next args hParse =>
    simp only at hStart
    split_ifs at hStart with hGpu hCpu hNet hOpen hThreads
    · cases hStart
      exact ⟨args, hParse, rfl, rfl, rfl, rfl, rfl, rfl, rfl, iff_of_true rfl hThreads⟩
    · cases hStart
      exact ⟨args, hParse, rfl, rfl, rfl, rfl, rfl, rfl, rfl, iff_of_false Bool.false_ne_true hThreads⟩

theorem looseList_bounds {s : Argument} {devices : List ℤ} (hList : LooseList s devices) :
    ∀ device ∈ devices, 0 ≤ device ∧ device < 2 ^ 31 := by
  have hBounds {s : Argument} {device : ℤ} (hDevice : DeviceNumeral s device) :
      0 ≤ device ∧ device < 2 ^ 31 := by
    obtain ⟨-, hLow, hHigh⟩ := hDevice
    omega
  induction hList with
  | done => simp
  | last hDevice => simpa using hBounds hDevice
  | more hDevice hRest ih => simpa using ⟨hBounds hDevice, ih⟩

theorem flatten_bounds {arguments : List Argument} {lists : List (List ℤ)}
    (hLists : List.Forall₂ LooseList arguments lists) :
    ∀ device ∈ lists.flatten, 0 ≤ device ∧ device < 2 ^ 31 := by
  induction hLists with
  | nil => simp
  | cons hList hRest ih =>
      intro device hDevice
      rcases List.mem_append.mp hDevice with hFirst | hLater
      · exact looseList_bounds hList device hFirst
      · exact ih device hLater

/-- The values of accepted arguments, as far as `main_inner` relies on them. -/
structure ArgsInRange (args : Args) : Prop where
  devices : args.devices.Nodup ∧ ∀ device ∈ args.devices, 0 ≤ device ∧ device < 2 ^ 31
  source : args.devices = [] → args.server.isSome = true
  threads : ∀ threads ∈ args.threads, 1 ≤ threads ∧ threads ≤ 1024
  minSize : ∀ minSize ∈ args.minSize, 0 ≤ minSize ∧ minSize < 2 ^ 31

theorem parse_inRange {args : Args} (hParse : Args.parse argv = .ok args) : ArgsInRange args := by
  obtain ⟨groups, -, hDescribes⟩ := parse_eq_ok_iff.mp hParse
  obtain ⟨lists, hLists, hNodup, hDevices⟩ := hDescribes.devices
  have hField {lo hi : ℤ} {arguments : List Argument} {out : Option ℤ}
      (hOut : Field (NumeralIn lo hi) arguments out) : ∀ value ∈ out, lo ≤ value ∧ value ≤ hi := by
    intro value hValue
    obtain ⟨-, rfl⟩ | ⟨s, parsed, -, hNumeral, rfl⟩ := hOut
    · cases hValue
    · cases hValue
      exact hNumeral.2
  refine ⟨?_, fun hNone => ?_, hField hDescribes.threads, fun minSize hMinSize => ?_⟩
  · rw [hDevices]
    split
    · simp
    · exact ⟨hNodup, flatten_bounds hLists⟩
  · by_contra hServer
    rw [Option.not_isSome_iff_eq_none, field_none_iff hDescribes.server] at hServer
    rw [hNone] at hDevices
    split at hDevices
    · cases hDevices
    next hOther => exact hOther ⟨hDevices.symm, hServer⟩
  · obtain ⟨hLow, hHigh⟩ := hField hDescribes.size minSize hMinSize
    omega

/-- Every command line which is accepted gives a setup which the threads can rely on. -/
theorem mainInner_sound (hStart : mainInner build cubiomes random opens argv = .ok setup) :
    setup.Sound := by
  obtain ⟨args, hParse, hDevices, hMinSize, hGpus, hCpus, hClient, hServer, -, hFile⟩ :=
    mainInner_eq_ok hStart
  have hArgs := parse_inRange hParse
  have hThreads : args.client.isSome = true ∧ threadCount args = 0 ∨
      args.client.isSome = false ∧ 1 ≤ threadCount args ∧ threadCount args ≤ 1024 := by
    rw [threadCount]
    cases hGiven : args.client.isSome with
    | true =>
        left
        rw [parse_client hParse hGiven]
        exact ⟨rfl, rfl⟩
    | false =>
        right
        refine ⟨rfl, ?_⟩
        cases hCount : args.threads with
        | none => decide
        | some threads => exact hArgs.threads threads hCount
  refine ⟨?_, by omega, hGpus.trans (congrArg _ hDevices.symm), hDevices ▸ hArgs.devices, ?_, ?_, ?_⟩
  · rw [hClient, hCpus]
    obtain ⟨hGiven, hNone⟩ | ⟨hGiven, hSome⟩ := hThreads
    · simp [hGiven, hNone]
    · simp [hGiven]
      omega
  · intro hNone
    rw [hServer]
    exact hArgs.source (List.eq_nil_of_length_eq_zero (hGpus.symm.trans hNone))
  · rw [hFile, hCpus]
    omega
  · rw [hMinSize, minSizeOf]
    cases hSize : args.minSize with
    | none => cases build.large <;> decide
    | some minSize => exact hArgs.minSize minSize hSize

/-- The roles of the threads of a process, in every state of every run: a line is written
only where a file is open, and what was pushed goes to the CPU threads alone or to the
client alone. -/
structure Roles (setup : Setup) (s : State) : Prop where
  sound : setup.Sound
  lines : setup.outputFile = none → s.outputFile = [] ∧ s.cpuOutputs = []
  processing : setup.cfg.client = false → s.sent = [] ∧
    (s.pushed : Multiset GpuOutput) = State.held setup.cfg s + s.processed + s.gpuOutputs
  sending : setup.cfg.client = true → s.processed = [] ∧
    (s.pushed : Multiset GpuOutput) = s.gpuOutputs + s.client.pc.pending + s.sent

/-- A process which has not processed anything has no lines. -/
theorem no_lines {cfg : Config} {events : List Event} {s : State}
    (hRun : State.run cfg (State.initial cfg) events = some s) (hNone : s.processed = []) :
    s.outputFile = [] ∧ s.cpuOutputs = [] := by
  have hProduced := State.run_produced hRun
  rw [hNone, List.filterMap_nil, List.map_eq_nil_iff] at hProduced
  have hWritten := State.run_written hRun
  rw [State.Written, hProduced, List.map_nil, Multiset.coe_nil, eq_comm, add_eq_zero] at hWritten
  exact List.append_eq_nil_iff.mp ((Multiset.coe_eq_zero _).mp hWritten.2)

/-- Whatever the command line and the interleaving, the threads keep to their roles. -/
theorem process_roles (build : Build) (cubiomes : Cubiomes) (random : BitVec 64)
    (opens : Argument → Bool) (argv : List Argument) (setup : Setup) (events : List Event)
    (s : State) (hStart : mainInner build cubiomes random opens argv = .ok setup)
    (hRun : State.run setup.cfg (State.initial setup.cfg) events = some s) : Roles setup s := by
  have hSound := mainInner_sound hStart
  have hConserved := State.run_conserved hRun
  constructor
  · exact hSound
  · intro hNoFile
    have hCpus : setup.cfg.cpus = 0 := by
      by_contra hSome
      have hFile := hSound.outputFile.mpr hSome
      rw [hNoFile] at hFile
      cases hFile
    exact no_lines hRun (State.run_processed_of_client (hSound.taker.mpr hCpus) hRun)
  · intro hClient
    obtain ⟨hPending, hSent⟩ := State.run_client_idle hClient hRun
    rw [State.Conserved, hPending, hSent, Multiset.coe_nil, add_zero, add_zero] at hConserved
    exact ⟨hSent, hConserved⟩
  · intro hClient
    have hCpus := hSound.taker.mp hClient
    have hProcessed := State.run_processed_of_client hClient hRun
    rw [State.Conserved, State.held, hCpus, Finset.range_zero, Finset.sum_empty, hProcessed,
      Multiset.coe_nil, zero_add, zero_add] at hConserved
    exact ⟨hProcessed, hConserved⟩

end Setup

/-- A generator for every seed with nothing but mushroom fields. -/
def plainCubiomes : Cubiomes where
  g _ :=
    { since118 := true
      getBiomeAt := fun _ _ _ _ => mushroomFields
      climate := fun _ _ _ => 0
      biomeParaLimits := fun _ _ => (intMin, intMax)
      tileIds := fun _ _ _ => 0 }
  newest _ := rfl
  testMonteCarlo _ _ _ _ _ := true

/-- A process without arguments has one GPU thread and one CPU thread. -/
theorem process_roles_default :
    ∃ setup s, mainInner ⟨false, false, false, false⟩ plainCubiomes 0 (fun _ => true)
        ["commission".toList] = .ok setup ∧
      State.run setup.cfg (State.initial setup.cfg) [.gpu 0 [], .cpu 0, .main] = some s ∧
      Roles setup s :=
  ⟨_, _, rfl, rfl, process_roles ⟨false, false, false, false⟩ plainCubiomes 0 (fun _ => true)
    ["commission".toList] _ [.gpu 0 [], .cpu 0, .main] _ rfl rfl⟩

end Commission.Host
