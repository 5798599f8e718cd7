import Commission.Library.AppendRecords
import Commission.Gpu.LateInit
import Commission.Gpu.Pipeline

/-! The invariant which links the operations of a batch: before each filter, every
seed of its input has the octaves which the filter samples. -/
namespace Commission

open AtomicAppend ThreadPool

variable {F ρ : Type}

section Frame

/-- What a filter with these outputs leaves alone. -/
structure Frame (outputs : OutputBuffer) (d m : Device F) : Prop where
  seeds : m.seeds = d.seeds
  results : m.results = d.results
  initFlags : m.initFlags = d.initFlags
  batch : m.batch = d.batch
  lens : ∀ id, id ≠ outputs.len → m.lens id = d.lens id

theorem Frame.refl (outputs : OutputBuffer) (d : Device F) : Frame outputs d d :=
  ⟨rfl, rfl, rfl, rfl, fun _ _ => rfl⟩

theorem Frame.setLen {outputs : OutputBuffer} {d m : Device F} (hFrame : Frame outputs d m)
    (len : ℕ) : Frame outputs d (outputs.positions.setLen m len) where
  seeds := hFrame.seeds
  results := hFrame.results
  initFlags := hFrame.initFlags
  batch := hFrame.batch
  lens id hOther := (Function.update_of_ne hOther _ _).trans (hFrame.lens id hOther)

theorem Frame.store {outputs : OutputBuffer} {d m : Device F} (hFrame : Frame outputs d m)
    (slot : ℕ) (out : Cell SeedPos) : Frame outputs d (outputs.positions.store m slot out) where
  seeds := hFrame.seeds
  results := hFrame.results
  initFlags := hFrame.initFlags
  batch := hFrame.batch
  lens := hFrame.lens

/-- A record of the batch whose seed index has a property. -/
def Good (P : ℕ → Prop) (batch : ℕ) (cell : Cell SeedPos) : Prop :=
  cell.batch = batch ∧ P cell.value.seedIndex

/-- The record which a filter writes is of the running batch and keeps the seed. -/
def KeepsSeed (K : Kernel (Device F) ρ (ℕ × ℕ) (Cell SeedPos)) (seedIndex : ρ → ℕ) : Prop :=
  ∀ m record item out, K.test m record item = some out →
    out.batch = m.batch ∧ out.value.seedIndex = seedIndex record

theorem stamp_eq_some {α : Type} {d : Device F} {value : Option α} {out : Cell α}
    (hStamp : stamp d value = some out) : value = some out.value ∧ out.batch = d.batch := by
  obtain ⟨kept, rfl, rfl⟩ := Option.map_eq_some_iff.mp hStamp
  exact ⟨rfl, rfl⟩

variable {inputs outputs : OutputBuffer} {n : ℕ} {d : Device F} {P : ℕ → Prop}

/-- A filter hands a property of the seed index from its inputs to its outputs,
also where these lie over the inputs. -/
theorem carries_of_keepsSeed {K : Kernel (Device F) SeedPos (ℕ × ℕ) (Cell SeedPos)}
    (hOutput : K.output = outputs.positions)
    (hFetch : ∀ m i, K.fetch m i = (m.positions inputs.data i).value)
    (hKeeps : KeepsSeed K SeedPos.seedIndex) :
    Carries K n
      (fun m => Frame outputs d m ∧ ∀ i < n, Good P d.batch (m.positions inputs.data i))
      (fun record => P record.seedIndex) (Good P d.batch) where
  setLen m len hMem := by
    rw [hOutput]
    exact ⟨hMem.1.setLen len, hMem.2⟩
  store m slot out hMem hOut := by
    rw [hOutput]
    refine ⟨hMem.1.store slot out, fun i hi => ?_⟩
    by_cases hBuffer : inputs.data = outputs.data
    · simp only [OutputBuffer.positions, hBuffer, Function.update_self]
      by_cases hSlot : i = slot
      · rw [hSlot, Function.update_self]
        exact hOut
      · rw [Function.update_of_ne hSlot, ← hBuffer]
        exact hMem.2 i hi
    · simp only [OutputBuffer.positions, Function.update_of_ne hBuffer]
      exact hMem.2 i hi
  fetch m i hMem hi := by
    rw [hFetch]
    exact (hMem.2 i hi).2
  test m record item out hMem hRecord hTest := by
    obtain ⟨hBatch, hSeed⟩ := hKeeps m record item out hTest
    exact ⟨hBatch.trans hMem.1.batch, hSeed ▸ hRecord⟩

/-- The same for a filter whose inputs are the seed indices themselves. -/
theorem carries_of_seeds {K : Kernel (Device F) ℕ (ℕ × ℕ) (Cell SeedPos)}
    (hOutput : K.output = outputs.positions) (hFetch : ∀ m i, K.fetch m i = i)
    (hKeeps : KeepsSeed K id) (hSeeds : ∀ s < n, P s) :
    Carries K n (Frame outputs d) P (Good P d.batch) where
  setLen m len hMem := by
    rw [hOutput]
    exact hMem.setLen len
  store m slot out hMem hOut := by
    rw [hOutput]
    exact hMem.store slot out
  fetch m i hMem hi := by
    rw [hFetch]
    exact hSeeds i hi
  test m record item out hMem hRecord hTest := by
    obtain ⟨hBatch, hSeed⟩ := hKeeps m record item out hTest
    rw [id_eq] at hSeed
    exact ⟨hBatch.trans hMem.batch, hSeed ▸ hRecord⟩

end Frame

section Keeps

/-- A stamped output keeps the seed index if the value before the stamp does. -/
theorem keepsSeed_of_stamp {K : Kernel (Device F) ρ (ℕ × ℕ) (Cell SeedPos)} {seedIndex : ρ → ℕ}
    {value : Device F → ρ → ℕ × ℕ → Option SeedPos}
    (hTest : ∀ m record item, K.test m record item = stamp m (value m record item))
    (hValue : ∀ m record item out, value m record item = some out →
      out.seedIndex = seedIndex record) : KeepsSeed K seedIndex := by
  intro m record item out hOut
  rw [hTest] at hOut
  obtain ⟨hKept, hBatch⟩ := stamp_eq_some hOut
  exact ⟨hBatch, hValue m record item out.value hKept⟩

variable [Arith F]

theorem KernelFilterGradVecs1.keepsSeed (large : Bool) (outputs : OutputBuffer) :
    KeepsSeed (kernel (F := F) large outputs) id := by
  apply keepsSeed_of_stamp (fun _ _ _ => rfl)
  intro m seedIndex window out hOut
  obtain ⟨-, hKept⟩ := Option.ite_none_right_eq_some.mp hOut
  cases hKept
  rfl

theorem KernelFilterGradVecs2.keepsSeed (large unbound : Bool) (inputs outputs : OutputBuffer) :
    KeepsSeed (kernel (F := F) large unbound inputs outputs) SeedPos.seedIndex := by
  apply keepsSeed_of_stamp (fun _ _ _ => rfl)
  intro m input tile out hOut
  obtain ⟨-, hKept⟩ := Option.ite_none_right_eq_some.mp hOut
  cases hKept
  rfl

theorem KernelFilter2Pair.keepsSeed {large : Bool} (T : KernelFilter2.Template large) (half : Half)
    (inputs outputs : OutputBuffer) :
    KeepsSeed (kernel (F := F) T half inputs outputs) SeedPos.seedIndex := by
  apply keepsSeed_of_stamp (fun _ _ _ => rfl)
  intro m input item out hOut
  obtain ⟨-, hKept⟩ := Option.ite_none_right_eq_some.mp hOut
  cases hKept
  rfl

theorem KernelFilter2.keepsSeed {large : Bool} (T : Template large) (inputs outputs : OutputBuffer) :
    KeepsSeed (kernel (F := F) T inputs outputs) SeedPos.seedIndex := by
  apply keepsSeed_of_stamp (fun _ _ _ => rfl)
  intro m input item out hOut
  obtain ⟨-, hKept⟩ := Option.ite_none_right_eq_some.mp hOut
  cases hKept
  rfl

end Keeps

section Moments

/-- A filter at some moment of its run, for a property of the seed indices in its
inputs. -/
structure FilterMoment (outputs : OutputBuffer) (members : List Member) (P : ℕ → Prop)
    (d : Device F) (moment : Snapshot F) : Prop where
  frame : Frame outputs d moment.device
  inits : moment.inits = []
  access : ∀ access ∈ moment.accesses,
    (∃ buffer index, access = .input buffer index ∧ index < buffer.maxLen ∧
      (moment.device.positions buffer.data index).batch = d.batch) ∨
    ∃ s member, access = .octave s member ∧ P s ∧ member ∈ members
  filled : moment.finished → ∀ slot < outputs.maxLen, slot < moment.device.lens outputs.len →
    Good P d.batch (moment.device.positions outputs.data slot)

variable {K : Kernel (Device F) ρ (ℕ × ℕ) (Cell SeedPos)} {n : ℕ} {outputs : OutputBuffer}
  {inputs : Option OutputBuffer} {seedIndex : ρ → ℕ} {members : List Member} {P : ℕ → Prop}
  {d : Device F} {moment : Snapshot F}

theorem filterMoment_of_carries {I : Device F → Prop} {R : ρ → Prop}
    (hCarries : Carries K n I R (Good P d.batch)) (hOutput : K.output = outputs.positions)
    (hLen : d.lens outputs.len = 0) (hMem : I d) (hFrame : ∀ m, I m → Frame outputs d m)
    (hInputs : ∀ m, I m → ∀ buffer, inputs = some buffer → ∀ i < n,
      i < buffer.maxLen ∧ (m.positions buffer.data i).batch = d.batch)
    (hSeeds : ∀ record, R record → P (seedIndex record))
    (hExecutes : ExecutesFilter K n inputs seedIndex members d moment) :
    FilterMoment outputs members P d moment := by
  obtain ⟨schedule, pool, hRun, rfl⟩ := hExecutes
  have hInv := run_recordInv hCarries hMem hRun
  refine ⟨hFrame _ hInv.mem, rfl, ?_, fun hFinished => ?_⟩
  · rintro access ⟨t, ht, hAccess⟩
    have hHolds := hInv.locals t ht
    cases hLocal : pool.locals t with
    | loop i =>
        rw [hLocal, filterAccesses] at hAccess
        split at hAccess
        · next hIndex =>
            obtain ⟨buffer, hBuffer, rfl⟩ := List.mem_map.mp hAccess
            have hRead := hInputs _ hInv.mem buffer (Option.mem_toList.mp hBuffer) _ hIndex.2
            exact .inl ⟨buffer, _, rfl, hRead⟩
        · cases hAccess
    | work i record items =>
        rw [hLocal] at hAccess hHolds
        cases items with
        | nil => cases hAccess
        | cons item items =>
            obtain ⟨member, hMember, rfl⟩ := List.mem_map.mp hAccess
            exact .inr ⟨_, member, rfl, hSeeds record hHolds, hMember⟩
    | reserve | store =>
        rw [hLocal] at hAccess
        cases hAccess
  · have hMax : K.output.maxLen ≤ 2 ^ 32 := by
      rw [hOutput]
      exact outputs.maxLen_lt.le
    have hZero : K.output.len d = 0 := by
      rw [hOutput]
      exact hLen
    have hFilled := (hCarries.completes hMax hMem hZero ⟨schedule, pool, hRun, hFinished, rfl⟩).2
    rw [hOutput] at hFilled
    exact hFilled

/-- The filters of positions. -/
theorem filterMoment_of_keepsSeed {K : Kernel (Device F) SeedPos (ℕ × ℕ) (Cell SeedPos)}
    {inputs : OutputBuffer} (hOutput : K.output = outputs.positions)
    (hFetch : ∀ m i, K.fetch m i = (m.positions inputs.data i).value)
    (hKeeps : KeepsSeed K SeedPos.seedIndex) (hLen : d.lens outputs.len = 0)
    (hFits : n ≤ inputs.maxLen) (hEntries : ∀ i < n, Good P d.batch (d.positions inputs.data i))
    (hExecutes : ExecutesFilter K n (some inputs) SeedPos.seedIndex members d moment) :
    FilterMoment outputs members P d moment := by
  refine filterMoment_of_carries (carries_of_keepsSeed hOutput hFetch hKeeps) hOutput hLen
    ⟨.refl outputs d, hEntries⟩ (fun _ hMem => hMem.1) (fun m hMem buffer hBuffer i hi => ?_)
    (fun _ hRecord => hRecord) hExecutes
  cases hBuffer
  exact ⟨hi.trans_le hFits, (hMem.2 i hi).1⟩

/-- The filter of seeds. -/
theorem filterMoment_of_seeds {K : Kernel (Device F) ℕ (ℕ × ℕ) (Cell SeedPos)}
    (hOutput : K.output = outputs.positions) (hFetch : ∀ m i, K.fetch m i = i)
    (hKeeps : KeepsSeed K id) (hLen : d.lens outputs.len = 0) (hSeeds : ∀ s < n, P s)
    (hExecutes : ExecutesFilter K n none id members d moment) :
    FilterMoment outputs members P d moment := by
  refine filterMoment_of_carries (carries_of_seeds hOutput hFetch hKeeps hSeeds) hOutput hLen
    (.refl outputs d) (fun _ hMem => hMem) (fun m hMem buffer hNone => ?_)
    (fun _ hRecord => hRecord) hExecutes
  cases hNone

end Moments

section Entries

/-- What the entries of a buffer say, as far as they were written. -/
def Entries (d : Device F) (buffer : OutputBuffer) (P : ℕ → Prop) : Prop :=
  ∀ i < buffer.maxLen, i < d.lens buffer.len → Good P d.batch (d.positions buffer.data i)

/-- The order in which the counters are used. -/
def LenId.rank : LenId → ℕ
  | filterSeeds => 0
  | filterGradvecs1 => 1
  | filter2_0a => 2
  | filterGradvecs2 => 3
  | filter2_0b => 4
  | filter2 index => 5 + index

/-- The counters from a rank on have not been used yet. -/
def ZeroFrom (rank : ℕ) (d : Device F) : Prop :=
  ∀ id : LenId, rank ≤ id.rank → d.lens id = 0

variable {d : Device F}

theorem Entries.imp {buffer : OutputBuffer} {P Q : ℕ → Prop} (hImp : ∀ s, P s → Q s)
    (hEntries : Entries d buffer P) : Entries d buffer Q := by
  intro i hMax hLen
  obtain ⟨hBatch, hSeed⟩ := hEntries i hMax hLen
  exact ⟨hBatch, hImp _ hSeed⟩

/-- The entries of an input which fits into its buffer. -/
theorem Entries.below {buffer : OutputBuffer} {P : ℕ → Prop} (hEntries : Entries d buffer P)
    (hFits : d.lens buffer.len ≤ buffer.maxLen) :
    ∀ i < d.lens buffer.len, Good P d.batch (d.positions buffer.data i) :=
  fun i hi => hEntries i (hi.trans_le hFits) hi

/-- What a filter leaves for the next operation. -/
theorem FilterMoment.leaves {outputs : OutputBuffer} {members : List Member} {P Q : ℕ → Prop}
    {moment : Snapshot F} {rank : ℕ} (hMoment : FilterMoment outputs members P d moment)
    (hFinished : moment.finished) (hZero : ZeroFrom rank d) (hRank : outputs.len.rank = rank)
    (hImp : ∀ s, P s → Q s) :
    ZeroFrom (rank + 1) moment.device ∧ Entries moment.device outputs Q := by
  refine ⟨fun id hId => ?_, Entries.imp hImp fun i hMax hLen => ?_⟩
  · have hOther : id ≠ outputs.len := by
      rintro rfl
      omega
    rw [hMoment.frame.lens id hOther]
    exact hZero id (by omega)
  · rw [hMoment.frame.batch]
    exact hMoment.filled hFinished i hMax hLen

end Entries

section Invariant

variable [Arith F]

/-- The calls which have been made for a seed after the first `stage` late stages. -/
def readyCalls : ℕ → List InitCall
  | 0 => kernelCalls
  | stage + 1 => readyCalls stage ++ lateCalls (stage + 1)

/-- A seed of the running batch with the octaves of these stages. -/
structure Ready (cfg : Config) (d : Device F) (stage s : ℕ) : Prop where
  lt : s < KernelSeed1.threadsPerRun
  written : (d.seeds s).batch = d.batch
  octaves : ∀ call ∈ readyCalls stage, d.HoldsOctave cfg.fuel cfg.large s call.member

/-- Such a seed once flags are in use. -/
structure Flagged (cfg : Config) (d : Device F) (stage s : ℕ) : Prop extends
    Ready cfg d stage s where
  flag : d.initFlags s = stage

/-- What holds before an operation of a batch. -/
def Before (cfg : Config) (d : Device F) : Op → Prop
  | .resetLens => True
  | .filterSeeds => ZeroFrom 0 d
  | .initSeeds => ZeroFrom 1 d ∧ ∀ s < KernelSeed1.threadsPerRun, s < d.lens outputsFilterSeeds.len →
      (d.seeds s).batch = d.batch
  | .filterGradvecs1 => ZeroFrom 1 d ∧ ∀ s < KernelSeed1.threadsPerRun,
      s < d.lens outputsFilterSeeds.len → Ready cfg d 0 s
  | .filter2_0a => ZeroFrom 2 d ∧ Entries d outputsFilterGradvecs1 (Ready cfg d 0)
  | .filterGradvecs2 => ZeroFrom 3 d ∧ Entries d outputsFilter2_0a (Ready cfg d 0)
  | .filter2_0b => ZeroFrom 4 d ∧ Entries d outputsFilterGradvecs2 (Ready cfg d 0)
  | .resetFlags => ZeroFrom 5 d ∧ Entries d outputsFilter2_0b (Ready cfg d 0)
  | .initLate k => ZeroFrom (5 + k) d ∧ Entries d (filter2Inputs k) (Flagged cfg d k)
  | .filter2 index => ZeroFrom (5 + index) d ∧
      Entries d (filter2Inputs index) (Flagged cfg d (index + 1))

variable {cfg : Config} {d m : Device F} {stage s : ℕ}

theorem Device.HoldsOctave.congr {fuel : ℕ} {large : Bool} {member : Member}
    (hSeeds : m.seeds = d.seeds) (hResults : m.results = d.results) (hBatch : m.batch = d.batch)
    (hHolds : d.HoldsOctave fuel large s member) : m.HoldsOctave fuel large s member := by
  obtain ⟨noise, hNoise, hWords⟩ := hHolds
  refine ⟨noise, by rw [hSeeds]; exact hNoise, fun word hWord => ?_⟩
  rw [hResults, hBatch]
  exact hWords word hWord

theorem Ready.congr (hSeeds : m.seeds = d.seeds) (hResults : m.results = d.results)
    (hBatch : m.batch = d.batch) (hReady : Ready cfg d stage s) : Ready cfg m stage s where
  lt := hReady.lt
  written := by
    rw [hSeeds, hBatch]
    exact hReady.written
  octaves call hCall := (hReady.octaves call hCall).congr hSeeds hResults hBatch

theorem Ready.frame {outputs : OutputBuffer} (hFrame : Frame outputs d m)
    (hReady : Ready cfg d stage s) : Ready cfg m stage s :=
  hReady.congr hFrame.seeds hFrame.results hFrame.batch

theorem Flagged.frame {outputs : OutputBuffer} (hFrame : Frame outputs d m)
    (hFlagged : Flagged cfg d stage s) : Flagged cfg m stage s where
  toReady := hFlagged.toReady.frame hFrame
  flag := by
    rw [hFrame.initFlags]
    exact hFlagged.flag

end Invariant

section Operations

variable [Arith F] {cfg : Config} {d : Device F} {moment : Snapshot F}

/-- `filter_seeds` counts and writes seeds of the running batch. -/
theorem filterSeeds_next (hBefore : Before cfg d .filterSeeds)
    (hExecutes : Executes cfg d moment .filterSeeds) (hFinished : moment.finished) :
    Before cfg moment.device .initSeeds := by
  obtain ⟨startSeed, schedule, pool, hRun, rfl⟩ := hExecutes
  have hCarries : Carries (KernelFilterSeeds.kernel cfg.large startSeed outputsFilterSeeds)
      KernelFilterSeeds.threadsPerRun
      (fun m : Device F => m.batch = d.batch ∧ ∀ id, id ≠ outputsFilterSeeds.len → m.lens id = d.lens id)
      (fun _ => True) (fun out => out.batch = d.batch) := by
    refine ⟨fun m len hMem => ⟨hMem.1, fun id hOther => ?_⟩, fun m slot out hMem _ => hMem,
      fun _ _ _ _ => trivial, fun m seed item out hMem _ hTest => ?_⟩
    · exact (Function.update_of_ne hOther _ _).trans (hMem.2 id hOther)
    · exact (stamp_eq_some hTest).2.trans hMem.1
  obtain ⟨⟨hBatch, hLens⟩, hFilled⟩ := hCarries.completes outputsFilterSeeds.maxLen_lt.le
    ⟨rfl, fun _ _ => rfl⟩ (hBefore .filterSeeds (Nat.zero_le 0))
    ⟨schedule, pool, hRun, hFinished, rfl⟩
  refine ⟨fun id hId => ?_, fun s hMax hLen => ?_⟩
  · have hOther : id ≠ outputsFilterSeeds.len := by
      rintro rfl
      exact absurd hId (by decide)
    exact (hLens id hOther).trans (hBefore id (Nat.zero_le _))
  · exact (hFilled s hMax hLen).trans hBatch.symm

/-- `init_seeds` leaves the first octaves of every seed. -/
theorem initSeeds_next (hBefore : Before cfg d .initSeeds)
    (hExecutes : Executes cfg d moment .initSeeds) (hFinished : moment.finished) :
    Before cfg moment.device .filterGradvecs1 := by
  obtain ⟨shared, schedule, pool, hRun, rfl⟩ := hExecutes
  obtain ⟨hFrame, hOctaves⟩ := KernelSeed1.kernel_completes d shared
    ⟨schedule, pool, hRun, hFinished, rfl⟩
  obtain ⟨hZero, hWritten⟩ := hBefore
  have hLens : pool.mem.device.lens = d.lens := by rw [hFrame]
  have hSeeds : pool.mem.device.seeds = d.seeds := by rw [hFrame]
  have hBatch : pool.mem.device.batch = d.batch := by rw [hFrame]
  constructor
  · intro id hId
    exact (congrFun hLens id).trans (hZero id hId)
  · intro s hs hLen
    have hInput : s < d.lens outputsFilterSeeds.len := by
      rw [← hLens]
      exact hLen
    have hStamp : (pool.mem.device.seeds s).batch = pool.mem.device.batch := by
      rw [hSeeds, hBatch]
      exact hWritten s hs hInput
    exact ⟨hs, hStamp, hOctaves s hInput hs⟩

theorem filterGradvecs1_moment (hBefore : Before cfg d .filterGradvecs1)
    (hFits : InputFits .filterGradvecs1 d) (hExecutes : Executes cfg d moment .filterGradvecs1) :
    FilterMoment outputsFilterGradvecs1 KernelFilterGradVecs1.members (Ready cfg d 0) d moment :=
  filterMoment_of_seeds rfl (fun _ _ => rfl) (KernelFilterGradVecs1.keepsSeed _ _)
    (hBefore.1 .filterGradvecs1 (Nat.le_refl 1))
    (fun s hs => hBefore.2 s (hs.trans_le (hFits (by decide) _ rfl)) hs) hExecutes

theorem filter2_0a_moment (hBefore : Before cfg d .filter2_0a) (hFits : InputFits .filter2_0a d)
    (hExecutes : Executes cfg d moment .filter2_0a) :
    FilterMoment outputsFilter2_0a (KernelFilter2Pair.members .a) (Ready cfg d 0) d moment :=
  filterMoment_of_keepsSeed rfl (fun _ _ => rfl) (KernelFilter2Pair.keepsSeed _ _ _ _)
    (hBefore.1 .filter2_0a (Nat.le_refl 2)) (hFits (by decide) _ rfl)
    (hBefore.2.below (hFits (by decide) _ rfl)) hExecutes

theorem filterGradvecs2_moment (hBefore : Before cfg d .filterGradvecs2)
    (hFits : InputFits .filterGradvecs2 d) (hExecutes : Executes cfg d moment .filterGradvecs2) :
    FilterMoment outputsFilterGradvecs2 KernelFilterGradVecs2.members (Ready cfg d 0) d moment :=
  filterMoment_of_keepsSeed rfl (fun _ _ => rfl) (KernelFilterGradVecs2.keepsSeed _ _ _ _)
    (hBefore.1 .filterGradvecs2 (Nat.le_refl 3)) (hFits (by decide) _ rfl)
    (hBefore.2.below (hFits (by decide) _ rfl)) hExecutes

theorem filter2_0b_moment (hBefore : Before cfg d .filter2_0b) (hFits : InputFits .filter2_0b d)
    (hExecutes : Executes cfg d moment .filter2_0b) :
    FilterMoment outputsFilter2_0b (KernelFilter2Pair.members .b) (Ready cfg d 0) d moment :=
  filterMoment_of_keepsSeed rfl (fun _ _ => rfl) (KernelFilter2Pair.keepsSeed _ _ _ _)
    (hBefore.1 .filter2_0b (Nat.le_refl 4)) (hFits (by decide) _ rfl)
    (hBefore.2.below (hFits (by decide) _ rfl)) hExecutes

theorem filter2_moment {index : Fin 4} (hBefore : Before cfg d (.filter2 index))
    (hFits : InputFits (.filter2 index) d) (hExecutes : Executes cfg d moment (.filter2 index)) :
    FilterMoment (outputsFilter2 index) (KernelFilter2.members (filter2Runs cfg.large index))
      (Flagged cfg d (index + 1)) d moment :=
  filterMoment_of_keepsSeed rfl (fun _ _ => rfl) (KernelFilter2.keepsSeed _ _ _)
    (hBefore.1 _ (Nat.le_refl (5 + index.val))) (hFits (by simp) _ rfl)
    (hBefore.2.below (hFits (by simp) _ rfl)) hExecutes

/-- The loop variables of the late kernel do not wrap around. -/
theorem filter2Inputs_bound : ∀ k, (filter2Inputs k).maxLen + KernelSeed1.lateThreads ≤ 2 ^ 32 := by
  decide

/-- `init_seeds_late_<k + 1>` adds the octaves of its stage for the seeds of its
inputs and moves their flags on. -/
theorem initLate_next {k : Fin 4} (hBefore : Before cfg d (.initLate k))
    (hFits : InputFits (.initLate k) d) (hExecutes : Executes cfg d moment (.initLate k))
    (hFinished : moment.finished) : Before cfg moment.device (.filter2 k) := by
  obtain ⟨schedule, pool, hRun, rfl⟩ := hExecutes
  obtain ⟨hZero, hEntries⟩ := hBefore
  have hLength : d.lens (filter2Inputs k).len ≤ (filter2Inputs k).maxLen := hFits (by simp) _ rfl
  have hInputs := hEntries.below hLength
  have hBound : d.lens (filter2Inputs k).len + KernelSeed1.lateThreads ≤ 2 ^ 32 :=
    (Nat.add_le_add_right hLength _).trans (filter2Inputs_bound k)
  obtain ⟨hMem, hDone⟩ := KernelSeed1.lateKernel_completes (Nat.succ_pos k) hBound
    (fun i hi => (hInputs i hi).2.flag) ⟨schedule, pool, hRun, hFinished, rfl⟩
  have hLens : pool.mem.lens = d.lens := by rw [hMem.frame]
  have hSeeds : pool.mem.seeds = d.seeds := by rw [hMem.frame]
  have hPositions : pool.mem.positions = d.positions := by rw [hMem.frame]
  have hBatch : pool.mem.batch = d.batch := by rw [hMem.frame]
  refine ⟨fun id hId => (congrFun hLens id).trans (hZero id hId), fun i hMax hLen => ?_⟩
  change i < pool.mem.lens (filter2Inputs k).len at hLen
  rw [hLens] at hLen
  obtain ⟨hStamp, hSeed⟩ := hInputs i hLen
  obtain ⟨hFlag, hOctaves⟩ := hDone i hLen
  change Good _ pool.mem.batch (pool.mem.positions (filter2Inputs k).data i)
  rw [hPositions, hBatch]
  refine ⟨hStamp, ⟨hSeed.lt, ?_, fun call hCall => ?_⟩, hFlag⟩
  · rw [hSeeds, hBatch]
    exact hSeed.written
  · rcases List.mem_append.mp hCall with hBefore | hHere
    · refine Device.holdsOctave_of_words fun word hWord => hMem.words _ _ _ ?_
      exact (hSeed.octaves call hBefore).word hWord
    · exact hOctaves call hHere

/-- Each operation leaves what the next one needs. -/
theorem before_next {op next : Op} (hBefore : Before cfg d op) (hFits : InputFits op d)
    (hExecutes : Executes cfg d moment op) (hFinished : moment.finished)
    (hNext : op.next = some next) : Before cfg moment.device next := by
  cases op with
  | resetLens =>
      cases hNext
      obtain rfl := hExecutes
      exact fun _ _ => rfl
  | filterSeeds =>
      cases hNext
      exact filterSeeds_next hBefore hExecutes hFinished
  | initSeeds =>
      cases hNext
      exact initSeeds_next hBefore hExecutes hFinished
  | filterGradvecs1 =>
      cases hNext
      have hMoment := filterGradvecs1_moment hBefore hFits hExecutes
      exact hMoment.leaves hFinished hBefore.1 rfl fun _ hReady => hReady.frame hMoment.frame
  | filter2_0a =>
      cases hNext
      have hMoment := filter2_0a_moment hBefore hFits hExecutes
      exact hMoment.leaves hFinished hBefore.1 rfl fun _ hReady => hReady.frame hMoment.frame
  | filterGradvecs2 =>
      cases hNext
      have hMoment := filterGradvecs2_moment hBefore hFits hExecutes
      exact hMoment.leaves hFinished hBefore.1 rfl fun _ hReady => hReady.frame hMoment.frame
  | filter2_0b =>
      cases hNext
      have hMoment := filter2_0b_moment hBefore hFits hExecutes
      exact hMoment.leaves hFinished hBefore.1 rfl fun _ hReady => hReady.frame hMoment.frame
  | resetFlags =>
      cases hNext
      obtain rfl := hExecutes
      refine ⟨hBefore.1, Entries.imp (fun s hReady => ?_) hBefore.2⟩
      exact ⟨Ready.congr (d := d) rfl rfl rfl hReady, if_pos hReady.lt⟩
  | initLate k =>
      cases hNext
      exact initLate_next hBefore hFits hExecutes hFinished
  | filter2 index =>
      have hMoment := filter2_moment hBefore hFits hExecutes
      have hLeaves := hMoment.leaves hFinished hBefore.1 rfl
        fun _ hFlagged => hFlagged.frame hMoment.frame
      match index, hNext with
      | 0, hNext | 1, hNext | 2, hNext =>
          cases hNext
          exact hLeaves
      | 3, hNext => cases hNext

theorem before_of_reach {Ok : Op → Device F → Prop} (hOk : ∀ op d, Ok op d → InputFits op d) {op : Op}
    {inits : List (Op × ℕ)} (hReach : Reach cfg Ok op d inits) : Before cfg d op := by
  induction hReach with
  | start hOld => trivial
  | step hReach hHere hExecutes hFinished hNext ih =>
      exact before_next ih (hOk _ _ hHere) hExecutes hFinished hNext
  | batch hReach hHere hExecutes hFinished hLast ih => trivial

end Operations

end Commission
