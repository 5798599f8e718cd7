import Commission.Gpu.BatchRefinement

/-! Soundness of a batch. The lemmas about single operations hold for every order of
their steps; as an entry is read and written here as a whole, the results are stated
for batches in which no warp of `filter_2_01b` replaces an entry which another one has
still to read. -/
namespace Commission

open AtomicAppend ThreadPool

variable {F ρ : Type}

/-- The entries of a buffer, as far as they were written, are in the list. -/
def Device.Within (d : Device F) (buffer : OutputBuffer) (found : List Candidate) : Prop :=
  ∀ i < buffer.maxLen, i < d.lens buffer.len → d.candidate (d.positions buffer.data i).value ∈ found

/-- What the search says about the buffers before an operation, or at the end. -/
def Device.Searched [Arith F] (cfg : Config) (startSeed : BitVec 64) (d : Device F) :
    Option Op → Prop
  | some .resetLens | some .filterSeeds => True
  | some .initSeeds | some .filterGradvecs1 => ∀ s < outputsFilterSeeds.maxLen,
      s < d.lens outputsFilterSeeds.len → (d.seeds s).value ∈ Search.batchSeeds F cfg startSeed
  | some .filter2_0a =>
      d.Within outputsFilterGradvecs1 (Search.batch (Search.filterGradvecs1 F cfg) startSeed)
  | some .filterGradvecs2 =>
      d.Within outputsFilter2_0a (Search.batch (Search.filter2_0a F cfg) startSeed)
  | some .filter2_0b =>
      d.Within outputsFilterGradvecs2 (Search.batch (Search.filterGradvecs2 F cfg) startSeed)
  | some .resetFlags => d.Within outputsFilter2_0b (Search.batch (Search.filter2_0b F cfg) startSeed)
  | some (.initLate k) | some (.filter2 k) =>
      d.Within (filter2Inputs k) (Search.batch (fun seed => Search.filter2 F cfg seed k) startSeed)
  | none => d.Within (outputsFilter2 3) (Search.batch (Search.search F cfg) startSeed)

section Filters

variable {K : Kernel (Device F) ρ (ℕ × ℕ) (Cell SeedPos)} {outputs : OutputBuffer} {n : ℕ}
  {items : List (ℕ × ℕ)} {d : Device F} {σ : Type} (viewIn : ρ → σ)
  {f : σ → ℕ × ℕ → Option Candidate} {inputs : List σ}

/-- A filter with separate buffers writes only what is in the image of its inputs. -/
theorem ExecutesFilter.within_image (hOutput : K.output = outputs.positions)
    (hFits : K.Fits n) (hSeparate : K.Separate)
    (hTotal : K.total n = Multiset.range n ×ˢ (items : Multiset (ℕ × ℕ)))
    (hLen : d.lens outputs.len = 0)
    (hShows : Shows K n items d viewIn (fun cell => d.candidate cell.value) f)
    (hInputs : ∀ i < n, viewIn (K.fetch d i) ∈ inputs) {buffer : Option OutputBuffer}
    {seedIndex : ρ → ℕ} {members : List Member} {moment : Snapshot F}
    (hExecutes : ExecutesFilter K n buffer seedIndex members d moment)
    (hFinished : moment.finished) (hFrame : Frame outputs d moment.device) :
    moment.device.Within outputs (image items f inputs) := by
  obtain ⟨schedule, pool, hRun, rfl⟩ := hExecutes
  intro slot hSlot hBelow
  have hMax : K.output.maxLen < 2 ^ 32 := by
    rw [hOutput]
    exact outputs.maxLen_lt
  have hZero : K.output.len d = 0 := by
    rw [hOutput]
    exact hLen
  have hMem := hShows.mem_image hFits hSeparate.toStable hTotal hMax hZero
    (along_readsOriginal hSeparate) hRun hFinished slot (by rw [hOutput]; exact hSlot)
    (by rw [hOutput]; exact hBelow)
  rw [hOutput] at hMem
  have hSame : pool.mem.candidate = d.candidate := by
    funext entry
    rw [Device.candidate, Device.candidate, hFrame.seeds]
  change pool.mem.candidate _ ∈ _
  rw [hSame]
  refine image_subset items f (fun input hInput => ?_) hMem
  obtain ⟨i, hi, rfl⟩ := List.mem_map.mp hInput
  exact hInputs i (List.mem_range.mp hi)

end Filters

section Operations

variable [Arith F] {cfg : Config} {startSeed : BitVec 64} {inOrder : Prop} {d d' : Device F}
  {moment : Snapshot F}

theorem filterSeeds_searched (hZero : ZeroFrom 0 d)
    (hCompletes : Op.filterSeeds.Completes cfg startSeed inOrder d d') :
    d'.Searched cfg startSeed (some .initSeeds) := by
  obtain ⟨schedule, pool, hRun, hFinished, rfl⟩ := hCompletes
  intro s hMax hBelow
  have hMem := (KernelFilterSeeds.shows cfg.large startSeed d).mem_image
    (KernelFilterSeeds.fits cfg.large startSeed)
    (KernelFilterSeeds.separate cfg.large startSeed).toStable
    (KernelFilterSeeds.total_eq cfg.large startSeed _) outputsFilterSeeds.maxLen_lt
    (hZero .filterSeeds (Nat.zero_le 0))
    (along_readsOriginal (KernelFilterSeeds.separate cfg.large startSeed)) hRun hFinished s
    hMax hBelow
  rw [Search.batchSeeds_eq]
  exact hMem

theorem filterGradvecs1_searched (hBefore : Before cfg d .filterGradvecs1)
    (hInputs : InputFits .filterGradvecs1 d)
    (hSearched : d.Searched cfg startSeed (some .filterGradvecs1))
    (hExecutes : Executes cfg d moment .filterGradvecs1) (hFinished : moment.finished) :
    moment.device.Searched cfg startSeed (some .filter2_0a) := by
  have hLength : d.lens outputsFilterSeeds.len ≤ outputsFilterSeeds.maxLen :=
    hInputs (by decide) _ rfl
  have hMoment := filterGradvecs1_moment hBefore hInputs hExecutes
  change moment.device.Within _ _
  rw [Search.batch_filterGradvecs1]
  refine ExecutesFilter.within_image (fun s => (d.seeds s).value) rfl
    (KernelFilterGradVecs1.fits _ _ (hLength.trans_lt (by decide)))
    (KernelFilterGradVecs1.separate _ _) (KernelFilterGradVecs1.total_eq _ _ _)
    (hBefore.1 .filterGradvecs1 (Nat.le_refl 1)) (fun s hs place _ => ?_)
    (fun s hs => hSearched s (hs.trans_le hLength) hs) hExecutes hFinished
    hMoment.frame
  exact KernelFilterGradVecs1.map_test _ (hBefore.2 s (hs.trans_le hLength) hs) place

theorem filter2_0a_searched (hBefore : Before cfg d .filter2_0a) (hInputs : InputFits .filter2_0a d)
    (hSearched : d.Searched cfg startSeed (some .filter2_0a))
    (hExecutes : Executes cfg d moment .filter2_0a) (hFinished : moment.finished) :
    moment.device.Searched cfg startSeed (some .filterGradvecs2) := by
  have hLength : d.lens outputsFilterGradvecs1.len ≤ outputsFilterGradvecs1.maxLen :=
    hInputs (by decide) _ rfl
  have hMoment := filter2_0a_moment hBefore hInputs hExecutes
  change moment.device.Within _ _
  rw [Search.batch_filter2_0a]
  refine ExecutesFilter.within_image d.candidate rfl
    (KernelFilter2Pair.fits _ _ _ _ (hLength.trans_lt (by decide)))
    (KernelFilter2Pair.separate _ _ (by decide)) (KernelFilter2Pair.total_eq _ _ _ _ _)
    (hBefore.1 .filter2_0a (Nat.le_refl 2)) (fun i hi item _ => ?_)
    (fun i hi => hSearched i (hi.trans_le hLength) hi) hExecutes hFinished hMoment.frame
  exact KernelFilter2Pair.map_test _ _ _ _ (hBefore.2.below hLength i hi).2 item

theorem filterGradvecs2_searched (hBefore : Before cfg d .filterGradvecs2)
    (hInputs : InputFits .filterGradvecs2 d)
    (hSearched : d.Searched cfg startSeed (some .filterGradvecs2))
    (hExecutes : Executes cfg d moment .filterGradvecs2) (hFinished : moment.finished) :
    moment.device.Searched cfg startSeed (some .filter2_0b) := by
  have hLength : d.lens outputsFilter2_0a.len ≤ outputsFilter2_0a.maxLen :=
    hInputs (by decide) _ rfl
  have hMoment := filterGradvecs2_moment hBefore hInputs hExecutes
  change moment.device.Within _ _
  rw [Search.batch_filterGradvecs2]
  refine ExecutesFilter.within_image d.candidate rfl
    (KernelFilterGradVecs2.fits _ _ _ _ (hLength.trans_lt (by decide)))
    (KernelFilterGradVecs2.separate _ _ (by decide)) (KernelFilterGradVecs2.total_eq _ _ _ _ _)
    (hBefore.1 .filterGradvecs2 (Nat.le_refl 3)) (fun i hi place _ => ?_)
    (fun i hi => hSearched i (hi.trans_le hLength) hi) hExecutes hFinished hMoment.frame
  exact KernelFilterGradVecs2.map_test _ _ (hBefore.2.below hLength i hi).2 place

theorem filter2_searched {index : Fin 4} (hBefore : Before cfg d (.filter2 index))
    (hInputs : InputFits (.filter2 index) d)
    (hSearched : d.Searched cfg startSeed (some (.filter2 index)))
    (hExecutes : Executes cfg d moment (.filter2 index)) (hFinished : moment.finished) :
    moment.device.Within (outputsFilter2 index)
      (Search.batch (fun seed => Search.filter2 F cfg seed (index + 1)) startSeed) := by
  have hLength : d.lens (filter2Inputs index).len ≤ (filter2Inputs index).maxLen :=
    hInputs (by simp) _ rfl
  have hShort := filter2_buffers index
  have hMoment := filter2_moment hBefore hInputs hExecutes
  rw [Search.batch_filter2]
  refine ExecutesFilter.within_image d.candidate rfl
    (KernelFilter2.fits _ _ _ (hLength.trans_lt hShort.1))
    (KernelFilter2.separate _ hShort.2) (KernelFilter2.total_eq _ _ _ _)
    (hBefore.1 _ (Nat.le_refl (5 + index.val))) (fun i hi item _ => ?_)
    (fun i hi => hSearched i (hi.trans_le hLength) hi) hExecutes hFinished hMoment.frame
  exact KernelFilter2.map_test _ _ _ (hBefore.2.below hLength i hi).2.toReady item

end Operations

section InPlace

variable [Arith F] {cfg : Config} {startSeed : BitVec 64} {inOrder : Prop} {d d' : Device F}

/-- A count over both octaves of a half keeps a candidate as it is. -/
theorem Search.judge_pair_eq {large : Bool} (T : KernelFilter2.Template large) (half : Half)
    {c kept : Candidate} (hKept : judge F cfg (KernelFilter2Pair.outcome T half) c = some kept) :
    kept = c := by
  obtain ⟨entry, hOutcome, rfl⟩ := Option.map_eq_some_iff.mp hKept
  rw [KernelFilter2Pair.outcome] at hOutcome
  split at hOutcome
  · cases hOutcome
    rfl
  · cases hOutcome

/-- Of the entries of `buffer_2`, those not yet replaced are of `filter_gradvecs_2`,
and those which replace them are so too, and have passed the test. -/
theorem filter2_0b_carries (startSeed : BitVec 64) {n : ℕ} :
    Carries (KernelFilter2_0B.stage cfg.large) n
      (fun m => Frame outputsFilter2_0b d m ∧ ∀ i < n,
        Ready cfg d 0 (m.positions .two i).value.seedIndex ∧ d.candidate (m.positions .two i).value ∈
          Search.batch (Search.filterGradvecs2 F cfg) startSeed)
      (fun record => Ready cfg d 0 record.seedIndex ∧
        d.candidate record ∈ Search.batch (Search.filterGradvecs2 F cfg) startSeed)
      (fun cell => (Ready cfg d 0 cell.value.seedIndex ∧
          d.candidate cell.value ∈ Search.batch (Search.filterGradvecs2 F cfg) startSeed) ∧
        d.candidate cell.value ∈ Search.batch (Search.filter2_0b F cfg) startSeed) where
  setLen m len hMem := ⟨hMem.1.setLen len, hMem.2⟩
  store m slot out hMem hOut := by
    refine ⟨hMem.1.store slot out, fun i hi => ?_⟩
    have hData : ((KernelFilter2_0B.stage (F := F) cfg.large).output.store m slot out).positions .two =
        Function.update (m.positions .two) slot out :=
      outputsFilter2_0b.positions.data_store m slot out
    rw [hData]
    by_cases hSlot : i = slot
    · rw [hSlot, Function.update_self]
      exact hOut.1
    · rw [Function.update_of_ne hSlot]
      exact hMem.2 i hi
  fetch m i hMem hi := hMem.2 i hi
  test m record item out hMem hRecord hTest := by
    have hSame : m.candidate = d.candidate := by
      funext entry
      rw [Device.candidate, Device.candidate, hMem.1.seeds]
    have hMap := KernelFilter2Pair.map_test (KernelFilter2_0B.T cfg.large) KernelFilter2_0B.half
      outputsFilterGradvecs2 outputsFilter2_0b (hRecord.1.frame hMem.1) item
    change (KernelFilter2Pair.kernel _ _ _ _).test m record item = some out at hTest
    rw [hTest, hSame] at hMap
    have hKept : Search.judge F cfg (KernelFilter2Pair.outcome (KernelFilter2_0B.T cfg.large)
        KernelFilter2_0B.half) (d.candidate record) = some (d.candidate out.value) := hMap.symm
    have hIndex := (KernelFilter2Pair.keepsSeed _ _ _ _ m record item out hTest).2
    refine ⟨⟨hIndex ▸ hRecord.1, ?_⟩, ?_⟩
    · rw [Search.judge_pair_eq _ _ hKept]
      exact hRecord.2
    · rw [Search.batch_filter2_0b]
      exact mem_image.mpr ⟨_, hRecord.2, wholeInput, List.mem_singleton_self _, hKept⟩

theorem filter2_0b_searched (hBefore : Before cfg d .filter2_0b) (hInputs : InputFits .filter2_0b d)
    (hSearched : d.Searched cfg startSeed (some .filter2_0b))
    (hCompletes : Op.filter2_0b.Completes cfg startSeed inOrder d d') :
    d'.Searched cfg startSeed (some .resetFlags) := by
  have hLength : d.lens outputsFilterGradvecs2.len ≤ outputsFilterGradvecs2.maxLen :=
    hInputs (by decide) _ rfl
  obtain ⟨schedule, pool, hRun, hFinished, rfl, -⟩ := hCompletes
  obtain ⟨⟨hFrame, -⟩, hFilled⟩ := (filter2_0b_carries startSeed).completes
    outputsFilter2_0b.maxLen_lt.le
    ⟨.refl _ d, fun i hi => ⟨(hBefore.2.below hLength i hi).2, hSearched i (hi.trans_le hLength) hi⟩⟩
    (hBefore.1 .filter2_0b (Nat.le_refl 4)) ⟨schedule, pool, hRun, hFinished, rfl⟩
  intro i hMax hBelow
  have hSame : pool.mem.candidate = d.candidate := by
    funext entry
    rw [Device.candidate, Device.candidate, hFrame.seeds]
  rw [hSame]
  exact (hFilled i hMax hBelow).2

end InPlace

section Runs

variable [Arith F] {cfg : Config} {startSeed : BitVec 64} {inOrder : Prop} {d d' d₀ : Device F}

theorem searched_next {op : Op} (hBefore : Before cfg d op) (hInputs : InputFits op d)
    (hSearched : d.Searched cfg startSeed (some op))
    (hCompletes : op.Completes cfg startSeed inOrder d d') :
    d'.Searched cfg startSeed op.next := by
  obtain ⟨moment, hExecutes, hFinished, rfl⟩ := hCompletes.executes
  cases op with
  | resetLens => trivial
  | filterSeeds => exact filterSeeds_searched hBefore hCompletes
  | initSeeds =>
      obtain ⟨shared, schedule, pool, hRun, rfl⟩ := hExecutes
      obtain ⟨hFrame, -⟩ := KernelSeed1.kernel_completes d shared
        ⟨schedule, pool, hRun, hFinished, rfl⟩
      change Device.Searched cfg startSeed pool.mem.device (some .filterGradvecs1)
      rw [hFrame]
      exact hSearched
  | filterGradvecs1 => exact filterGradvecs1_searched hBefore hInputs hSearched hExecutes hFinished
  | filter2_0a => exact filter2_0a_searched hBefore hInputs hSearched hExecutes hFinished
  | filterGradvecs2 => exact filterGradvecs2_searched hBefore hInputs hSearched hExecutes hFinished
  | filter2_0b => exact filter2_0b_searched hBefore hInputs hSearched hCompletes
  | resetFlags =>
      obtain rfl := hExecutes
      exact hSearched
  | initLate k =>
      obtain ⟨schedule, pool, hRun, rfl⟩ := hExecutes
      have hLength : d.lens (filter2Inputs k).len ≤ (filter2Inputs k).maxLen :=
        hInputs (by simp) _ rfl
      obtain ⟨hMem, -⟩ := KernelSeed1.lateKernel_completes (Nat.succ_pos k)
        ((Nat.add_le_add_right hLength _).trans (filter2Inputs_bound k))
        (fun i hi => (hBefore.2.below hLength i hi).2.flag) ⟨schedule, pool, hRun, hFinished, rfl⟩
      change Device.Searched cfg startSeed pool.mem (some (.filter2 k))
      rw [hMem.frame]
      exact hSearched
  | filter2 index =>
      have hWithin := filter2_searched hBefore hInputs hSearched hExecutes hFinished
      match index with
      | 0 | 1 | 2 | 3 => exact hWithin

theorem Batch.searched {next : Option Op}
    (hBatch : Batch cfg startSeed inOrder InputFits d₀ next d) :
    (∀ op, next = some op → Before cfg d op) ∧ d.Searched cfg startSeed next := by
  induction hBatch with
  | start =>
      refine ⟨?_, trivial⟩
      rintro op ⟨⟩
      trivial
  | step hBatch hInputs hCompletes ih =>
      have hBefore := ih.1 _ rfl
      refine ⟨fun following hNext => ?_, searched_next hBefore hInputs ih.2 hCompletes⟩
      obtain ⟨moment, hExecutes, hFinished, rfl⟩ := hCompletes.executes
      exact before_next hBefore hInputs hExecutes hFinished hNext

/-- A batch whose results have room runs over no input. -/
theorem Batch.inputFits {next : Option Op} (hRoom : Search.Fits F cfg startSeed)
    (hBatch : Batch cfg startSeed True (fun _ _ => True) d₀ next d) :
    Batch cfg startSeed True InputFits d₀ next d := by
  induction hBatch with
  | start => exact .start
  | step hBatch hOk hCompletes ih => exact ih.step ((hBatch.matches hRoom).2.inputFits hRoom) hCompletes

theorem Batch.mem_copyOutputs {output : GpuOutput}
    (hBatch : Batch cfg startSeed inOrder InputFits d₀ none d) (hOutput : output ∈ d.copyOutputs) :
    output ∈ (Search.batch (Search.search F cfg) startSeed).map Candidate.output := by
  obtain ⟨i, hi, rfl⟩ := List.mem_map.mp hOutput
  rw [List.mem_range, lt_min_iff] at hi
  have hWithin : d.Within (outputsFilter2 3) (Search.batch (Search.search F cfg) startSeed) :=
    hBatch.searched.2
  exact List.mem_map.mpr ⟨_, hWithin i hi.2 hi.1, rfl⟩

/-- A batch hands out nothing but what the search of one of its seeds finds, also
where the last buffer runs over. -/
theorem batch_outputs_subset_search (cfg : Config) (startSeed : BitVec 64)
    (d₀ d : Device F) (hBatch : Batch cfg startSeed True InputFits d₀ none d) :
    ∀ output ∈ d.copyOutputs, ∃ seed ∈ seedsFrom startSeed KernelFilterSeeds.threadsPerRun,
      ∃ c ∈ Search.search F cfg seed, output = c.output := by
  intro output hOutput
  obtain ⟨c, hFound, rfl⟩ := List.mem_map.mp (hBatch.mem_copyOutputs hOutput)
  obtain ⟨seed, hSeed, hSearch⟩ := List.mem_flatMap.mp hFound
  exact ⟨seed, hSeed, c, hSearch, rfl⟩

end Runs

end Commission
