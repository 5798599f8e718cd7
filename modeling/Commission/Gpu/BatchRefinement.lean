import Commission.Library.InOrderAppend
import Commission.Gpu.BatchOutputs
import Commission.Gpu.Progress

/-! A batch refines the search: with room for what the stages find and with
`filter_2_01b` in order, its outputs are those of the search, in some order. -/
namespace Commission

open AtomicAppend ThreadPool

variable {F ρ : Type} [Arith F] {cfg : Config} {startSeed : BitVec 64}

/-- What the buffers hold before an operation, or at the end of the batch. -/
def Device.Matches (cfg : Config) (startSeed : BitVec 64) (d : Device F) : Option Op → Prop
  | some .resetLens | some .filterSeeds => True
  | some .initSeeds | some .filterGradvecs1 =>
      d.keptSeeds.Perm (Search.batchSeeds F cfg startSeed)
  | some .filter2_0a => (d.candidates outputsFilterGradvecs1).Perm
      (Search.batch (Search.filterGradvecs1 F cfg) startSeed)
  | some .filterGradvecs2 => (d.candidates outputsFilter2_0a).Perm
      (Search.batch (Search.filter2_0a F cfg) startSeed)
  | some .filter2_0b => (d.candidates outputsFilterGradvecs2).Perm
      (Search.batch (Search.filterGradvecs2 F cfg) startSeed)
  | some .resetFlags => (d.candidates outputsFilter2_0b).Perm
      (Search.batch (Search.filter2_0b F cfg) startSeed)
  | some (.initLate k) | some (.filter2 k) => (d.candidates (filter2Inputs k)).Perm
      (Search.batch (fun seed => Search.filter2 F cfg seed k) startSeed)
  | none => (d.candidates (outputsFilter2 3)).Perm (Search.batch (Search.search F cfg) startSeed)

section Room

variable {d : Device F}

omit [Arith F] in
@[simp] theorem Device.length_candidates (d : Device F) (buffer : OutputBuffer) :
    (d.candidates buffer).length = d.lens buffer.len := by
  simp [Device.candidates]

omit [Arith F] in
@[simp] theorem Device.length_keptSeeds (d : Device F) :
    d.keptSeeds.length = d.lens outputsFilterSeeds.len := by
  simp [Device.keptSeeds]

/-- No buffer of `filter_2` is shorter than the one of `filter_gradvecs_2`. -/
theorem gradvecs2_maxLen_le : ∀ k, outputsFilterGradvecs2.maxLen ≤ (filter2Inputs k).maxLen ∧
    outputsFilterGradvecs2.maxLen ≤ (outputsFilter2 k).maxLen := by
  decide

theorem Search.Fits.filter2_0a (hRoom : Search.Fits F cfg startSeed) :
    (Search.batch (Search.filter2_0a F cfg) startSeed).length ≤ outputsFilter2_0a.maxLen := by
  calc
    (Search.batch (Search.filter2_0a F cfg) startSeed).length ≤
        (Search.batch (Search.filterGradvecs1 F cfg) startSeed).length :=
      Search.length_batch_filterMap_le _ _
    _ ≤ outputsFilterGradvecs1.maxLen := hRoom.gradvecs1
    _ ≤ outputsFilter2_0a.maxLen := by decide

theorem Search.Fits.filter2 (hRoom : Search.Fits F cfg startSeed) (index : ℕ) :
    (Search.batch (fun seed => Search.filter2 F cfg seed index) startSeed).length ≤
      outputsFilterGradvecs2.maxLen :=
  (Search.length_batch_filter2_le index).trans hRoom.gradvecs2

/-- The counters say as much as the search, so no consumer runs over its input. -/
theorem Device.Matches.inputFits {op : Op} (hMatches : d.Matches cfg startSeed (some op))
    (hRoom : Search.Fits F cfg startSeed) : InputFits op d := by
  intro _ buffer hInputs
  cases op with
  | resetLens | filterSeeds | resetFlags => cases hInputs
  | initSeeds | filterGradvecs1 =>
      cases hInputs
      rw [← d.length_keptSeeds, hMatches.length_eq]
      exact hRoom.seeds
  | filter2_0a =>
      cases hInputs
      rw [← d.length_candidates, hMatches.length_eq]
      exact hRoom.gradvecs1
  | filterGradvecs2 =>
      cases hInputs
      rw [← d.length_candidates, hMatches.length_eq]
      exact hRoom.filter2_0a
  | filter2_0b =>
      cases hInputs
      rw [← d.length_candidates, hMatches.length_eq]
      exact hRoom.gradvecs2
  | initLate k | filter2 k =>
      cases hInputs
      rw [← d.length_candidates, hMatches.length_eq]
      exact (hRoom.filter2 k).trans (gradvecs2_maxLen_le k).1

end Room

section Filters

variable {K : Kernel (Device F) ρ (ℕ × ℕ) (Cell SeedPos)} {outputs : OutputBuffer} {n : ℕ}
  {items : List (ℕ × ℕ)} {d : Device F} {σ : Type} (viewIn : ρ → σ)
  {f : σ → ℕ × ℕ → Option Candidate} {inputs : List σ}

omit [Arith F] in
/-- A filter which reads its original inputs, on inputs which match a list. -/
theorem candidates_perm_image (hOutput : K.output = outputs.positions) (hFits : K.Fits n)
    (hStable : K.Stable) (hTotal : K.total n = Multiset.range n ×ˢ (items : Multiset (ℕ × ℕ)))
    (hLen : d.lens outputs.len = 0)
    (hShows : Shows K n items d viewIn (fun cell => d.candidate cell.value) f)
    (hInputs : ((List.range n).map fun i => viewIn (K.fetch d i)).Perm inputs)
    (hRoom : (image items f inputs).length ≤ outputs.maxLen) {schedule : List ℕ}
    {pool : Pool (Device F) (Cursor ρ (ℕ × ℕ) (Cell SeedPos)) (Obs (ℕ × ℕ) (Cell SeedPos))}
    (hReads : Interleaving.Along (K.program n).advance (K.ReadsOriginal n d)
      ((K.program n).start d) schedule)
    (hRun : (K.program n).run ((K.program n).start d) schedule = some pool)
    (hFinished : (K.program n).Finished pool) (hFrame : Frame outputs d pool.mem) :
    (pool.mem.candidates outputs).Perm (image items f inputs) := by
  have hImage := image_perm items f hInputs
  have hMax : K.output.maxLen < 2 ^ 32 := by
    rw [hOutput]
    exact outputs.maxLen_lt
  have hZero : K.output.len d = 0 := by
    rw [hOutput]
    exact hLen
  have hFew : (image items f ((List.range n).map fun i => viewIn (K.fetch d i))).length ≤
      K.output.maxLen := by
    rw [hImage.length_eq, hOutput]
    exact hRoom
  have hPerm := hShows.perm_image hFits hStable hTotal hMax hZero hFew hReads hRun hFinished
  rw [hOutput] at hPerm
  have hSame : pool.mem.candidate = d.candidate := by
    funext entry
    rw [Device.candidate, Device.candidate, hFrame.seeds]
  rw [Device.candidates, hSame]
  exact hPerm.trans hImage

omit [Arith F] in
/-- The same for a filter with separate buffers, from any run of it. -/
theorem ExecutesFilter.candidates_perm (hOutput : K.output = outputs.positions)
    (hFits : K.Fits n) (hSeparate : K.Separate)
    (hTotal : K.total n = Multiset.range n ×ˢ (items : Multiset (ℕ × ℕ)))
    (hLen : d.lens outputs.len = 0)
    (hShows : Shows K n items d viewIn (fun cell => d.candidate cell.value) f)
    (hInputs : ((List.range n).map fun i => viewIn (K.fetch d i)).Perm inputs)
    (hRoom : (image items f inputs).length ≤ outputs.maxLen) {buffer : Option OutputBuffer}
    {seedIndex : ρ → ℕ} {members : List Member} {moment : Snapshot F}
    (hExecutes : ExecutesFilter K n buffer seedIndex members d moment)
    (hFinished : moment.finished) (hFrame : Frame outputs d moment.device) :
    (moment.device.candidates outputs).Perm (image items f inputs) := by
  obtain ⟨schedule, pool, hRun, rfl⟩ := hExecutes
  exact candidates_perm_image viewIn hOutput hFits hSeparate.toStable hTotal hLen hShows hInputs hRoom
    (along_readsOriginal hSeparate) hRun hFinished hFrame

end Filters

section Operations

variable {d d' : Device F} {moment : Snapshot F}

/-- The first stage keeps the seeds of the batch which pass its test. -/
theorem filterSeeds_matches (hRoom : Search.Fits F cfg startSeed) (hZero : ZeroFrom 0 d)
    (hCompletes : Op.filterSeeds.Completes cfg startSeed True d d') :
    d'.Matches cfg startSeed (some .initSeeds) := by
  obtain ⟨schedule, pool, hRun, hFinished, rfl⟩ := hCompletes
  have hPerm := (KernelFilterSeeds.shows cfg.large startSeed d).perm_image
    (KernelFilterSeeds.fits cfg.large startSeed)
    (KernelFilterSeeds.separate cfg.large startSeed).toStable
    (KernelFilterSeeds.total_eq cfg.large startSeed _) outputsFilterSeeds.maxLen_lt
    (hZero .filterSeeds (Nat.zero_le 0)) (by
      change (image _ _ (seedsFrom startSeed KernelFilterSeeds.threadsPerRun)).length ≤ _
      rw [← Search.batchSeeds_eq]
      exact hRoom.seeds)
    (along_readsOriginal (KernelFilterSeeds.separate cfg.large startSeed)) hRun hFinished
  change (Device.keptSeeds pool.mem).Perm
    (image _ _ (seedsFrom startSeed KernelFilterSeeds.threadsPerRun)) at hPerm
  rw [← Search.batchSeeds_eq] at hPerm
  exact hPerm

theorem initSeeds_matches (hMatches : d.Matches cfg startSeed (some .initSeeds))
    (hExecutes : Executes cfg d moment .initSeeds) (hFinished : moment.finished) :
    moment.device.Matches cfg startSeed (some .filterGradvecs1) := by
  obtain ⟨shared, schedule, pool, hRun, rfl⟩ := hExecutes
  obtain ⟨hFrame, -⟩ := KernelSeed1.kernel_completes d shared
    ⟨schedule, pool, hRun, hFinished, rfl⟩
  have hSame : Device.keptSeeds pool.mem.device = d.keptSeeds := by
    rw [hFrame]
    rfl
  change (Device.keptSeeds pool.mem.device).Perm _
  rw [hSame]
  exact hMatches

theorem filterGradvecs1_matches (hRoom : Search.Fits F cfg startSeed)
    (hBefore : Before cfg d .filterGradvecs1) (hInputs : InputFits .filterGradvecs1 d)
    (hMatches : d.Matches cfg startSeed (some .filterGradvecs1))
    (hExecutes : Executes cfg d moment .filterGradvecs1) (hFinished : moment.finished) :
    moment.device.Matches cfg startSeed (some .filter2_0a) := by
  have hLength : d.lens outputsFilterSeeds.len ≤ outputsFilterSeeds.maxLen :=
    hInputs (by decide) _ rfl
  have hMoment := filterGradvecs1_moment hBefore hInputs hExecutes
  change (moment.device.candidates outputsFilterGradvecs1).Perm _
  rw [Search.batch_filterGradvecs1]
  refine ExecutesFilter.candidates_perm (fun s => (d.seeds s).value) rfl
    (KernelFilterGradVecs1.fits _ _ (hLength.trans_lt (by decide)))
    (KernelFilterGradVecs1.separate _ _) (KernelFilterGradVecs1.total_eq _ _ _)
    (hBefore.1 .filterGradvecs1 (Nat.le_refl 1))
    (fun s hs place _ => ?_) hMatches ?_ hExecutes hFinished hMoment.frame
  · exact KernelFilterGradVecs1.map_test _ (hBefore.2 s (hs.trans_le hLength) hs) place
  · rw [← Search.batch_filterGradvecs1]
    exact hRoom.gradvecs1

theorem filter2_0a_matches (hRoom : Search.Fits F cfg startSeed) (hBefore : Before cfg d .filter2_0a)
    (hInputs : InputFits .filter2_0a d) (hMatches : d.Matches cfg startSeed (some .filter2_0a))
    (hExecutes : Executes cfg d moment .filter2_0a) (hFinished : moment.finished) :
    moment.device.Matches cfg startSeed (some .filterGradvecs2) := by
  have hLength : d.lens outputsFilterGradvecs1.len ≤ outputsFilterGradvecs1.maxLen :=
    hInputs (by decide) _ rfl
  have hMoment := filter2_0a_moment hBefore hInputs hExecutes
  change (moment.device.candidates outputsFilter2_0a).Perm _
  rw [Search.batch_filter2_0a]
  refine ExecutesFilter.candidates_perm d.candidate rfl
    (KernelFilter2Pair.fits _ _ _ _ (hLength.trans_lt (by decide)))
    (KernelFilter2Pair.separate _ _ (by decide)) (KernelFilter2Pair.total_eq _ _ _ _ _)
    (hBefore.1 .filter2_0a (Nat.le_refl 2))
    (fun i hi item _ => ?_) hMatches ?_ hExecutes hFinished hMoment.frame
  · exact KernelFilter2Pair.map_test _ _ _ _ (hBefore.2.below hLength i hi).2 item
  · rw [← Search.batch_filter2_0a]
    exact hRoom.filter2_0a

theorem filterGradvecs2_matches (hRoom : Search.Fits F cfg startSeed)
    (hBefore : Before cfg d .filterGradvecs2) (hInputs : InputFits .filterGradvecs2 d)
    (hMatches : d.Matches cfg startSeed (some .filterGradvecs2))
    (hExecutes : Executes cfg d moment .filterGradvecs2) (hFinished : moment.finished) :
    moment.device.Matches cfg startSeed (some .filter2_0b) := by
  have hLength : d.lens outputsFilter2_0a.len ≤ outputsFilter2_0a.maxLen :=
    hInputs (by decide) _ rfl
  have hMoment := filterGradvecs2_moment hBefore hInputs hExecutes
  change (moment.device.candidates outputsFilterGradvecs2).Perm _
  rw [Search.batch_filterGradvecs2]
  refine ExecutesFilter.candidates_perm d.candidate rfl
    (KernelFilterGradVecs2.fits _ _ _ _ (hLength.trans_lt (by decide)))
    (KernelFilterGradVecs2.separate _ _ (by decide)) (KernelFilterGradVecs2.total_eq _ _ _ _ _)
    (hBefore.1 .filterGradvecs2 (Nat.le_refl 3))
    (fun i hi place _ => ?_) hMatches ?_ hExecutes hFinished hMoment.frame
  · exact KernelFilterGradVecs2.map_test _ _ (hBefore.2.below hLength i hi).2 place
  · rw [← Search.batch_filterGradvecs2]
    exact hRoom.gradvecs2

/-- `filter_2_01b` lies over its input; in order it reads the original entries. -/
theorem filter2_0b_matches (hRoom : Search.Fits F cfg startSeed) (hBefore : Before cfg d .filter2_0b)
    (hInputs : InputFits .filter2_0b d) (hMatches : d.Matches cfg startSeed (some .filter2_0b))
    (hCompletes : Op.filter2_0b.Completes cfg startSeed True d d') :
    d'.Matches cfg startSeed (some .resetFlags) := by
  have hLength : d.lens outputsFilterGradvecs2.len ≤ outputsFilterGradvecs2.maxLen :=
    hInputs (by decide) _ rfl
  obtain ⟨schedule, pool, hRun, hFinished, rfl, hKeeps⟩ := hCompletes
  have hMoment := filter2_0b_moment hBefore hInputs ⟨schedule, pool, hRun, rfl⟩
  have hFits : (KernelFilter2_0B.stage (F := F) cfg.large).Fits (d.lens outputsFilterGradvecs2.len) :=
    KernelFilter2Pair.fits _ _ _ _ (hLength.trans_lt (by decide))
  change (pool.mem.candidates outputsFilter2_0b).Perm _
  rw [Search.batch_filter2_0b]
  refine candidates_perm_image (K := KernelFilter2_0B.stage cfg.large) d.candidate rfl hFits
    (KernelFilter2_0B.inPlace cfg.large).toStable (KernelFilter2Pair.total_eq _ _ _ _ _)
    (hBefore.1 .filter2_0b (Nat.le_refl 4)) (fun i hi item _ => ?_) hMatches ?_
    (along_readsOriginal_of_keepsUnread hFits (KernelFilter2_0B.inPlace cfg.large) (hKeeps trivial) hRun)
    hRun hFinished hMoment.frame
  · exact KernelFilter2Pair.map_test _ _ _ _ (hBefore.2.below hLength i hi).2 item
  · rw [← Search.batch_filter2_0b]
    exact hRoom.filter2 0

theorem initLate_matches {k : Fin 4} (hBefore : Before cfg d (.initLate k))
    (hInputs : InputFits (.initLate k) d) (hMatches : d.Matches cfg startSeed (some (.initLate k)))
    (hExecutes : Executes cfg d moment (.initLate k)) (hFinished : moment.finished) :
    moment.device.Matches cfg startSeed (some (.filter2 k)) := by
  obtain ⟨schedule, pool, hRun, rfl⟩ := hExecutes
  have hLength : d.lens (filter2Inputs k).len ≤ (filter2Inputs k).maxLen := hInputs (by simp) _ rfl
  have hBound : d.lens (filter2Inputs k).len + KernelSeed1.lateThreads ≤ 2 ^ 32 :=
    (Nat.add_le_add_right hLength _).trans (filter2Inputs_bound k)
  obtain ⟨hMem, -⟩ := KernelSeed1.lateKernel_completes (Nat.succ_pos k) hBound
    (fun i hi => (hBefore.2.below hLength i hi).2.flag) ⟨schedule, pool, hRun, hFinished, rfl⟩
  have hSame : pool.mem.candidates (filter2Inputs k) = d.candidates (filter2Inputs k) := by
    rw [hMem.frame]
    rfl
  change (pool.mem.candidates (filter2Inputs k)).Perm _
  rw [hSame]
  exact hMatches

/-- The buffers of a stage of `filter_2` are short and lie apart. -/
theorem filter2_buffers : ∀ index, (filter2Inputs index).maxLen < 2 ^ 31 ∧
    (filter2Inputs index).data ≠ (outputsFilter2 index).data := by
  decide

theorem filter2_matches {index : Fin 4} (hRoom : Search.Fits F cfg startSeed)
    (hBefore : Before cfg d (.filter2 index)) (hInputs : InputFits (.filter2 index) d)
    (hMatches : d.Matches cfg startSeed (some (.filter2 index)))
    (hExecutes : Executes cfg d moment (.filter2 index)) (hFinished : moment.finished) :
    (moment.device.candidates (outputsFilter2 index)).Perm
      (Search.batch (fun seed => Search.filter2 F cfg seed (index + 1)) startSeed) := by
  have hLength : d.lens (filter2Inputs index).len ≤ (filter2Inputs index).maxLen :=
    hInputs (by simp) _ rfl
  have hShort := filter2_buffers index
  have hMoment := filter2_moment hBefore hInputs hExecutes
  rw [Search.batch_filter2]
  refine ExecutesFilter.candidates_perm d.candidate rfl
    (KernelFilter2.fits _ _ _ (hLength.trans_lt hShort.1))
    (KernelFilter2.separate _ hShort.2) (KernelFilter2.total_eq _ _ _ _)
    (hBefore.1 _ (Nat.le_refl (5 + index.val)))
    (fun i hi item _ => ?_) hMatches ?_ hExecutes hFinished hMoment.frame
  · exact KernelFilter2.map_test _ _ _ (hBefore.2.below hLength i hi).2.toReady item
  · rw [← Search.batch_filter2]
    exact (hRoom.filter2 _).trans (gradvecs2_maxLen_le index).2

/-- Each operation leaves what the next one should find. -/
theorem matches_next {op : Op} (hRoom : Search.Fits F cfg startSeed) (hBefore : Before cfg d op)
    (hMatches : d.Matches cfg startSeed (some op))
    (hCompletes : op.Completes cfg startSeed True d d') :
    d'.Matches cfg startSeed op.next := by
  have hInputs := hMatches.inputFits hRoom
  obtain ⟨moment, hExecutes, hFinished, rfl⟩ := hCompletes.executes
  cases op with
  | resetLens => trivial
  | filterSeeds => exact filterSeeds_matches hRoom hBefore hCompletes
  | initSeeds => exact initSeeds_matches hMatches hExecutes hFinished
  | filterGradvecs1 => exact filterGradvecs1_matches hRoom hBefore hInputs hMatches hExecutes hFinished
  | filter2_0a => exact filter2_0a_matches hRoom hBefore hInputs hMatches hExecutes hFinished
  | filterGradvecs2 => exact filterGradvecs2_matches hRoom hBefore hInputs hMatches hExecutes hFinished
  | filter2_0b => exact filter2_0b_matches hRoom hBefore hInputs hMatches hCompletes
  | resetFlags =>
      obtain rfl := hExecutes
      exact hMatches
  | initLate k => exact initLate_matches hBefore hInputs hMatches hExecutes hFinished
  | filter2 index =>
      have hPerm := filter2_matches hRoom hBefore hInputs hMatches hExecutes hFinished
      match index with
      | 0 | 1 | 2 | 3 => exact hPerm

end Operations

section Progress

variable {d : Device F}

omit [Arith F] in
theorem ExecutesFilter.exists_finished {ρ : Type} {K : Kernel (Device F) ρ (ℕ × ℕ) (Cell SeedPos)}
    {n : ℕ} (hFits : K.Fits n) (inputs : Option OutputBuffer) (seedIndex : ρ → ℕ)
    (members : List Member) (d : Device F) :
    ∃ moment, ExecutesFilter K n inputs seedIndex members d moment ∧ moment.finished := by
  obtain ⟨schedule, pool, hRun, hFinished⟩ := Kernel.exists_run_finished hFits d
  exact ⟨_, ⟨schedule, pool, hRun, rfl⟩, hFinished⟩

theorem filter2_0b_completes (hZero : d.lens outputsFilter2_0b.len = 0)
    (hLength : d.lens outputsFilterGradvecs2.len ≤ outputsFilterGradvecs2.maxLen) :
    ∃ d', Op.filter2_0b.Completes cfg startSeed True d d' := by
  have hFits : (KernelFilter2_0B.stage (F := F) cfg.large).Fits (d.lens outputsFilterGradvecs2.len) :=
    KernelFilter2Pair.fits _ _ _ _ (hLength.trans_lt (by decide))
  obtain ⟨schedule, pool, hRun, hAlong, hFinished⟩ := exists_run_keepsUnread hFits
    (KernelFilter2_0B.inPlace cfg.large) (fun _ _ => Nat.le_refl 1) hZero
    (show 0 < 65536 by decide)
  exact ⟨pool.mem, schedule, pool, hRun, hFinished, rfl, fun _ => hAlong⟩

/-- The seeds whose noise the seed kernels compute are those of the batch. -/
theorem Device.Matches.seed_mem {s : ℕ} (hMatches : d.keptSeeds.Perm (Search.batchSeeds F cfg startSeed))
    (hLt : s < d.lens outputsFilterSeeds.len) :
    (d.seeds s).value ∈ Search.batchSeeds F cfg startSeed :=
  hMatches.subset (List.mem_map.mpr ⟨s, List.mem_range.mpr hLt, rfl⟩)

/-- An operation which finds what it needs can be run to its end. -/
theorem Op.exists_completes {op : Op}
    (hNoise : ∀ seed ∈ Search.batchSeeds F cfg startSeed, ∀ member,
      (octaveNoise (F := F) cfg.fuel cfg.large seed member).isSome)
    (hRoom : Search.Fits F cfg startSeed) (hBefore : Before cfg d op)
    (hMatches : d.Matches cfg startSeed (some op)) :
    ∃ d', op.Completes cfg startSeed True d d' := by
  have hInputs := hMatches.inputFits hRoom
  cases op with
  | resetLens | resetFlags => exact ⟨_, _, rfl, trivial, rfl⟩
  | filterSeeds =>
      obtain ⟨schedule, pool, hRun, hFinished⟩ :=
        Kernel.exists_run_finished (KernelFilterSeeds.fits cfg.large startSeed) d
      exact ⟨pool.mem, schedule, pool, hRun, hFinished, rfl⟩
  | initSeeds =>
      have hInv : KernelSeed1.KernelInv cfg.fuel cfg.large d (d.lens outputsFilterSeeds.len) _ :=
        KernelSeed1.kernelInv_start fun s => d.noise s ⟨0, .a⟩
      obtain ⟨schedule, pool, hRun, hFinished⟩ := hInv.exists_finished fun s hs call hCall => by
        rw [InitCall.noise_eq _ _ _ (kernelCalls_own call hCall)]
        exact hNoise _ (Device.Matches.seed_mem hMatches hs) _
      exact ⟨_, _, ⟨_, schedule, pool, hRun, rfl⟩, hFinished, rfl⟩
  | filterGradvecs1 =>
      have hLength := hInputs (by decide) _ rfl
      obtain ⟨moment, hExecutes, hFinished⟩ := ExecutesFilter.exists_finished
        (KernelFilterGradVecs1.fits cfg.large outputsFilterGradvecs1 (hLength.trans_lt (by decide)))
        none id KernelFilterGradVecs1.members d
      exact ⟨_, moment, hExecutes, hFinished, rfl⟩
  | filter2_0a =>
      have hLength := hInputs (by decide) _ rfl
      obtain ⟨moment, hExecutes, hFinished⟩ := ExecutesFilter.exists_finished
        (KernelFilter2Pair.fits (KernelFilter2_0A.T cfg.large) KernelFilter2_0A.half
          outputsFilterGradvecs1 outputsFilter2_0a (hLength.trans_lt (by decide))) _ _ _ d
      exact ⟨_, moment, hExecutes, hFinished, rfl⟩
  | filterGradvecs2 =>
      have hLength := hInputs (by decide) _ rfl
      obtain ⟨moment, hExecutes, hFinished⟩ := ExecutesFilter.exists_finished
        (KernelFilterGradVecs2.fits cfg.large cfg.unbound outputsFilter2_0a outputsFilterGradvecs2
          (hLength.trans_lt (by decide))) _ _ _ d
      exact ⟨_, moment, hExecutes, hFinished, rfl⟩
  | filter2_0b =>
      exact filter2_0b_completes (hBefore.1 .filter2_0b (Nat.le_refl 4)) (hInputs (by decide) _ rfl)
  | initLate k =>
      have hLength : d.lens (filter2Inputs k).len ≤ (filter2Inputs k).maxLen :=
        hInputs (by simp) _ rfl
      have hBound : d.lens (filter2Inputs k).len + KernelSeed1.lateThreads ≤ 2 ^ 32 :=
        (Nat.add_le_add_right hLength _).trans (filter2Inputs_bound k)
      obtain ⟨schedule, pool, hRun, hFinished⟩ := KernelSeed1.exists_lateKernel_finished cfg.fuel
        cfg.large (Nat.succ_pos k) hBound (fun i hi => (hBefore.2.below hLength i hi).2.flag)
        (fun i hi call hCall => by
          rw [InitCall.noise_eq _ _ _ (lateCalls_own _ call hCall)]
          refine hNoise _ (Search.seed_mem_batchSeeds (hMatches.subset (a := d.candidate
            (d.positions (filter2Inputs k).data i).value) ?_)) _
          exact List.mem_map.mpr ⟨i, List.mem_range.mpr hi, rfl⟩)
      exact ⟨_, _, ⟨schedule, pool, hRun, rfl⟩, hFinished, rfl⟩
  | filter2 index =>
      have hLength : d.lens (filter2Inputs index).len ≤ (filter2Inputs index).maxLen :=
        hInputs (by simp) _ rfl
      obtain ⟨moment, hExecutes, hFinished⟩ := ExecutesFilter.exists_finished
        (KernelFilter2.fits (filter2Runs cfg.large index) (filter2Inputs index) (outputsFilter2 index)
          (hLength.trans_lt (filter2_buffers index).1)) _ _ _ d
      exact ⟨_, moment, hExecutes, hFinished, rfl⟩

theorem Op.position_lt (op : Op) : op.position < 16 := by
  cases op with
  | resetLens | filterSeeds | initSeeds | filterGradvecs1 | filter2_0a | filterGradvecs2 | filter2_0b
  | resetFlags => simp [position]
  | initLate k | filter2 k =>
      simp only [position]
      omega

end Progress

section Runs

variable {d₀ d : Device F} {next : Option Op}

/-- Before every operation of a batch the buffers match the search. -/
theorem Batch.matches (hRoom : Search.Fits F cfg startSeed)
    (hBatch : Batch cfg startSeed True (fun _ _ => True) d₀ next d) :
    (∀ op, next = some op → Before cfg d op) ∧ d.Matches cfg startSeed next := by
  induction hBatch with
  | start =>
      refine ⟨?_, trivial⟩
      rintro op ⟨⟩
      trivial
  | step hBatch hOk hCompletes ih =>
      have hBefore := ih.1 _ rfl
      refine ⟨fun following hNext => ?_, matches_next hRoom hBefore ih.2 hCompletes⟩
      obtain ⟨moment, hExecutes, hFinished, rfl⟩ := hCompletes.executes
      exact before_next hBefore (ih.2.inputFits hRoom) hExecutes hFinished hNext

/-- From wherever a batch is, it can be run to its end, if its results have room and
the rejection loops of `init_noise` come to an end. -/
theorem batch_runs_on (cfg : Config) (startSeed : BitVec 64) (d₀ d : Device F) (op : Op)
    (hRoom : Search.Fits F cfg startSeed)
    (hNoise : ∀ seed ∈ Search.batchSeeds F cfg startSeed, ∀ member,
      (octaveNoise (F := F) cfg.fuel cfg.large seed member).isSome)
    (hBatch : Batch cfg startSeed True (fun _ _ => True) d₀ (some op) d) :
    ∃ d', Batch cfg startSeed True (fun _ _ => True) d₀ none d' := by
  obtain ⟨hBefore, hMatches⟩ := hBatch.matches hRoom
  obtain ⟨d', hCompletes⟩ := Op.exists_completes hNoise hRoom (hBefore op rfl) hMatches
  have hNext := hBatch.step trivial hCompletes
  cases hLast : op.next with
  | none =>
      rw [hLast] at hNext
      exact ⟨d', hNext⟩
  | some next =>
      rw [hLast] at hNext
      have hPosition := Op.position_next hLast
      have hBound := next.position_lt
      exact batch_runs_on cfg startSeed d₀ d' next hRoom hNoise hNext
termination_by 16 - op.position

theorem Batch.copyOutputs_perm (hRoom : Search.Fits F cfg startSeed)
    (hBatch : Batch cfg startSeed True (fun _ _ => True) d₀ none d) :
    d.copyOutputs.Perm ((Search.batch (Search.search F cfg) startSeed).map Candidate.output) := by
  have hPerm : (d.candidates (outputsFilter2 3)).Perm
      (Search.batch (Search.search F cfg) startSeed) := (hBatch.matches hRoom).2
  have hLen : d.lens (outputsFilter2 3).len ≤ (outputsFilter2 3).maxLen := by
    rw [← d.length_candidates, hPerm.length_eq]
    exact (hRoom.filter2 4).trans (gradvecs2_maxLen_le 3).2
  rw [Device.copyOutputs_eq hLen]
  exact hPerm.map Candidate.output

/-- A batch with room for its results, in which no warp of `filter_2_01b` replaces an
unread entry, hands out exactly what the search of its seeds finds. -/
theorem batch_outputs_perm_search (cfg : Config) (startSeed : BitVec 64) (d₀ d : Device F)
    (hRoom : Search.Fits F cfg startSeed)
    (hBatch : Batch cfg startSeed True (fun _ _ => True) d₀ none d) :
    d.copyOutputs.Perm
      ((seedsFrom startSeed KernelFilterSeeds.threadsPerRun).flatMap fun seed =>
        (Search.search F cfg seed).map Candidate.output) := by
  rw [← List.map_flatMap]
  exact hBatch.copyOutputs_perm hRoom

end Runs

end Commission
