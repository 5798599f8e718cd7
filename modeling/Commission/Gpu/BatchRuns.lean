import Commission.Gpu.BatchSoundness

/-! A batch as part of a run of the pipeline: with room for its results no counter
runs over, and every entry is of one of the kept seeds. -/
namespace Commission

open AtomicAppend ThreadPool

variable {F ρ : Type} [Arith F] {cfg : Config} {startSeed : BitVec 64} {d : Device F}

/-- The buffer which an operation appends to. -/
def Op.outputs : Op → Option OutputBuffer
  | .resetLens | .initSeeds | .resetFlags | .initLate _ => none
  | .filterSeeds => some outputsFilterSeeds
  | .filterGradvecs1 => some outputsFilterGradvecs1
  | .filter2_0a => some outputsFilter2_0a
  | .filterGradvecs2 => some outputsFilterGradvecs2
  | .filter2_0b => some outputsFilter2_0b
  | .filter2 index => some (outputsFilter2 index)

/-- The buffer whose entries have been computed last. -/
def Op.entries : Op → Option OutputBuffer
  | .resetLens | .filterSeeds | .initSeeds | .filterGradvecs1 => none
  | .filter2_0a => some outputsFilterGradvecs1
  | .filterGradvecs2 => some outputsFilter2_0a
  | .filter2_0b => some outputsFilterGradvecs2
  | .resetFlags => some outputsFilter2_0b
  | .initLate k | .filter2 k => some (filter2Inputs k)

section Frames

variable {moment : Snapshot F} {op : Op} {n : ℕ} {seeds : List (BitVec 64)}

/-- What an operation after `filter_seeds` leaves alone. -/
structure OpFrame (op : Op) (d m : Device F) : Prop where
  seeds : m.seeds = d.seeds
  batch : m.batch = d.batch
  lens : ∀ id, (∀ buffer, op.outputs = some buffer → buffer.len ≠ id) → m.lens id = d.lens id
  positions : op.outputs = none → m.positions = d.positions

omit [Arith F] in
theorem Frame.opFrame {buffer : OutputBuffer} {m : Device F} (hFrame : Frame buffer d m)
    (hOutputs : op.outputs = some buffer) : OpFrame op d m where
  seeds := hFrame.seeds
  batch := hFrame.batch
  lens id hOther := hFrame.lens id (hOther buffer hOutputs).symm
  positions hNone := absurd (hOutputs.symm.trans hNone) (Option.some_ne_none _)

theorem opFrame_of_executes (hAfter : 2 ≤ op.position) (hBefore : Before cfg d op)
    (hFits : InputFits op d) (hExecutes : Executes cfg d moment op) (hFinished : moment.finished) :
    OpFrame op d moment.device := by
  cases op with
  | resetLens | filterSeeds => exact absurd hAfter (by decide)
  | initSeeds =>
      obtain ⟨shared, schedule, pool, hRun, rfl⟩ := hExecutes
      obtain ⟨hFrame, -⟩ := KernelSeed1.kernel_completes d shared ⟨schedule, pool, hRun, hFinished, rfl⟩
      change OpFrame .initSeeds d pool.mem.device
      rw [hFrame]
      exact ⟨rfl, rfl, fun _ _ => rfl, fun _ => rfl⟩
  | filterGradvecs1 => exact (filterGradvecs1_moment hBefore hFits hExecutes).frame.opFrame rfl
  | filter2_0a => exact (filter2_0a_moment hBefore hFits hExecutes).frame.opFrame rfl
  | filterGradvecs2 => exact (filterGradvecs2_moment hBefore hFits hExecutes).frame.opFrame rfl
  | filter2_0b => exact (filter2_0b_moment hBefore hFits hExecutes).frame.opFrame rfl
  | filter2 index => exact (filter2_moment hBefore hFits hExecutes).frame.opFrame rfl
  | resetFlags =>
      obtain rfl := hExecutes
      exact ⟨rfl, rfl, fun _ _ => rfl, fun _ => rfl⟩
  | initLate k =>
      obtain ⟨schedule, pool, hRun, rfl⟩ := hExecutes
      have hLength : d.lens (filter2Inputs k).len ≤ (filter2Inputs k).maxLen := hFits (by simp) _ rfl
      have hBound : d.lens (filter2Inputs k).len + KernelSeed1.lateThreads ≤ 2 ^ 32 :=
        (Nat.add_le_add_right hLength _).trans (filter2Inputs_bound k)
      obtain ⟨hMem, -⟩ := KernelSeed1.lateKernel_completes (Nat.succ_pos k) hBound
        (fun i hi => (hBefore.2.below hLength i hi).2.flag) ⟨schedule, pool, hRun, hFinished, rfl⟩
      change OpFrame (.initLate k) d pool.mem
      rw [hMem.frame]
      exact ⟨rfl, rfl, fun _ _ => rfl, fun _ => rfl⟩

/-- The entries of the buffer before an operation are of seeds below `n`. -/
def Counted (n : ℕ) (d : Device F) (op : Op) : Prop :=
  ∀ buffer, op.entries = some buffer → Entries d buffer (· < n)

omit [Arith F] in
theorem FilterMoment.counted {outputs : OutputBuffer} {members : List Member} {next : Op}
    (hMoment : FilterMoment outputs members (· < n) d moment) (hFinished : moment.finished)
    (hEntries : next.entries = some outputs) : Counted n moment.device next := by
  intro buffer hBuffer
  obtain rfl := Option.some.inj (hEntries.symm.trans hBuffer)
  intro i hMax hLen
  rw [hMoment.frame.batch]
  exact hMoment.filled hFinished i hMax hLen

omit [Arith F] in
theorem Counted.opFrame {op next : Op} {m : Device F} (hCounted : Counted n d op)
    (hFrame : OpFrame op d m) (hOutputs : op.outputs = none) (hEntries : next.entries = op.entries) :
    Counted n m next := by
  intro buffer hBuffer i hMax hLen
  rw [hFrame.batch, hFrame.positions hOutputs]
  rw [hFrame.lens _ fun _ hSome => absurd (hOutputs.symm.trans hSome) (Option.some_ne_none _).symm]
    at hLen
  exact hCounted buffer (hEntries.symm.trans hBuffer) i hMax hLen

theorem counted_next {op next : Op} (hAfter : 2 ≤ op.position) (hBefore : Before cfg d op)
    (hFits : InputFits op d) (hExecutes : Executes cfg d moment op) (hFinished : moment.finished)
    (hNext : op.next = some next) (hCounted : Counted (d.lens outputsFilterSeeds.len) d op) :
    Counted (d.lens outputsFilterSeeds.len) moment.device next := by
  have hFrame := opFrame_of_executes hAfter hBefore hFits hExecutes hFinished
  cases op with
  | resetLens | filterSeeds => exact absurd hAfter (by decide)
  | initSeeds =>
      cases hNext
      rintro buffer ⟨⟩
  | filterGradvecs1 =>
      cases hNext
      exact (filterMoment_of_seeds rfl (fun _ _ => rfl) (KernelFilterGradVecs1.keepsSeed _ _)
        (hBefore.1 .filterGradvecs1 (Nat.le_refl 1)) (fun _ hs => hs) hExecutes).counted hFinished rfl
  | filter2_0a =>
      cases hNext
      exact (filterMoment_of_keepsSeed rfl (fun _ _ => rfl) (KernelFilter2Pair.keepsSeed _ _ _ _)
        (hBefore.1 .filter2_0a (Nat.le_refl 2)) (hFits (by decide) _ rfl)
        ((hCounted _ rfl).below (hFits (by decide) _ rfl)) hExecutes).counted hFinished rfl
  | filterGradvecs2 =>
      cases hNext
      exact (filterMoment_of_keepsSeed rfl (fun _ _ => rfl) (KernelFilterGradVecs2.keepsSeed _ _ _ _)
        (hBefore.1 .filterGradvecs2 (Nat.le_refl 3)) (hFits (by decide) _ rfl)
        ((hCounted _ rfl).below (hFits (by decide) _ rfl)) hExecutes).counted hFinished rfl
  | filter2_0b =>
      cases hNext
      exact (filterMoment_of_keepsSeed rfl (fun _ _ => rfl) (KernelFilter2Pair.keepsSeed _ _ _ _)
        (hBefore.1 .filter2_0b (Nat.le_refl 4)) (hFits (by decide) _ rfl)
        ((hCounted _ rfl).below (hFits (by decide) _ rfl)) hExecutes).counted hFinished rfl
  | resetFlags =>
      cases hNext
      exact hCounted.opFrame hFrame rfl rfl
  | initLate k =>
      cases hNext
      exact hCounted.opFrame hFrame rfl rfl
  | filter2 index =>
      have hMoment : FilterMoment (outputsFilter2 index)
          (KernelFilter2.members (filter2Runs cfg.large index)) (· < d.lens outputsFilterSeeds.len)
          d moment :=
        filterMoment_of_keepsSeed rfl (fun _ _ => rfl) (KernelFilter2.keepsSeed _ _ _)
          (hBefore.1 _ (Nat.le_refl (5 + index.val))) (hFits (by simp) _ rfl)
          ((hCounted _ rfl).below (hFits (by simp) _ rfl)) hExecutes
      match index, hNext with
      | 0, hNext | 1, hNext | 2, hNext =>
          cases hNext
          exact hMoment.counted hFinished rfl
      | 3, hNext => cases hNext

end Frames

theorem Reach.imp {Ok Ok' : Op → Device F → Prop} (hImp : ∀ op d, Ok op d → Ok' op d) {op : Op}
    {inits : List (Op × ℕ)} (hReach : Reach cfg Ok op d inits) : Reach cfg Ok' op d inits := by
  induction hReach with
  | start hOld => exact .start hOld
  | step hReach hOk hExecutes hFinished hNext ih =>
      exact ih.step (hImp _ _ hOk) hExecutes hFinished hNext
  | batch hReach hOk hExecutes hFinished hLast ih =>
      exact ih.batch (hImp _ _ hOk) hExecutes hFinished hLast

section Runs

variable {d₀ : Device F} {op next : Op}

/-- What holds before an operation after `filter_seeds`, besides that the buffers match. -/
structure Tidy (cfg : Config) (startSeed : BitVec 64) (d : Device F) (op : Op) : Prop where
  keptSeeds : d.keptSeeds.Perm (Search.batchSeeds F cfg startSeed)
  counted : Counted (d.lens outputsFilterSeeds.len) d op
  noOverflow : NoOverflow op d

/-- The counter of an operation's outputs is not beyond the end of the buffer. -/
theorem lens_outputs_le (hRoom : Search.Fits F cfg startSeed) (hNext : op.next = some next)
    (hMatches : d.Matches cfg startSeed (some next)) {buffer : OutputBuffer}
    (hOutputs : op.outputs = some buffer) : d.lens buffer.len ≤ buffer.maxLen := by
  have hFits := hMatches.inputFits hRoom
  cases op with
  | resetLens | initSeeds | resetFlags | initLate k => cases hOutputs
  | filterSeeds =>
      cases hNext
      cases hOutputs
      rw [← d.length_keptSeeds, hMatches.length_eq]
      exact hRoom.seeds
  | filterGradvecs1 | filter2_0a | filterGradvecs2 =>
      cases hNext
      cases hOutputs
      exact hFits (by decide) _ rfl
  | filter2_0b =>
      cases hNext
      cases hOutputs
      rw [← d.length_candidates, hMatches.length_eq]
      exact hRoom.filter2 0
  | filter2 index =>
      match index, hNext with
      | 0, hNext | 1, hNext | 2, hNext =>
          cases hNext
          cases hOutputs
          exact hFits (by decide) _ rfl
      | 3, hNext => cases hNext

omit [Arith F] in
theorem outputs_mem {op : Op} {buffer : OutputBuffer} (hOutputs : op.outputs = some buffer) :
    buffer ∈ outputBuffers := by
  cases op with
  | resetLens | initSeeds | resetFlags | initLate k => cases hOutputs
  | filterSeeds | filterGradvecs1 | filter2_0a | filterGradvecs2 | filter2_0b =>
      cases hOutputs
      decide
  | filter2 index =>
      cases hOutputs
      revert index
      decide

omit [Arith F] in
theorem outputs_ne_seeds {op : Op} (hAfter : 2 ≤ op.position) :
    op.outputs ≠ some outputsFilterSeeds := by
  cases op with
  | filterSeeds => exact absurd hAfter (by decide)
  | filter2 index =>
      clear hAfter
      revert index
      decide
  | resetLens | initSeeds | filterGradvecs1 | filter2_0a | filterGradvecs2 | filter2_0b | resetFlags
  | initLate k => simp [Op.outputs, outputsFilterSeeds, outputsFilterGradvecs1, outputsFilter2_0a,
      outputsFilterGradvecs2, outputsFilter2_0b]

/-- The counters of the buffers differ. -/
theorem eq_of_len_eq : ∀ buffer ∈ outputBuffers, ∀ other ∈ outputBuffers,
    buffer.len = other.len → buffer = other := by
  decide

theorem tidy_next {moment : Snapshot F} (hRoom : Search.Fits F cfg startSeed)
    (hTidy : Tidy cfg startSeed d op) (hAfter : 2 ≤ op.position) (hBefore : Before cfg d op)
    (hExecutes : Executes cfg d moment op) (hFinished : moment.finished)
    (hNext : op.next = some next) (hMatches : moment.device.Matches cfg startSeed (some next)) :
    Tidy cfg startSeed moment.device next := by
  have hFits := InputFits.of_noOverflow hTidy.noOverflow
  have hFrame := opFrame_of_executes hAfter hBefore hFits hExecutes hFinished
  have hSeeds : moment.device.lens outputsFilterSeeds.len = d.lens outputsFilterSeeds.len := by
    apply hFrame.lens
    intro buffer hBuffer hSame
    obtain rfl := eq_of_len_eq _ (outputs_mem hBuffer) _ (by decide) hSame
    exact outputs_ne_seeds hAfter hBuffer
  refine ⟨?_, ?_, fun buffer hBuffer => ?_⟩
  · rw [Device.keptSeeds, hSeeds, hFrame.seeds]
    exact hTidy.keptSeeds
  · rw [hSeeds]
    exact counted_next hAfter hBefore hFits hExecutes hFinished hNext hTidy.counted
  · by_cases hOutputs : op.outputs = some buffer
    · exact lens_outputs_le hRoom hNext hMatches hOutputs
    · rw [hFrame.lens]
      · exact hTidy.noOverflow buffer hBuffer
      · intro other hOther hSame
        exact hOutputs (eq_of_len_eq other (outputs_mem hOther) buffer hBuffer hSame ▸ hOther)

/-- Before every operation after `filter_seeds`. -/
theorem Batch.tidy (hRoom : Search.Fits F cfg startSeed) {following : Option Op}
    (hBatch : Batch cfg startSeed True (fun _ _ => True) d₀ following d) :
    ∀ op, following = some op → 2 ≤ op.position → Tidy cfg startSeed d op := by
  induction hBatch with
  | start =>
      rintro op ⟨⟩ hAfter
      exact absurd hAfter (by decide)
  | @step op d d' hBatch hOk hCompletes ih =>
      intro next hNext hAfter
      obtain ⟨hBefore, hMatches⟩ := hBatch.matches hRoom
      obtain ⟨hBeforeNext, hMatchesNext⟩ := (hBatch.step hOk hCompletes).matches hRoom
      rw [hNext] at hBeforeNext hMatchesNext
      obtain ⟨moment, hExecutes, hFinished, rfl⟩ := hCompletes.executes
      by_cases hFirst : 2 ≤ op.position
      · exact tidy_next hRoom (ih op rfl hFirst) hFirst (hBefore op rfl) hExecutes hFinished hNext
          hMatchesNext
      · rw [Op.position_next hNext] at hAfter
        have hOp : op = .filterSeeds := by
          cases op with
          | filterSeeds => rfl
          | _ => simp [Op.position] at hFirst hAfter <;> omega
        subst hOp
        obtain rfl := Option.some.inj hNext
        refine ⟨hMatchesNext, fun _ hNone => absurd hNone (Option.some_ne_none _).symm, fun buffer hBuffer => ?_⟩
        by_cases hSeeds : buffer = outputsFilterSeeds
        · have hOutputs : Op.filterSeeds.outputs = some buffer := congrArg some hSeeds.symm
          exact lens_outputs_le hRoom hNext hMatchesNext hOutputs
        · have hRank : 1 ≤ buffer.len.rank := by
            revert buffer
            decide
          rw [(hBeforeNext _ rfl).1 _ hRank]
          exact Nat.zero_le _

/-- A batch with room is a run of the pipeline without overflows, if it began with
empty buffers. -/
theorem Batch.reach (hRoom : Search.Fits F cfg startSeed) (hOld : d₀.Old)
    (hLens : NoOverflow .resetLens d₀) {following : Option Op}
    (hBatch : Batch cfg startSeed True (fun _ _ => True) d₀ following d) :
    ∀ op, following = some op → NoOverflow op d ∧ ∃ inits, Reach cfg NoOverflow op d inits := by
  induction hBatch with
  | start =>
      rintro op ⟨⟩
      exact ⟨hLens, [], .start hOld⟩
  | @step op d d' hBatch hOk hCompletes ih =>
      intro next hNext
      obtain ⟨hHere, inits, hReach⟩ := ih op rfl
      have hTidy := (hBatch.step hOk hCompletes).tidy hRoom next hNext
      obtain ⟨hBefore, -⟩ := (hBatch.step hOk hCompletes).matches hRoom
      obtain ⟨moment, hExecutes, hFinished, rfl⟩ := hCompletes.executes
      refine ⟨?_, _, hReach.step hHere hExecutes hFinished hNext⟩
      by_cases hAfter : 2 ≤ next.position
      · exact (hTidy hAfter).noOverflow
      · have hOp : next = .filterSeeds := by
          have hPosition := Op.position_next hNext
          cases next with
          | filterSeeds => rfl
          | resetLens => simp [Op.position] at hPosition
          | _ => simp [Op.position] at hAfter <;> omega
        subst hOp
        intro buffer _
        rw [(hBefore _ hNext) buffer.len (Nat.zero_le _)]
        exact Nat.zero_le _

/-- A batch comes to each of its operations. -/
theorem exists_batch_before (hRoom : Search.Fits F cfg startSeed)
    (hNoise : ∀ seed ∈ Search.batchSeeds F cfg startSeed, ∀ member,
      (octaveNoise (F := F) cfg.fuel cfg.large seed member).isSome) (d₀ : Device F) (op : Op) :
    ∃ d, Batch cfg startSeed True (fun _ _ => True) d₀ (some op) d := by
  by_cases hFirst : op = .resetLens
  · subst hFirst
    exact ⟨d₀, .start⟩
  · obtain ⟨before, hNext⟩ : ∃ before : Op, before.next = some op := by
      cases op with
      | resetLens => exact absurd rfl hFirst
      | filterSeeds => exact ⟨.resetLens, rfl⟩
      | initSeeds => exact ⟨.filterSeeds, rfl⟩
      | filterGradvecs1 => exact ⟨.initSeeds, rfl⟩
      | filter2_0a => exact ⟨.filterGradvecs1, rfl⟩
      | filterGradvecs2 => exact ⟨.filter2_0a, rfl⟩
      | filter2_0b => exact ⟨.filterGradvecs2, rfl⟩
      | resetFlags => exact ⟨.filter2_0b, rfl⟩
      | initLate k =>
          match k with
          | 0 => exact ⟨.resetFlags, rfl⟩
          | 1 => exact ⟨.filter2 0, rfl⟩
          | 2 => exact ⟨.filter2 1, rfl⟩
          | 3 => exact ⟨.filter2 2, rfl⟩
      | filter2 index => exact ⟨.initLate index, rfl⟩
    have hPosition := Op.position_next hNext
    obtain ⟨d, hBatch⟩ := exists_batch_before hRoom hNoise d₀ before
    obtain ⟨hBefore, hMatches⟩ := hBatch.matches hRoom
    obtain ⟨d', hCompletes⟩ := Op.exists_completes hNoise hRoom (hBefore before rfl) hMatches
    exact ⟨d', hNext ▸ hBatch.step trivial hCompletes⟩
termination_by op.position

end Runs

section Launches

omit [Arith F] in
/-- The first thread of a filter comes to sample the octaves of its first input. -/
theorem exists_sampling {K : Kernel (Device F) ρ (ℕ × ℕ) (Cell SeedPos)} {n : ℕ}
    (hThreads : 0 < K.threads) (hLoop : K.first 0 < n) (hIndex : K.index 0 (K.first 0) < n)
    (hItems : K.items 0 ≠ []) (inputs : Option OutputBuffer) (seedIndex : ρ → ℕ)
    (members : List Member) (d : Device F) :
    ∃ moment, ExecutesFilter K n inputs seedIndex members d moment ∧ moment.device = d ∧
      ∀ member ∈ members,
        .octave (seedIndex (K.fetch d (K.index 0 (K.first 0)))) member ∈ moment.accesses := by
  obtain ⟨item, items, hCons⟩ := List.exists_cons_of_ne_nil hItems
  have hStep : K.step n 0 (.loop (K.first 0)) d =
      some (.work (K.first 0) (K.fetch d (K.index 0 (K.first 0))) (item :: items), d) := by
    rw [Kernel.step, if_pos hLoop, if_pos hIndex, hCons]
  have hAdvance : (K.program n).advance ((K.program n).start d) 0 = some ⟨Function.update
      ((K.program n).start d).locals 0
        (.work (K.first 0) (K.fetch d (K.index 0 (K.first 0))) (item :: items)), d, _⟩ :=
    advance_eq_some.mpr ⟨hThreads, _, _, hStep, rfl⟩
  refine ⟨_, ⟨[0], _, Interleaving.run_cons.mpr ⟨_, hAdvance, rfl⟩, rfl⟩, rfl, fun member hMember => ?_⟩
  refine ⟨0, hThreads, ?_⟩
  simp only [Function.update_self]
  exact List.mem_map.mpr ⟨member, hMember, rfl⟩

/-- A finished late kernel has initialised the seed of each of its inputs. -/
theorem mem_inits_of_entry {k : Fin 4} {moment : Snapshot F} (hBefore : Before cfg d (.initLate k))
    (hFits : InputFits (.initLate k) d) (hExecutes : Executes cfg d moment (.initLate k))
    (hFinished : moment.finished) {i : ℕ} (hi : i < d.lens (filter2Inputs k).len) :
    (d.positions (filter2Inputs k).data i).value.seedIndex ∈ moment.inits := by
  have hLength : d.lens (filter2Inputs k).len ≤ (filter2Inputs k).maxLen := hFits (by simp) _ rfl
  have hAfter : 2 ≤ (Op.initLate k).position := by
    simp only [Op.position]
    omega
  have hFrame := opFrame_of_executes hAfter hBefore hFits hExecutes hFinished
  obtain ⟨-, hFlagged⟩ := hBefore.2.below hLength i hi
  obtain ⟨-, hEntries⟩ := initLate_next hBefore hFits hExecutes hFinished
  obtain ⟨-, hAfter⟩ := hEntries i (hi.trans_le hLength) (by
    rw [hFrame.lens _ fun _ hNone => absurd hNone (Option.some_ne_none _).symm]
    exact hi)
  rw [hFrame.positions rfl] at hAfter
  obtain ⟨schedule, pool, hRun, rfl⟩ := hExecutes
  apply KernelSeed1.mem_late_log hRun
  rw [hAfter.flag, hFlagged.flag]
  exact Nat.succ_ne_self _

end Launches

end Commission
