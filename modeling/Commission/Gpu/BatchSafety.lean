import Commission.Gpu.Readiness
import Commission.Gpu.ParallelFilter
import Commission.Noise.SeedAgreement

/-! What follows for whole runs of the pipeline: every octave which a filter
samples is in place, every seed is initialised once a stage, and no consumer leaves
its buffers as long as the counters have not. -/
namespace Commission

open AtomicAppend ThreadPool

variable {F : Type} [Arith F]

/-! The tests of the filters depend on the octaves of their lists only. -/
section Sampled

theorem KernelFilter2Pair.outcome_congr {large : Bool} (T : KernelFilter2.Template large)
    (half : Half) {result result' : Result F}
    (hSame : ∀ member ∈ members half, result member = result' member) (input : SeedPos) :
    outcome T half result input = outcome T half result' input := by
  have hFirst := hSame ⟨0, half⟩ (List.mem_cons_self ..)
  have hSecond := hSame ⟨1, half⟩ (List.mem_cons_of_mem _ (List.mem_cons_self ..))
  have hCount : localCount T half result input = localCount T half result' input := by
    funext lane
    simp only [localCount, hFirst, hSecond]
  simp only [outcome, hCount]

theorem KernelFilter2.outcome_congr {large : Bool} (T : Template large) {result result' : Result F}
    (hSame : ∀ member ∈ members T, result member = result' member) (input : SeedPos) :
    outcome T result input = outcome T result' input := by
  have hValid : valid T result = valid T result' := by
    funext pos
    have hMember : ∀ i ∈ List.range (min T.octaves 18), (T.onlyA = true → i % 2 = 0) →
        result (samplerMember i) = result' (samplerMember i) := by
      intro i hi hEven
      refine hSame _ (List.mem_map.mpr ⟨i, List.mem_filter.mpr ⟨hi, ?_⟩, rfl⟩)
      cases hOnly : T.onlyA with
      | false => rfl
      | true => simpa using hEven hOnly
    simp only [valid]
    split
    · next hOnly =>
        congr 1
        apply List.foldl_ext _ _ _
        intro val i hi
        obtain ⟨hRange, hEven⟩ := List.mem_filter.mp hi
        rw [hMember i hRange fun _ => of_decide_eq_true hEven]
    · next hBoth =>
        congr 1
        apply List.foldl_ext _ _ _
        intro val i hi
        rw [hMember i hi fun hOnly => absurd hOnly hBoth]
  simp only [outcome, hValid]

end Sampled

/-- The operations which run a filter kernel on `results`. -/
def Op.isFilter : Op → Bool
  | filterGradvecs1 | filter2_0a | filterGradvecs2 | filter2_0b | filter2 _ => true
  | resetLens | filterSeeds | initSeeds | resetFlags | initLate _ => false

section Moments

variable {cfg : Config} {d : Device F} {moment : Snapshot F}

omit [Arith F] in
theorem FilterMoment.imp {outputs : OutputBuffer} {members : List Member} {P Q : ℕ → Prop}
    (hImp : ∀ s, P s → Q s) (hMoment : FilterMoment outputs members P d moment) :
    FilterMoment outputs members Q d moment where
  frame := hMoment.frame
  inits := hMoment.inits
  access access hAccess := by
    rcases hMoment.access access hAccess with hInput | ⟨s, member, hOctave, hSeed, hMember⟩
    · exact .inl hInput
    · exact .inr ⟨s, member, hOctave, hImp s hSeed, hMember⟩
  filled hFinished slot hMax hLen := by
    obtain ⟨hBatch, hSeed⟩ := hMoment.filled hFinished slot hMax hLen
    exact ⟨hBatch, hImp _ hSeed⟩

/-- `Octaves` of the templates follows the late stages. -/
theorem filter2_members_ready : ∀ large index, ∀ member ∈ KernelFilter2.members (filter2Runs large index),
    ∃ call ∈ readyCalls (index + 1), call.member = member := by
  decide

/-- A filter finds all octaves which it samples. -/
theorem filterMoment_ready {op : Op} (hFilter : op.isFilter = true) (hBefore : Before cfg d op)
    (hFits : InputFits op d) (hExecutes : Executes cfg d moment op) :
    ∃ outputs members stage, FilterMoment outputs members (Ready cfg d stage) d moment ∧
      ∀ member ∈ members, ∃ call ∈ readyCalls stage, call.member = member := by
  cases op with
  | filterGradvecs1 => exact ⟨_, _, 0, filterGradvecs1_moment hBefore hFits hExecutes, by decide⟩
  | filter2_0a => exact ⟨_, _, 0, filter2_0a_moment hBefore hFits hExecutes, by decide⟩
  | filterGradvecs2 => exact ⟨_, _, 0, filterGradvecs2_moment hBefore hFits hExecutes, by decide⟩
  | filter2_0b => exact ⟨_, _, 0, filter2_0b_moment hBefore hFits hExecutes, by decide⟩
  | filter2 index =>
      exact ⟨_, _, index + 1, (filter2_moment hBefore hFits hExecutes).imp fun _ hFlagged =>
        hFlagged.toReady, filter2_members_ready cfg.large index⟩
  | resetLens | filterSeeds | initSeeds | resetFlags | initLate k => cases hFilter

/-- The octave which a filter accesses holds the noise of the batch's seed. -/
theorem holdsOctave_of_access {op : Op} (hFilter : op.isFilter = true) (hBefore : Before cfg d op)
    (hFits : InputFits op d) (hExecutes : Executes cfg d moment op) {s : ℕ} {member : Member}
    (hAccess : .octave s member ∈ moment.accesses) :
    (moment.device.seeds s).batch = moment.device.batch ∧
      moment.device.HoldsOctave cfg.fuel cfg.large s member := by
  obtain ⟨outputs, members, stage, hMoment, hMembers⟩ :=
    filterMoment_ready hFilter hBefore hFits hExecutes
  rcases hMoment.access _ hAccess with ⟨buffer, index, hOther, -⟩ | ⟨s', member', hSame, hReady, hMember⟩
  · cases hOther
  · cases hSame
    obtain ⟨call, hCall, rfl⟩ := hMembers member hMember
    have hNow := hReady.frame hMoment.frame
    exact ⟨hNow.written, hNow.octaves call hCall⟩

end Moments

section Once

variable {cfg : Config} {d : Device F} {moment : Snapshot F}

/-- The place of an operation in its batch. -/
def Op.position : Op → ℕ
  | resetLens => 0
  | filterSeeds => 1
  | initSeeds => 2
  | filterGradvecs1 => 3
  | filter2_0a => 4
  | filterGradvecs2 => 5
  | filter2_0b => 6
  | resetFlags => 7
  | initLate k => 8 + 2 * k
  | filter2 index => 9 + 2 * index

theorem Op.position_next {op next : Op} (hNext : op.next = some next) :
    next.position = op.position + 1 := by
  cases op with
  | filter2 index =>
      match index, hNext with
      | 0, hNext | 1, hNext | 2, hNext =>
          cases hNext
          rfl
      | 3, hNext => cases hNext
  | initLate k =>
      cases hNext
      simp only [position]
      omega
  | resetLens | filterSeeds | initSeeds | filterGradvecs1 | filter2_0a | filterGradvecs2 | filter2_0b
  | resetFlags =>
      cases hNext
      rfl

/-- Every seed at most once in an operation. -/
theorem count_inits_le_one {op : Op} (hExecutes : Executes cfg d moment op) (s : ℕ) :
    moment.inits.count s ≤ 1 := by
  cases op with
  | initLate k =>
      obtain ⟨schedule, pool, hRun, rfl⟩ := hExecutes
      exact KernelSeed1.count_late_log_le_one (Nat.succ_pos k) s hRun
  | resetLens | resetFlags =>
      obtain rfl := hExecutes
      exact Nat.zero_le 1
  | filterSeeds | initSeeds =>
      obtain ⟨_, schedule, pool, hRun, rfl⟩ := hExecutes
      exact Nat.zero_le 1
  | filterGradvecs1 | filter2_0a | filterGradvecs2 | filter2_0b | filter2 index =>
      obtain ⟨schedule, pool, hRun, rfl⟩ := hExecutes
      exact Nat.zero_le 1

/-- The log of a batch before an operation: no pair twice, and only operations which
are over. -/
structure InitsOnce (op : Op) (inits : List (Op × ℕ)) : Prop where
  count : ∀ entry, inits.count entry ≤ 1
  earlier : ∀ entry ∈ inits, entry.1.position < op.position

theorem InitsOnce.count_append {op : Op} {inits : List (Op × ℕ)} (hInits : InitsOnce op inits)
    (hExecutes : Executes cfg d moment op) (entry : Op × ℕ) :
    (inits ++ moment.inits.map fun s => (op, s)).count entry ≤ 1 := by
  rw [List.count_append]
  by_cases hOp : entry.1 = op
  · have hBefore : entry ∉ inits := by
      intro hEntry
      have hEarlier := hInits.earlier entry hEntry
      rw [hOp] at hEarlier
      exact Nat.lt_irrefl _ hEarlier
    have hEntry : entry = (op, entry.2) := Prod.ext hOp rfl
    have hNow : (moment.inits.map fun s => (op, s)).count entry = moment.inits.count entry.2 := by
      rw [hEntry]
      exact List.count_map_of_injective _ _ (fun _ _ hSame => (Prod.mk.inj hSame).2) _
    rw [List.count_eq_zero_of_not_mem hBefore, hNow, Nat.zero_add]
    exact count_inits_le_one hExecutes entry.2
  · have hNow : entry ∉ moment.inits.map fun s => (op, s) := by
      intro hEntry
      obtain ⟨s, -, rfl⟩ := List.mem_map.mp hEntry
      exact hOp rfl
    rw [List.count_eq_zero_of_not_mem hNow, Nat.add_zero]
    exact hInits.count entry

theorem initsOnce_of_reach {Ok : Op → Device F → Prop} {op : Op} {inits : List (Op × ℕ)}
    (hReach : Reach cfg Ok op d inits) : InitsOnce op inits := by
  induction hReach with
  | start hOld => exact ⟨fun _ => Nat.zero_le 1, fun _ hNone => absurd hNone List.not_mem_nil⟩
  | step hReach hOk hExecutes hFinished hNext ih =>
      refine ⟨ih.count_append hExecutes, fun entry hEntry => ?_⟩
      rw [Op.position_next hNext]
      rcases List.mem_append.mp hEntry with hBefore | hHere
      · exact (ih.earlier entry hBefore).trans (Nat.lt_succ_self _)
      · obtain ⟨s, -, rfl⟩ := List.mem_map.mp hHere
        exact Nat.lt_succ_self _
  | batch hReach hOk hExecutes hFinished hLast ih =>
      exact ⟨fun _ => Nat.zero_le 1, fun _ hNone => absurd hNone List.not_mem_nil⟩

end Once

/-- In a run without overflows every octave which a filter reads was initialised in
this batch for the seed at that index, with the octave's own fork and hash, and each
late stage initialises a seed at most once a batch. -/
theorem lazy_init_complete (cfg : Config) (op : Op) (d : Device F) (inits : List (Op × ℕ))
    (moment : Snapshot F) (hReach : Reach cfg NoOverflow op d inits) (hFits : NoOverflow op d)
    (hExecutes : Executes cfg d moment op) :
    (op.isFilter = true → ∀ s member, .octave s member ∈ moment.accesses →
      (moment.device.seeds s).batch = moment.device.batch ∧
        moment.device.HoldsOctave cfg.fuel cfg.large s member) ∧
      ∀ k s, (inits ++ moment.inits.map fun s => (op, s)).count (.initLate k, s) ≤ 1 := by
  have hBefore := before_of_reach (fun _ _ hFits => .of_noOverflow hFits) hReach
  refine ⟨fun hFilter s member hAccess => ?_, fun k s => ?_⟩
  · exact holdsOctave_of_access hFilter hBefore (.of_noOverflow hFits) hExecutes hAccess
  · exact (initsOnce_of_reach hReach).count_append hExecutes _

section Bounds

/-- The index is inside its array; an entry of a buffer or a seed was also written
in the running batch. -/
def Access.InBounds (now : Device F) : Access → Prop
  | .input buffer index =>
      index < buffer.maxLen ∧ (now.positions buffer.data index).batch = now.batch
  | .seed index => index < outputsFilterSeeds.maxLen ∧ (now.seeds index).batch = now.batch
  | .octave seedIndex _ | .initFlag seedIndex => seedIndex < KernelSeed1.threadsPerRun

variable {cfg : Config} {d : Device F} {moment : Snapshot F}

/-- The grid of `KernelSeed1::kernel` has a thread for each slot and no more. -/
theorem initSeeds_inBounds (hBefore : Before cfg d .initSeeds)
    (hExecutes : Executes cfg d moment .initSeeds) {access : Access}
    (hAccess : access ∈ moment.accesses) : access.InBounds moment.device := by
  obtain ⟨shared, schedule, pool, hRun, rfl⟩ := hExecutes
  obtain ⟨hMem, -⟩ := KernelSeed1.run_inv (d := d) hRun
  obtain ⟨t, ht, hThread⟩ := hAccess
  have hGrid : t < KernelSeed1.threadsPerRun := ht
  cases hLocal : pool.locals t with
  | entry | done =>
      rw [hLocal] at hThread
      cases hThread
  | load =>
      rw [hLocal, KernelSeed1.accesses] at hThread
      split at hThread
      · next hActive =>
          obtain rfl := List.mem_singleton.mp hThread
          refine ⟨hGrid, ?_⟩
          change (pool.mem.device.seeds t).batch = pool.mem.device.batch
          rw [hMem.frame]
          exact hBefore.2 t hGrid hActive
      · cases hThread
  | run seed calls phase =>
      rw [hLocal] at hThread
      cases calls with
      | nil => cases hThread
      | cons call rest =>
          cases phase with
          | copy i =>
              rw [KernelSeed1.accesses] at hThread
              split at hThread
              · next hCopy =>
                  obtain rfl := List.mem_singleton.mp hThread
                  have hTotal := hCopy.1
                  simp only [Access.InBounds, KernelSeed1.threadsPerRun, KernelSeed1.totalU4,
                    KernelSeed1.blockBase, KernelSeed1.threadsPerBlock, u4PerStruct] at hTotal hGrid ⊢
                  omega
              · cases hThread
          | init | filled | waitFilled | copied | waitCopied => cases hThread

/-- A late kernel uses the seed indices of its inputs. -/
theorem initLate_inBounds {k : Fin 4} (hBefore : Before cfg d (.initLate k))
    (hFits : InputFits (.initLate k) d) (hExecutes : Executes cfg d moment (.initLate k))
    {access : Access} (hAccess : access ∈ moment.accesses) : access.InBounds moment.device := by
  obtain ⟨schedule, pool, hRun, rfl⟩ := hExecutes
  have hLength : d.lens (filter2Inputs k).len ≤ (filter2Inputs k).maxLen := hFits (by simp) _ rfl
  have hInputs := hBefore.2.below hLength
  have hBound : d.lens (filter2Inputs k).len + KernelSeed1.lateThreads ≤ 2 ^ 32 :=
    (Nat.add_le_add_right hLength _).trans (filter2Inputs_bound k)
  have hInv := KernelSeed1.run_lateInv (Nat.succ_pos k) hBound (fun i hi => (hInputs i hi).2.flag) hRun
  have hSeeds : pool.mem.seeds = d.seeds := by rw [hInv.mem.frame]
  have hBatch : pool.mem.batch = d.batch := by rw [hInv.mem.frame]
  obtain ⟨t, ht, hThread⟩ := hAccess
  have hProgress := hInv.locals t ht
  -- A seed index at which a thread is comes from one of the inputs.
  have hSeed : ∀ {i seedIndex}, KernelSeed1.AtInput (filter2Inputs k) (d.lens (filter2Inputs k).len) d
      t i seedIndex → Flagged cfg d k seedIndex := by
    intro i seedIndex hInput
    rw [hInput.seed_eq]
    exact (hInputs i hInput.lt).2
  cases hLocal : pool.locals t with
  | loop i =>
      rw [hLocal, KernelSeed1.lateAccesses] at hThread
      split at hThread
      · next hi =>
          obtain rfl := List.mem_singleton.mp hThread
          refine ⟨hi.trans_le hLength, ?_⟩
          change (pool.mem.positions _ i).batch = pool.mem.batch
          rw [hInv.mem.frame]
          exact (hInputs i hi).1
      · cases hThread
  | cas i seedIndex =>
      rw [hLocal] at hThread hProgress
      obtain rfl := List.mem_singleton.mp hThread
      exact (hSeed hProgress.1).lt
  | load i seedIndex =>
      rw [hLocal] at hThread hProgress
      obtain rfl := List.mem_singleton.mp hThread
      refine ⟨(hSeed hProgress.1).lt, ?_⟩
      change (pool.mem.seeds seedIndex).batch = pool.mem.batch
      rw [hSeeds, hBatch]
      exact (hSeed hProgress.1).written
  | init i seedIndex seed calls =>
      rw [hLocal] at hThread
      cases hThread
  | copy i seedIndex seed call rest noise word =>
      rw [hLocal] at hThread hProgress
      obtain rfl := List.mem_singleton.mp hThread
      obtain ⟨finished, hInit, -⟩ := hProgress
      exact (hSeed hInit.toAtInput).lt

theorem filter_inBounds {op : Op} (hFilter : op.isFilter = true) (hBefore : Before cfg d op)
    (hFits : InputFits op d) (hExecutes : Executes cfg d moment op) {access : Access}
    (hAccess : access ∈ moment.accesses) : access.InBounds moment.device := by
  obtain ⟨outputs, members, stage, hMoment, -⟩ := filterMoment_ready hFilter hBefore hFits hExecutes
  rcases hMoment.access access hAccess with
    ⟨buffer, index, rfl, hIndex, hWritten⟩ | ⟨s, member, rfl, hReady, -⟩
  · exact ⟨hIndex, hWritten.trans hMoment.frame.batch.symm⟩
  · exact hReady.lt

/-- In a run in which every consumer other than `KernelSeed1::kernel` began with a
counter inside its input buffer, every access is in bounds. -/
theorem accesses_in_bounds (cfg : Config) (op : Op) (d : Device F) (inits : List (Op × ℕ))
    (moment : Snapshot F) (hReach : Reach cfg InputFits op d inits) (hFits : InputFits op d)
    (hExecutes : Executes cfg d moment op) :
    ∀ access ∈ moment.accesses, access.InBounds moment.device := by
  have hBefore := before_of_reach (fun _ _ hFits => hFits) hReach
  intro access hAccess
  cases op with
  | resetLens | resetFlags =>
      obtain rfl := hExecutes
      exact hAccess.elim
  | filterSeeds =>
      obtain ⟨startSeed, schedule, pool, hRun, rfl⟩ := hExecutes
      exact hAccess.elim
  | initSeeds => exact initSeeds_inBounds hBefore hExecutes hAccess
  | initLate k => exact initLate_inBounds hBefore hFits hExecutes hAccess
  | filterGradvecs1 | filter2_0a | filterGradvecs2 | filter2_0b | filter2 index =>
      exact filter_inBounds rfl hBefore hFits hExecutes hAccess

end Bounds

section Crowded

/-- The octaves of seed 1 need no redraw. -/
theorem octaveNoise_one : ∀ call ∈ kernelCalls,
    ∃ noise, octaveNoise (F := ℚ) 0 false 1#64 call.member = some noise := by
  have hStates : StatesNonzero false 1#64 := by decide +kernel
  have hAccepted : ∀ call ∈ kernelCalls, octaveAccepted (octaveState false 1#64 call.member) = true := by
    decide +kernel
  intro call hCall
  have hRel := call_noise_matches 0 hStates (show call ∈ seedCalls by
    simp only [seedCalls, List.append_assoc]
    exact List.mem_append_left _ hCall)
  obtain ⟨perlin, hPerlin⟩ := Option.isSome_iff_exists.mp
    (xPerlinInit_isSome (hAccepted call hCall) 0)
  rw [hPerlin, InitCall.noise_eq 0 false 1#64 (kernelCalls_own call hCall)] at hRel
  cases hNoise : octaveNoise (F := ℚ) 0 false 1#64 call.member with
  | none =>
      rw [hNoise] at hRel
      cases hRel
  | some noise => exact ⟨noise, rfl⟩

/-- A batch in which `filter_seeds` has counted one seed more than it had room for,
after `init_seeds`. -/
def crowdedDevice : Device ℚ where
  lens := Function.update (fun _ => 0) .filterSeeds 65537
  seeds _ := ⟨1#64, 1⟩
  results _ member _ := ⟨(octaveNoise 0 false 1#64 member).getD ⟨fun _ => 0, 0, 0, 0⟩, 1⟩
  initFlags _ := 0
  positions _ _ := ⟨⟨0, 0, 0⟩, 0⟩
  batch := 1

def crowdedConfig : Config := ⟨false, false, 0⟩

theorem crowded_before : Before crowdedConfig crowdedDevice .filterGradvecs1 := by
  refine ⟨fun id hRank => ?_, fun s hs _ => ⟨hs, rfl, fun call hCall => ?_⟩⟩
  · have hOther : id ≠ .filterSeeds := by
      rintro rfl
      exact absurd hRank (by decide)
    simp only [crowdedDevice, Function.update_of_ne hOther]
  · obtain ⟨noise, hNoise⟩ := octaveNoise_one call hCall
    refine ⟨noise, hNoise, fun word _ => ?_⟩
    simp only [crowdedDevice, hNoise, Option.getD_some]

/-- Block 0 of `KernelFilterGradVecs1::kernel` then comes to `results[65536]`, which
is behind the end of the array. -/
theorem crowded_out_of_bounds :
    Before crowdedConfig crowdedDevice .filterGradvecs1 ∧
      ∃ moment, Executes crowdedConfig crowdedDevice moment .filterGradvecs1 ∧
        ∃ access ∈ moment.accesses, ¬ access.InBounds moment.device := by
  refine ⟨crowded_before, ?_⟩
  have hFits : (KernelFilterGradVecs1.kernel (F := ℚ) false outputsFilterGradvecs1).Fits 65537 :=
    KernelFilterGradVecs1.fits false outputsFilterGradvecs1 (by decide)
  obtain ⟨schedule, pool, hRun, hLocal⟩ := canLoop_start hFits (t := 0) (by decide) crowdedDevice 32
    (by decide)
  have hLocal : pool.locals 0 = .loop 65536 := hLocal
  have hAdvance : ((KernelFilterGradVecs1.kernel false outputsFilterGradvecs1).program 65537).advance
      pool 0 = some ⟨Function.update pool.locals 0
        (.work 65536 65536 ((List.range 256).map fun nx => (nx, 0))), pool.mem, _⟩ :=
    advance_eq_some.mpr ⟨by decide, _, _, by rw [hLocal]; rfl, rfl⟩
  have hRun' := (Interleaving.run_append schedule [0]).trans
    (Option.bind_eq_some_iff.mpr ⟨pool, hRun, Interleaving.run_cons.mpr ⟨_, hAdvance, rfl⟩⟩)
  refine ⟨_, ⟨schedule ++ [0], _, hRun', rfl⟩, .octave 65536 ⟨0, .a⟩, ⟨0, by decide, ?_⟩, ?_⟩
  · simp only [Function.update_self]
    exact List.mem_singleton_self _
  · exact Nat.lt_irrefl 65536

end Crowded

end Commission
