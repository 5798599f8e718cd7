import Commission.Gpu.SeedKernels

/-! What `KernelSeed1::kernel` leaves in `results`: the first octaves of every seed
of the batch, word by word, for every order of steps between its barriers. -/
namespace Commission

open ThreadPool

variable {F : Type} [Arith F]

/-- `init_noise` for an octave of a seed, with the fork and the hash of the octave. -/
def octaveNoise (fuel : ℕ) (large : Bool) (seed : BitVec 64) (member : Member) :
    Option (ImprovedNoise F) :=
  initNoise fuel
    ((noiseForkOf large seed member.half).from (octaveConfig large member).forkHash)

theorem InitCall.noise_eq (fuel : ℕ) (large : Bool) (seed : BitVec 64) {call : InitCall}
    (hCall : call.Own) :
    call.noise (F := F) fuel large seed = octaveNoise fuel large seed call.member := by
  rw [InitCall.noise, octaveNoise, hCall.1, hCall.2]

namespace Device

/-- The word was written in the running batch with a part of the octave's noise. -/
def HoldsWord (fuel : ℕ) (large : Bool) (d : Device F) (seedIndex : ℕ) (member : Member)
    (word : ℕ) : Prop :=
  ∃ noise, octaveNoise fuel large (d.seeds seedIndex).value member = some noise ∧
    d.results seedIndex member word = ⟨noise, d.batch⟩

/-- The octave slot holds the noise of the seed which is at this index in the
running batch. -/
def HoldsOctave (fuel : ℕ) (large : Bool) (d : Device F) (seedIndex : ℕ) (member : Member) : Prop :=
  ∃ noise, octaveNoise fuel large (d.seeds seedIndex).value member = some noise ∧
    d.HoldsNoise seedIndex member noise

variable {fuel : ℕ} {large : Bool} {d : Device F} {seedIndex : ℕ} {member : Member}

theorem holdsOctave_of_words
    (hWords : ∀ word < u4PerStruct, d.HoldsWord fuel large seedIndex member word) :
    d.HoldsOctave fuel large seedIndex member := by
  obtain ⟨noise, hNoise, -⟩ := hWords 0 (by decide)
  refine ⟨noise, hNoise, fun word hWord => ?_⟩
  obtain ⟨other, hOther, hResult⟩ := hWords word hWord
  rw [hNoise] at hOther
  cases hOther
  exact hResult

theorem HoldsOctave.word (hHolds : d.HoldsOctave fuel large seedIndex member) {word : ℕ}
    (hWord : word < u4PerStruct) : d.HoldsWord fuel large seedIndex member word := by
  obtain ⟨noise, hNoise, hResult⟩ := hHolds
  exact ⟨noise, hNoise, hResult word hWord⟩

/-- What a kernel reads from such a slot. -/
theorem HoldsOctave.octaveNoise_eq (hHolds : d.HoldsOctave fuel large seedIndex member) :
    octaveNoise fuel large (d.seeds seedIndex).value member = some (d.noise seedIndex member) := by
  obtain ⟨noise, hNoise, hResult⟩ := hHolds
  rw [hNoise, hResult.noise_eq]

/-- A word with the right noise of its octave keeps all words which are right, and
becomes one. -/
theorem holdsWord_copyWord {s : ℕ} {m : Member} {w : ℕ} {noise : ImprovedNoise F}
    (hNoise : octaveNoise fuel large (d.seeds s).value m = some noise) {word : ℕ}
    (hWord : d.HoldsWord fuel large seedIndex member word ∨
      seedIndex = s ∧ member = m ∧ word = w) :
    (d.copyWord s m w noise).HoldsWord fuel large seedIndex member word := by
  by_cases hHere : seedIndex = s ∧ member = m ∧ word = w
  · refine ⟨noise, ?_, if_pos hHere⟩
    rw [hHere.1, hHere.2.1]
    exact hNoise
  · obtain ⟨held, hHeld, hResult⟩ := hWord.resolve_right hHere
    exact ⟨held, hHeld, (if_neg hHere).trans hResult⟩

end Device

namespace KernelSeed1

theorem blockBase_add {t place : ℕ} (hPlace : place < threadsPerBlock) :
    blockBase (blockBase t + place) = blockBase t := by
  simp only [blockBase, threadsPerBlock] at hPlace ⊢
  omega

theorem mod_of_blockBase (t : ℕ) : blockBase t + t % threadsPerBlock = t := by
  rw [blockBase, Nat.mul_comm]
  exact Nat.div_add_mod t threadsPerBlock

namespace Memory

omit [Arith F] in
/-- A thread which passes the barrier knows that its whole block has arrived. -/
theorem arrived_of_allArrived {m : Memory F} {t u : ℕ} (hAll : m.allArrived t = true)
    (hBlock : blockBase u = blockBase t) : m.arrived t ≤ m.arrived u := by
  have hPlace := List.all_eq_true.mp hAll (u % threadsPerBlock)
    (List.mem_range.mpr (Nat.mod_lt u (by decide)))
  rw [← hBlock, mod_of_blockBase] at hPlace
  exact of_decide_eq_true hPlace

omit [Arith F] in
@[simp] theorem arrive_arrived_self (m : Memory F) (t : ℕ) :
    (m.arrive t).arrived t = m.arrived t + 1 :=
  Function.update_self ..

omit [Arith F] in
theorem arrive_arrived_of_ne (m : Memory F) {t u : ℕ} (hOther : u ≠ t) :
    (m.arrive t).arrived u = m.arrived u :=
  Function.update_of_ne hOther _ _

omit [Arith F] in
theorem arrived_le_arrive (m : Memory F) (t u : ℕ) : m.arrived u ≤ (m.arrive t).arrived u := by
  by_cases hSame : u = t
  · rw [hSame, arrive_arrived_self]
    exact Nat.le_succ _
  · rw [arrive_arrived_of_ne m hSame]

end Memory

namespace Phase

/-- Barriers of the current call at which the thread has arrived. -/
def arrivals : Phase → ℕ
  | init | filled => 0
  | waitFilled | copy _ | copied => 1
  | waitCopied => 2

/-- Barriers of the current call which the thread has passed. -/
def passed : Phase → ℕ
  | init | filled | waitFilled => 0
  | copy _ | copied | waitCopied => 1

end Phase

section Invariant

variable (fuel : ℕ) (large : Bool) (d : Device F) (n : ℕ)

/-- The words below flat index `bound` which are for thread `t` to copy. -/
def CopiedBelow (m : Memory F) (t : ℕ) (member : Member) (bound : ℕ) : Prop :=
  ∀ i < bound, i < totalU4 → i % threadsPerBlock = t % threadsPerBlock →
    blockBase t + i / u4PerStruct < n →
    m.device.HoldsWord fuel large (blockBase t + i / u4PerStruct) member (i % u4PerStruct)

/-- What a thread has done of the current call. -/
def AtPhase (m : Memory F) (t : ℕ) (member : Member) : Phase → Prop
  | .init | .waitFilled => True
  | .filled => t < n → octaveNoise fuel large (d.seeds t).value member = some (m.sharedNoise t)
  | .copy i => i % threadsPerBlock = t % threadsPerBlock ∧ CopiedBelow fuel large n m t member i
  | .copied | .waitCopied => CopiedBelow fuel large n m t member totalU4

/-- A thread with the given calls left: it has arrived at the barriers of the
finished ones, and nobody in its block is behind a barrier it has passed. -/
structure RunInv (m : Memory F) (t : ℕ) (seed : BitVec 64) (finished calls : List InitCall)
    (phase : Phase) : Prop where
  split : kernelCalls = finished ++ calls
  seed_eq : t < n → seed = (d.seeds t).value
  copied : ∀ call ∈ finished, CopiedBelow fuel large n m t call.member totalU4
  arrived : m.arrived t = 2 * finished.length + phase.arrivals
  block : ∀ u, blockBase u = blockBase t → 2 * finished.length + phase.passed ≤ m.arrived u
  current : ∀ call rest, calls = call :: rest → AtPhase fuel large d n m t call.member phase

def Progress (m : Memory F) (t : ℕ) : Pc → Prop
  | .entry | .load => m.arrived t = 0
  | .run seed calls phase => ∃ finished, RunInv fuel large d n m t seed finished calls phase
  | .done => n ≤ blockBase t ∨ ∀ call ∈ kernelCalls, CopiedBelow fuel large n m t call.member totalU4

/-- The memory of the kernel. The shared copy of a thread is the noise of its
current call from the first barrier on until the whole block is at the second. -/
structure MemoryInv (m : Memory F) : Prop where
  frame : m.device = { d with results := m.device.results }
  near : ∀ t u, blockBase u = blockBase t → m.arrived u ≤ m.arrived t + 1
  shared : ∀ v < n, ∀ finished call rest, kernelCalls = finished ++ call :: rest →
    (m.arrived v = 2 * finished.length + 1 ∨ m.arrived v = 2 * finished.length + 2 ∧
      ∃ u, blockBase u = blockBase v ∧ m.arrived u < 2 * finished.length + 2) →
    octaveNoise fuel large (d.seeds v).value call.member = some (m.sharedNoise v)

end Invariant

section Steps

variable {fuel : ℕ} {large : Bool} {d : Device F} {n t : ℕ} {m m' : Memory F}

theorem CopiedBelow.mono {member : Member} {bound : ℕ}
    (hWords : ∀ s member word, m.device.HoldsWord fuel large s member word →
      m'.device.HoldsWord fuel large s member word)
    (hCopied : CopiedBelow fuel large n m t member bound) :
    CopiedBelow fuel large n m' t member bound :=
  fun i hBound hTotal hOwn hIndex => hWords _ _ _ (hCopied i hBound hTotal hOwn hIndex)

/-- The state of a thread outlasts the steps of the others. -/
theorem Progress.mono {pc : Pc}
    (hWords : ∀ s member word, m.device.HoldsWord fuel large s member word →
      m'.device.HoldsWord fuel large s member word)
    (hArrived : ∀ u, m.arrived u ≤ m'.arrived u) (hSame : m'.arrived t = m.arrived t)
    (hShared : m'.sharedNoise t = m.sharedNoise t) (hProgress : Progress fuel large d n m t pc) :
    Progress fuel large d n m' t pc := by
  cases pc with
  | entry | load => exact hSame.trans hProgress
  | done => exact hProgress.imp id fun hAll call hCall => (hAll call hCall).mono hWords
  | run seed calls phase =>
      obtain ⟨finished, hInv⟩ := hProgress
      refine ⟨finished, hInv.split, hInv.seed_eq, fun call hCall => (hInv.copied call hCall).mono hWords,
        hSame.trans hInv.arrived, fun u hBlock => (hInv.block u hBlock).trans (hArrived u),
        fun call rest hCalls => ?_⟩
      have hCurrent := hInv.current call rest hCalls
      cases phase with
      | init | waitFilled => trivial
      | filled => exact fun hActive => hShared ▸ hCurrent hActive
      | copy i => exact ⟨hCurrent.1, hCurrent.2.mono hWords⟩
      | copied | waitCopied => exact CopiedBelow.mono hWords hCurrent

theorem MemoryInv.arrive (hInv : MemoryInv fuel large d n m)
    (hBlock : ∀ u, blockBase u = blockBase t → m.arrived t ≤ m.arrived u)
    (hShared : t < n → ∀ finished call rest, kernelCalls = finished ++ call :: rest →
      m.arrived t = 2 * finished.length ∨ m.arrived t = 2 * finished.length + 1 →
      octaveNoise fuel large (d.seeds t).value call.member = some (m.sharedNoise t)) :
    MemoryInv fuel large d n (m.arrive t) := by
  have hMore := m.arrived_le_arrive t
  refine ⟨hInv.frame, fun u v hMates => ?_, fun v hv finished call rest hSplit hArrived => ?_⟩
  · by_cases hSame : v = t
    · subst hSame
      rw [Memory.arrive_arrived_self]
      exact Nat.succ_le_succ ((hBlock u hMates.symm).trans (hMore u))
    · rw [Memory.arrive_arrived_of_ne m hSame]
      exact (hInv.near u v hMates).trans (Nat.succ_le_succ (hMore u))
  · by_cases hSame : v = t
    · subst hSame
      apply hShared hv finished call rest hSplit
      rw [Memory.arrive_arrived_self] at hArrived
      omega
    · rw [Memory.arrive_arrived_of_ne m hSame] at hArrived
      refine hInv.shared v hv finished call rest hSplit (hArrived.imp id ?_)
      rintro ⟨hSecond, u, hMates, hBehind⟩
      exact ⟨hSecond, u, hMates, (hMore u).trans_lt hBehind⟩

theorem Progress.arrive {u : ℕ} {pc : Pc} (hOther : u ≠ t)
    (hProgress : Progress fuel large d n m u pc) : Progress fuel large d n (m.arrive t) u pc :=
  hProgress.mono (m := m) (fun _ _ _ hWord => hWord) (m.arrived_le_arrive t)
    (m.arrive_arrived_of_ne hOther) rfl

/-- Equally many finished calls are the same ones. -/
theorem split_unique {finished finished' calls calls' : List InitCall}
    (hSplit : kernelCalls = finished ++ calls) (hSplit' : kernelCalls = finished' ++ calls')
    (hLength : finished.length = finished'.length) : calls = calls' :=
  (List.append_inj (hSplit.symm.trans hSplit') hLength).2

variable {seed : BitVec 64} {finished : List InitCall} {call : InitCall} {rest : List InitCall}

/-- `init_noise` into the thread's own shared copy. -/
theorem RunInv.fill {noise : ImprovedNoise F} (hMem : MemoryInv fuel large d n m)
    (hInv : RunInv fuel large d n m t seed finished (call :: rest) .init) (hActive : t < n)
    (hNoise : call.noise fuel large seed = some noise) :
    MemoryInv fuel large d n { m with sharedNoise := Function.update m.sharedNoise t noise } ∧
      RunInv fuel large d n { m with sharedNoise := Function.update m.sharedNoise t noise } t seed
        finished (call :: rest) .filled := by
  have hCall : call ∈ kernelCalls := by
    rw [hInv.split]
    exact List.mem_append_right _ (List.mem_cons_self ..)
  rw [InitCall.noise_eq fuel large seed (kernelCalls_own call hCall), hInv.seed_eq hActive] at hNoise
  have hArrived : m.arrived t = 2 * finished.length := hInv.arrived
  refine ⟨⟨hMem.frame, hMem.near, fun v hv before current after hSplit hShared => ?_⟩, hInv.split,
    hInv.seed_eq, hInv.copied, hInv.arrived, hInv.block, fun current after hCalls _ => ?_⟩
  · by_cases hSame : v = t
    · -- The block has left the second barrier of the call before, so nobody needs the old copy.
      subst hSame
      rcases hShared with hFirst | ⟨hSecond, u, hMates, hBehind⟩
      · change m.arrived v = _ at hFirst
        omega
      · have hBlock : 2 * finished.length ≤ m.arrived u := hInv.block u hMates
        change m.arrived v = _ at hSecond
        change m.arrived u < _ at hBehind
        omega
    · simp only [Function.update_of_ne hSame]
      exact hMem.shared v hv before current after hSplit hShared
  · cases hCalls
    simp only [Function.update_self]
    exact hNoise

/-- Arrival at the first barrier. -/
theorem RunInv.arriveFilled (hMem : MemoryInv fuel large d n m)
    (hInv : RunInv fuel large d n m t seed finished (call :: rest) .filled) :
    MemoryInv fuel large d n (m.arrive t) ∧
      RunInv fuel large d n (m.arrive t) t seed finished (call :: rest) .waitFilled := by
  have hArrived : m.arrived t = 2 * finished.length := hInv.arrived
  refine ⟨hMem.arrive (fun u hMates => hArrived.trans_le (hInv.block u hMates)) ?_, hInv.split,
    hInv.seed_eq, hInv.copied, ?_, fun u hMates => ?_, fun _ _ _ => trivial⟩
  · intro hActive before current after hSplit hLength
    have hCalls := split_unique hInv.split hSplit (by omega)
    cases hCalls
    exact hInv.current call rest rfl hActive
  · rw [Memory.arrive_arrived_self, hArrived]
    rfl
  · exact (hInv.block u hMates).trans (m.arrived_le_arrive t u)

/-- Arrival at the second barrier. -/
theorem RunInv.arriveCopied (hMem : MemoryInv fuel large d n m)
    (hInv : RunInv fuel large d n m t seed finished (call :: rest) .copied) :
    MemoryInv fuel large d n (m.arrive t) ∧
      RunInv fuel large d n (m.arrive t) t seed finished (call :: rest) .waitCopied := by
  have hArrived : m.arrived t = 2 * finished.length + 1 := hInv.arrived
  refine ⟨hMem.arrive (fun u hMates => hArrived.trans_le (hInv.block u hMates)) ?_, hInv.split,
    hInv.seed_eq, hInv.copied, ?_, fun u hMates => ?_, hInv.current⟩
  · intro hActive before current after hSplit hLength
    have hCalls := split_unique hInv.split hSplit (by omega)
    cases hCalls
    exact hMem.shared t hActive finished call rest hInv.split (.inl hArrived)
  · rw [Memory.arrive_arrived_self, hArrived]
    rfl
  · exact (hInv.block u hMates).trans (m.arrived_le_arrive t u)

/-- The barriers let only the noise of the current call reach `results`. -/
theorem RunInv.octaveNoise_shared {i : ℕ} (hMem : MemoryInv fuel large d n m)
    (hInv : RunInv fuel large d n m t seed finished (call :: rest) (.copy i)) (hTotal : i < totalU4)
    (hIndex : blockBase t + i / u4PerStruct < n) :
    octaveNoise fuel large (d.seeds (blockBase t + i / u4PerStruct)).value call.member =
      some (m.sharedNoise (blockBase t + i / u4PerStruct)) := by
  have hMates : blockBase (blockBase t + i / u4PerStruct) = blockBase t :=
    blockBase_add (Nat.div_lt_of_lt_mul (hTotal.trans_eq (Nat.mul_comm _ _)))
  have hArrived : m.arrived t = 2 * finished.length + 1 := hInv.arrived
  have hBlock : 2 * finished.length + 1 ≤ m.arrived (blockBase t + i / u4PerStruct) :=
    hInv.block _ hMates
  have hNear := hMem.near t _ hMates
  apply hMem.shared _ hIndex finished call rest hInv.split
  rcases Nat.eq_or_lt_of_le hBlock with hFirst | hSecond
  · exact .inl hFirst.symm
  · exact .inr ⟨by omega, t, hMates.symm, by omega⟩

/-- One pass of the copy loop. -/
theorem RunInv.copyNoise {i : ℕ} (hMem : MemoryInv fuel large d n m)
    (hInv : RunInv fuel large d n m t seed finished (call :: rest) (.copy i)) (hTotal : i < totalU4) :
    (∀ s member word, m.device.HoldsWord fuel large s member word →
        (copyNoise n t call.member i m).device.HoldsWord fuel large s member word) ∧
      MemoryInv fuel large d n (copyNoise n t call.member i m) ∧
      RunInv fuel large d n (copyNoise n t call.member i m) t seed finished (call :: rest)
        (.copy (i + threadsPerBlock)) := by
  obtain ⟨hOwn, hBelow⟩ := hInv.current call rest rfl
  have hNextOwn : (i + threadsPerBlock) % threadsPerBlock = t % threadsPerBlock := by
    rw [Nat.add_mod_right, hOwn]
  -- The next index of this thread is a whole block further on.
  have hLast : ∀ j < i + threadsPerBlock, j % threadsPerBlock = t % threadsPerBlock → j < i ∨ j = i := by
    intro j hj hMod
    simp only [threadsPerBlock] at hj hMod hOwn
    omega
  rw [KernelSeed1.copyNoise]
  split
  · next hIndex =>
      have hNoise := hInv.octaveNoise_shared hMem hTotal hIndex
      have hSeeds : m.device.seeds = d.seeds := by rw [hMem.frame]
      rw [← hSeeds] at hNoise
      have hWords := fun s member word
        (hWord : m.device.HoldsWord fuel large s member word) =>
          Device.holdsWord_copyWord (w := i % u4PerStruct) hNoise (.inl hWord)
      refine ⟨hWords, ⟨?_, hMem.near, hMem.shared⟩, hInv.split, hInv.seed_eq,
        fun done hDone => (hInv.copied done hDone).mono hWords, hInv.arrived, hInv.block, ?_⟩
      · simp only [Device.copyWord]
        rw [hMem.frame]
      · rintro _ _ ⟨⟩
        refine ⟨hNextOwn, fun j hj hjTotal hjOwn hjIndex => ?_⟩
        rcases hLast j hj hjOwn with hBefore | rfl
        · exact hWords _ _ _ (hBelow j hBefore hjTotal hjOwn hjIndex)
        · exact Device.holdsWord_copyWord hNoise (.inr ⟨rfl, rfl, rfl⟩)
  · next hIndex =>
      refine ⟨fun _ _ _ hWord => hWord, hMem, hInv.split, hInv.seed_eq, hInv.copied, hInv.arrived,
        hInv.block, ?_⟩
      rintro _ _ ⟨⟩
      refine ⟨hNextOwn, fun j hj hjTotal hjOwn hjIndex => ?_⟩
      rcases hLast j hj hjOwn with hBefore | rfl
      · exact hBelow j hBefore hjTotal hjOwn hjIndex
      · exact absurd hjIndex hIndex

/-- The first barrier is passed. -/
theorem RunInv.passFilled
    (hInv : RunInv fuel large d n m t seed finished (call :: rest) .waitFilled)
    (hAll : m.allArrived t = true) :
    RunInv fuel large d n m t seed finished (call :: rest) (.copy (t % threadsPerBlock)) := by
  have hArrived : m.arrived t = 2 * finished.length + 1 := hInv.arrived
  refine ⟨hInv.split, hInv.seed_eq, hInv.copied, hArrived, fun u hMates => ?_, fun _ _ _ => ?_⟩
  · exact hArrived.symm.trans_le (Memory.arrived_of_allArrived hAll hMates)
  · refine ⟨Nat.mod_mod _ _, fun j hj _ hOwn _ => ?_⟩
    have hSmall := Nat.mod_eq_of_lt (hj.trans (Nat.mod_lt t (by decide)))
    omega

/-- The second barrier is passed, and the call is finished. -/
theorem RunInv.passCopied
    (hInv : RunInv fuel large d n m t seed finished (call :: rest) .waitCopied)
    (hAll : m.allArrived t = true) :
    RunInv fuel large d n m t seed (finished ++ [call]) rest .init := by
  have hArrived : m.arrived t = 2 * (finished ++ [call]).length := by
    rw [List.length_append, List.length_singleton]
    exact hInv.arrived
  refine ⟨by rw [List.append_assoc]; exact hInv.split, hInv.seed_eq, fun done hDone => ?_, hArrived,
    fun u hMates => ?_, fun _ _ _ => trivial⟩
  · rcases List.mem_append.mp hDone with hBefore | hHere
    · exact hInv.copied done hBefore
    · obtain rfl := List.mem_singleton.mp hHere
      exact hInv.current done rest rfl
  · exact hArrived.symm.trans_le (Memory.arrived_of_allArrived hAll hMates)

theorem initOctave_inv {phase : Phase} {pc' : Pc} (hMem : MemoryInv fuel large d n m)
    (hInv : RunInv fuel large d n m t seed finished (call :: rest) phase)
    (hStep : initOctave fuel large n t seed call rest phase m = some (pc', m')) :
    MemoryInv fuel large d n m' ∧ Progress fuel large d n m' t pc' ∧
      ∀ u pc, u ≠ t → Progress fuel large d n m u pc → Progress fuel large d n m' u pc := by
  cases phase with
  | init =>
      simp only [initOctave] at hStep
      split at hStep
      · next hActive =>
          obtain ⟨noise, hNoise, hNext⟩ := Option.map_eq_some_iff.mp hStep
          cases hNext
          obtain ⟨hMem', hInv'⟩ := hInv.fill hMem hActive hNoise
          refine ⟨hMem', ⟨finished, hInv'⟩, fun u pc hOther hProgress => ?_⟩
          exact hProgress.mono (m := m) (fun _ _ _ hWord => hWord) (fun _ => Nat.le_refl _) rfl
            (Function.update_of_ne hOther _ _)
      · next hIdle =>
          cases hStep
          refine ⟨hMem, ⟨finished, hInv.split, hInv.seed_eq, hInv.copied, hInv.arrived, hInv.block, ?_⟩,
            fun _ _ _ hProgress => hProgress⟩
          exact fun _ _ _ hActive => absurd hActive hIdle
  | filled =>
      cases hStep
      obtain ⟨hMem', hInv'⟩ := hInv.arriveFilled hMem
      exact ⟨hMem', ⟨finished, hInv'⟩, fun _ _ hOther hProgress => hProgress.arrive hOther⟩
  | waitFilled =>
      simp only [initOctave, Option.ite_none_right_eq_some] at hStep
      obtain ⟨hAll, hNext⟩ := hStep
      cases hNext
      exact ⟨hMem, ⟨finished, hInv.passFilled hAll⟩, fun _ _ _ hProgress => hProgress⟩
  | copy i =>
      simp only [initOctave] at hStep
      split at hStep
      · next hTotal =>
          cases hStep
          obtain ⟨hWords, hMem', hInv'⟩ := hInv.copyNoise hMem hTotal
          refine ⟨hMem', ⟨finished, hInv'⟩, fun u pc _ hProgress => ?_⟩
          have hRest : (copyNoise n t call.member i m).arrived = m.arrived ∧
              (copyNoise n t call.member i m).sharedNoise = m.sharedNoise := by
            rw [copyNoise]
            split <;> exact ⟨rfl, rfl⟩
          exact hProgress.mono hWords (fun v => (congrFun hRest.1 v).ge) (congrFun hRest.1 u)
            (congrFun hRest.2 u)
      · next hEnd =>
          cases hStep
          refine ⟨hMem, ⟨finished, hInv.split, hInv.seed_eq, hInv.copied, hInv.arrived, hInv.block, ?_⟩,
            fun _ _ _ hProgress => hProgress⟩
          intro current after hCalls j hj hjTotal
          have hBelow := (hInv.current current after hCalls).2
          exact hBelow j (hjTotal.trans_le (not_lt.mp hEnd)) hjTotal
  | copied =>
      cases hStep
      obtain ⟨hMem', hInv'⟩ := hInv.arriveCopied hMem
      exact ⟨hMem', ⟨finished, hInv'⟩, fun _ _ hOther hProgress => hProgress.arrive hOther⟩
  | waitCopied =>
      simp only [initOctave, Option.ite_none_right_eq_some] at hStep
      obtain ⟨hAll, hNext⟩ := hStep
      cases hNext
      exact ⟨hMem, ⟨_, hInv.passCopied hAll⟩, fun _ _ _ hProgress => hProgress⟩

theorem step_inv {pc pc' : Pc} (hMem : MemoryInv fuel large d n m)
    (hProgress : Progress fuel large d n m t pc)
    (hStep : step fuel large n t pc m = some (pc', m')) :
    MemoryInv fuel large d n m' ∧ Progress fuel large d n m' t pc' ∧
      ∀ u pc, u ≠ t → Progress fuel large d n m u pc → Progress fuel large d n m' u pc := by
  cases pc with
  | entry =>
      simp only [step] at hStep
      split at hStep
      · next hEmpty =>
          cases hStep
          exact ⟨hMem, .inl hEmpty, fun _ _ _ hOther => hOther⟩
      · cases hStep
        exact ⟨hMem, hProgress, fun _ _ _ hOther => hOther⟩
  | load =>
      cases hStep
      refine ⟨hMem, ⟨[], rfl, fun hActive => ?_, fun _ hNone => absurd hNone List.not_mem_nil,
        hProgress, fun _ _ => Nat.zero_le _, fun _ _ _ => trivial⟩, fun _ _ _ hOther => hOther⟩
      rw [if_pos hActive, hMem.frame]
  | run seed calls phase =>
      obtain ⟨finished, hInv⟩ := hProgress
      cases calls with
      | nil =>
          cases hStep
          refine ⟨hMem, .inr fun call hCall => ?_, fun _ _ _ hOther => hOther⟩
          rw [hInv.split, List.append_nil] at hCall
          exact hInv.copied call hCall
      | cons call rest => exact initOctave_inv hMem hInv hStep
  | done => cases hStep

end Steps

section Run

variable {fuel : ℕ} {large : Bool} {d : Device F} {n : ℕ} {shared : ℕ → ImprovedNoise F}

/-- The memory at the launch: whatever is in shared memory, and no barrier yet. -/
def launchMemory (d : Device F) (shared : ℕ → ImprovedNoise F) : Memory F :=
  ⟨d, shared, fun _ => 0⟩

theorem run_inv {schedule : List ℕ} {pool : Pool (Memory F) Pc Unit}
    (hRun : (kernel fuel large n).run ((kernel fuel large n).start (launchMemory d shared)) schedule =
      some pool) :
    MemoryInv fuel large d n pool.mem ∧ ∀ t < (kernel (F := F) fuel large n).threads,
      Progress fuel large d n pool.mem t (pool.locals t) := by
  have hMem : MemoryInv fuel large d n (launchMemory d shared) := by
    refine ⟨rfl, fun _ _ _ => Nat.zero_le _, fun v _ finished call rest _ hArrived => ?_⟩
    have hNone : (launchMemory d shared).arrived v = 0 := rfl
    omega
  have hThreads : ∀ t < (kernel (F := F) fuel large n).threads,
      Progress fuel large d n (launchMemory d shared) t .entry := fun _ _ => rfl
  exact run_local_invariant (J := fun m t pc => Progress fuel large d n m t pc)
    (fun t pc m pc' m' _ hMem hProgress hStep => step_inv hMem hProgress hStep) hMem hThreads hRun

variable (d shared) in
/-- After the kernel every seed of its grid has its first octaves. -/
theorem kernel_completes {m' : Memory F}
    (hCompletes : (kernel fuel large n).Completes (launchMemory d shared) m') :
    m'.device = { d with results := m'.device.results } ∧
      ∀ s < n, s < threadsPerRun → ∀ call ∈ kernelCalls,
        m'.device.HoldsOctave fuel large s call.member := by
  obtain ⟨schedule, pool, hRun, hFinished, rfl⟩ := hCompletes
  obtain ⟨hMem, hThreads⟩ := run_inv hRun
  refine ⟨hMem.frame, fun s hs hGrid call hCall => Device.holdsOctave_of_words fun word hWord => ?_⟩
  -- Word `word` of seed `s` has the flat index `i` in its block.
  obtain ⟨i, hi⟩ : ∃ i, i = s % threadsPerBlock * u4PerStruct + word := ⟨_, rfl⟩
  obtain ⟨t, ht⟩ : ∃ t, t = blockBase s + i % threadsPerBlock := ⟨_, rfl⟩
  have hPlace : i % threadsPerBlock < threadsPerBlock := Nat.mod_lt _ (by decide)
  have hBase : blockBase t = blockBase s := by
    rw [ht]
    exact blockBase_add hPlace
  have hOwn : t % threadsPerBlock = i % threadsPerBlock := by
    have hSplit := mod_of_blockBase t
    omega
  have hStruct : i / u4PerStruct = s % threadsPerBlock ∧ i % u4PerStruct = word := by
    simp only [u4PerStruct] at hi hWord ⊢
    omega
  have hTotal : i < totalU4 := by
    have hMod := Nat.mod_lt s (show 0 < threadsPerBlock by decide)
    simp only [totalU4, u4PerStruct, threadsPerBlock] at hi hWord hMod ⊢
    omega
  have hSeed : blockBase t + i / u4PerStruct = s := by
    rw [hBase, hStruct.1, mod_of_blockBase]
  have hThread : t < gridDim * threadsPerBlock := by
    simp only [gridDim, threadsPerRun, threadsPerBlock, blockBase] at hGrid hPlace ht ⊢
    omega
  have hDone : pool.locals t = .done := by
    have hHalted := hFinished t hThread
    cases hLocal : pool.locals t with
    | done => rfl
    | entry | load | run => simp [kernel, halted, hLocal] at hHalted
  have hProgress := hThreads t hThread
  rw [hDone] at hProgress
  rcases hProgress with hEmpty | hCopied
  · have hBelow := Nat.le_add_right (blockBase t) (i / u4PerStruct)
    omega
  · have hHolds := hCopied call hCall i hTotal hTotal hOwn.symm (by omega)
    rwa [hSeed, hStruct.2] at hHolds

end Run

end KernelSeed1

end Commission
