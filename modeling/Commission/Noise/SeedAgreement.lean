import Commission.Noise.Device
import Commission.Cubiomes.Noise

/-! The device and cubiomes build the same continentalness tables. Both
generator chains are followed draw by draw, so an unfinished rejection loop
on one side is unfinished on the other after the same number of draws. -/
namespace Commission

open Cubiomes (Xoroshiro xNextLong xNextProduct xNextInt xNextIntLoop xShuffle PerlinNoise)

/-- The device generator with the words of a cubiomes generator. -/
def Cubiomes.Xoroshiro.toXrsr (xr : Xoroshiro) : XrsrRandom := ⟨xr.lo, xr.hi⟩

theorem nextInternal_toXrsr (xr : Xoroshiro) :
    xr.toXrsr.nextInternal = ((xNextLong xr).1, (xNextLong xr).2.toXrsr) := rfl

theorem nextInt32_toXrsr (xr : Xoroshiro) (bound : ℕ) :
    xr.toXrsr.nextInt32.1 * bound = (xNextProduct bound xr).1 ∧
      xr.toXrsr.nextInt32.2 = (xNextProduct bound xr).2.toXrsr := ⟨rfl, rfl⟩

/-- A draw of cubiomes, with its state read as a device state. -/
def drawToXrsr (draw : ℕ × Xoroshiro) : ℕ × XrsrRandom := (draw.1, draw.2.toXrsr)

theorem nextIntLoop_toXrsr (bound fuel m : ℕ) (xr : Xoroshiro) :
    XrsrRandom.nextIntLoop bound ((2 ^ 32 - bound) % 2 ^ 32 % bound) fuel m xr.toXrsr =
      (xNextIntLoop bound fuel m xr).map drawToXrsr := by
  induction fuel generalizing m xr with
  | zero =>
      rw [XrsrRandom.nextIntLoop, xNextIntLoop]
      split
      · rfl
      · rfl
  | succ fuel ih =>
      rw [XrsrRandom.nextIntLoop, xNextIntLoop]
      split
      · exact ih (xNextProduct bound xr).1 (xNextProduct bound xr).2
      · rfl

theorem nextInt_toXrsr (bound fuel : ℕ) (xr : Xoroshiro) :
    xr.toXrsr.nextInt fuel bound = (xNextInt fuel bound xr).map drawToXrsr := by
  rw [XrsrRandom.nextInt, xNextInt]
  simp only [(nextInt32_toXrsr xr bound).1, (nextInt32_toXrsr xr bound).2]
  split
  · exact nextIntLoop_toXrsr _ _ _ _
  · rfl

/-- The first 256 entries of the cubiomes table. -/
def lowEntries (idx : Fin 257 → UInt8) : Fin 256 → UInt8 := fun i => idx i.castSucc

theorem lowEntries_swapEntries (idx : Fin 257 → UInt8) {i k : ℕ} (hi : i < 256) (hk : k < 256) :
    lowEntries (Cubiomes.swapEntries idx (Fin.ofNat 257 i) (Fin.ofNat 257 k)) =
      swapEntries (lowEntries idx) (Fin.ofNat 256 i) (Fin.ofNat 256 k) := by
  have cast (n : ℕ) (hn : n < 256) : Fin.ofNat 257 n = (Fin.ofNat 256 n).castSucc := by
    apply Fin.ext
    simp only [Fin.val_ofNat, Fin.val_castSucc]
    omega
  funext x
  simp only [lowEntries, Cubiomes.swapEntries, swapEntries, cast i hi, cast k hk,
    Function.update_apply, Fin.castSucc_inj]

/-- Both shuffles make the same exchanges and use the same number of draws.
The draws stay below `256 - i`, so no exchange reaches the entry 256. -/
theorem shuffle_toXrsr (fuel : ℕ) (todo : List ℕ) (idx : Fin 257 → UInt8) (xr : Xoroshiro)
    (hTodo : ∀ i ∈ todo, i < 256) :
    shuffle fuel todo (lowEntries idx) xr.toXrsr =
      (xShuffle fuel todo idx xr).map fun table => (lowEntries table.1, table.2.toXrsr) := by
  induction todo generalizing idx xr with
  | nil => rfl
  | cons i rest ih =>
      have hi : i < 256 := hTodo i (List.mem_cons_self ..)
      have hRest : ∀ k ∈ rest, k < 256 := fun k hk => hTodo k (List.mem_cons_of_mem _ hk)
      rw [shuffle, xShuffle, nextInt_toXrsr]
      cases hDraw : xNextInt fuel (256 - i) xr with
      | none => rfl
      | some draw =>
          have hValue : draw.1 < 256 - i := by
            apply XrsrRandom.nextInt_lt (by omega : 0 < 256 - i)
            rw [nextInt_toXrsr, hDraw]
            rfl
          simp only [Option.map_some, Option.bind_some, drawToXrsr]
          rw [Nat.add_comm i draw.1, ← lowEntries_swapEntries idx hi (by omega), ih _ _ hRest]

/-- The largest multiple of `2^-16` which is not above `q`. -/
def truncOffset (q : ℚ) : ℚ := ⌊q * 2 ^ 16⌋ / 2 ^ 16

/-- A stored device noise and a cubiomes noise agree: the same table, and
device offsets which are the cubiomes offsets cut to 16 fractional bits. -/
structure Matches (stored : ImprovedNoise ℚ) (noise : PerlinNoise) : Prop where
  table : ∀ i : Fin 256, stored.p i = noise.d i.castSucc
  xo : stored.xo = truncOffset noise.a
  yo : stored.yo = truncOffset noise.b
  zo : stored.zo = truncOffset noise.c

/-- The 24-bit draw is the 53-bit draw of the same word without its low bits. -/
theorem nextFloat_toXrsr (xr : Xoroshiro) :
    (nextFloat (F := ℚ) xr.toXrsr).1 * 256 = truncOffset ((Cubiomes.xNextDouble xr).1 * 256) ∧
      (nextFloat (F := ℚ) xr.toXrsr).2 = (Cubiomes.xNextDouble xr).2.toXrsr := by
  refine ⟨?_, rfl⟩
  generalize hr : (xNextLong xr).1 = r
  have hFloat : (nextFloat (F := ℚ) xr.toXrsr).1 = ((r.toNat / 2 ^ 40 : ℕ) : ℚ) * (1 / 2 ^ 24) := by
    simp only [nextFloat, XrsrRandom.nextBits, nextInternal_toXrsr, hr, Arith.ofInt_exact,
      Arith.const_exact, BitVec.toNat_ushiftRight, Nat.shiftRight_eq_div_pow, Int.cast_natCast]
  have hDouble : (Cubiomes.xNextDouble xr).1 = ((r.toNat / 2 ^ 11 : ℕ) : ℚ) * (1 / 2 ^ 53) := by
    simp only [Cubiomes.xNextDouble, hr, BitVec.toNat_ushiftRight, Nat.shiftRight_eq_div_pow]
  have hFloor : ⌊((r.toNat / 2 ^ 11 : ℕ) : ℚ) * (1 / 2 ^ 53) * 256 * 2 ^ 16⌋ =
      ((r.toNat / 2 ^ 40 : ℕ) : ℤ) := by
    have hScale : ((r.toNat / 2 ^ 11 : ℕ) : ℚ) * (1 / 2 ^ 53) * 256 * 2 ^ 16 =
        ((r.toNat / 2 ^ 11 : ℕ) : ℚ) / ((2 ^ 29 : ℕ) : ℚ) := by
      push_cast
      ring
    rw [hScale, Rat.floor_natCast_div_natCast, ← Int.natCast_div, Nat.div_div_eq_div_mul, ← pow_add]
  rw [hFloat, hDouble, truncOffset, hFloor, Int.cast_natCast]
  ring

/-- `init_noise` and `xPerlinInit` on equal generators: both still draw, or
both are done and their results match. -/
theorem initNoise_matches (fuel : ℕ) (xr : Xoroshiro) :
    Option.Rel Matches (initNoise fuel xr.toXrsr) (Cubiomes.xPerlinInit fuel xr) := by
  obtain ⟨hx, hxs⟩ := nextFloat_toXrsr xr
  obtain ⟨hy, hys⟩ := nextFloat_toXrsr (Cubiomes.xNextDouble xr).2
  obtain ⟨hz, hzs⟩ := nextFloat_toXrsr (Cubiomes.xNextDouble (Cubiomes.xNextDouble xr).2).2
  have hShuffle := shuffle_toXrsr fuel (List.range 256) (fun i => UInt8.ofNat i)
    (Cubiomes.xNextDouble (Cubiomes.xNextDouble (Cubiomes.xNextDouble xr).2).2).2
    (fun i hi => List.mem_range.mp hi)
  have hStart : lowEntries (fun i => UInt8.ofNat i) = fun i : Fin 256 => UInt8.ofNat i := rfl
  rw [hStart] at hShuffle
  simp only [initNoise, Cubiomes.xPerlinInit, hxs, hys, hzs, hShuffle, Option.map_map]
  cases xShuffle fuel (List.range 256) (fun i => UInt8.ofNat i)
      (Cubiomes.xNextDouble (Cubiomes.xNextDouble (Cubiomes.xNextDouble xr).2).2).2 with
  | none => exact .none
  | some table =>
      refine .some ⟨fun i => ?_, hx, hy, hz⟩
      have hi : i.castSucc ≠ (256 : Fin 257) := by
        intro he
        have hv : (i : ℕ) = 256 := congrArg Fin.val he
        have := i.isLt
        omega
      simp only [Function.comp_apply, lowEntries, Cubiomes.perlinOf, Function.update_of_ne hi]

/-- All octave initialisations of one seed in one batch. -/
def seedCalls : List InitCall :=
  kernelCalls ++ lateCalls 1 ++ lateCalls 2 ++ lateCalls 3 ++ lateCalls 4

/-- Every member of `Result` is written by exactly one call. -/
theorem seedCalls_members (member : Member) : (seedCalls.filter (·.member = member)).length = 1 := by
  obtain ⟨octave, half⟩ := member
  cases half <;> revert octave <;> decide

/-- Each call writes the member of the octave it was configured for. -/
theorem seedCalls_own (call : InitCall) (hCall : call ∈ seedCalls) : call.Own := by
  simp only [seedCalls, List.mem_append] at hCall
  rcases hCall with (((hKernel | hLate) | hLate) | hLate) | hLate
  · exact kernelCalls_own call hKernel
  all_goals exact lateCalls_own _ call hLate

/-- Octave `member` of a double noise. -/
def Cubiomes.DoublePerlinNoise.octave? (noise : Cubiomes.DoublePerlinNoise) (member : Member) :
    Option PerlinNoise :=
  match member.half with
  | .a => noise.octA[(member.octave : ℕ)]?
  | .b => noise.octB[(member.octave : ℕ)]?

/-- With non-zero amplitudes and no octave limit, entry `k` of the loop's
result is what `init` gave for the stream `i + k`, with its own scaling. -/
theorem octaveLoop_getElem? {init : ℕ → Xoroshiro → Option PerlinNoise} {xlo xhi : BitVec 64}
    {omin : ℤ} {amplitudes : List ℚ} {i n : ℕ} {lacuna persist : ℚ} {octaves : List PerlinNoise}
    (hNonzero : ∀ amplitude ∈ amplitudes, amplitude ≠ 0)
    (h : Cubiomes.octaveLoop init xlo xhi omin (-1) amplitudes i n lacuna persist = some octaves)
    {k : ℕ} (hk : k < amplitudes.length) :
    ∃ noise amplitude lacunarity,
      init (n + k) (Cubiomes.octaveStream xlo xhi omin (i + k)) = some noise ∧
      octaves[k]? = some { noise with amplitude := amplitude, lacunarity := lacunarity } := by
  induction amplitudes generalizing i n lacuna persist octaves k with
  | nil => simp at hk
  | cons amplitude rest ih =>
      have hLimit : ¬((n : ℤ) = -1) := by omega
      rw [Cubiomes.octaveLoop, if_neg hLimit, if_neg (hNonzero _ (List.mem_cons_self ..))] at h
      obtain ⟨noise, hNoise, h⟩ := Option.bind_eq_some_iff.mp h
      obtain ⟨tail, hTail, rfl⟩ := Option.map_eq_some_iff.mp h
      cases k with
      | zero => exact ⟨noise, _, _, hNoise, rfl⟩
      | succ k =>
          have hRest : ∀ a ∈ rest, a ≠ 0 := fun a ha => hNonzero a (List.mem_cons_of_mem _ ha)
          obtain ⟨found, a, l, hFound, hEntry⟩ := ih hRest hTail (by simpa using hk)
          refine ⟨found, a, l, ?_, by simpa using hEntry⟩
          rw [show n + (k + 1) = n + 1 + k by omega, show i + (k + 1) = i + 1 + k by omega]
          exact hFound

theorem matches_scaled {stored : ImprovedNoise ℚ} {noise : PerlinNoise} (h : Matches stored noise)
    (amplitude lacunarity : ℚ) :
    Matches stored { noise with amplitude := amplitude, lacunarity := lacunarity } :=
  ⟨h.table, h.xo, h.yo, h.zo⟩

/-- The generator of the continentalness noise before the zero fallback. -/
def continentalnessState (large : Bool) (seed : BitVec 64) : Xoroshiro :=
  let noiseFork := xrsrRandomSeedFork seed
  let hash := (chosenContinentalnessConfig large).forkHash
  ⟨noiseFork.lo ^^^ hash.lo, noiseFork.hi ^^^ hash.hi⟩

/-- The generator of one octave before the zero fallback. -/
def octaveState (large : Bool) (seed : BitVec 64) (member : Member) : Xoroshiro :=
  let noiseFork := noiseForkOf large seed member.half
  let hash := (octaveConfig large member).forkHash
  ⟨noiseFork.lo ^^^ hash.lo, noiseFork.hi ^^^ hash.hi⟩

/-- No derived generator state is all zero, so no fallback is taken. -/
def StatesNonzero (large : Bool) (seed : BitVec 64) : Prop :=
  (continentalnessState large seed).lo ||| (continentalnessState large seed).hi ≠ 0#64 ∧
    ∀ call ∈ seedCalls,
      (octaveState large seed call.member).lo ||| (octaveState large seed call.member).hi ≠ 0#64

instance (large : Bool) (seed : BitVec 64) : Decidable (StatesNonzero large seed) :=
  inferInstanceAs (Decidable (_ ∧ _))

theorem noiseRandom_eq {large : Bool} {seed : BitVec 64} (h : StatesNonzero large seed) :
    noiseRandom large seed = (continentalnessState large seed).toXrsr :=
  XrsrRandom.make_of_ne_zero h.1

/-- The device hash of an octave is the md5 pair cubiomes uses for it. -/
theorem octaveConfig_hash (large : Bool) (member : Member) :
    (octaveConfig large member).forkHash =
      let md5 := Cubiomes.md5OctaveN.getD
        (12 + (Cubiomes.climateSettings large .continentalness).2.2 + (member.octave : ℕ)).toNat (0, 0)
      ⟨md5.1, md5.2⟩ := by
  obtain ⟨octave, half⟩ := member
  cases large <;> cases half <;> revert octave <;> decide

/-- The octave stream of cubiomes is the octave state of the device. -/
theorem octaveStream_eq (large : Bool) (seed : BitVec 64) (member : Member) :
    Cubiomes.octaveStream (noiseForkOf large seed member.half).lo
        (noiseForkOf large seed member.half).hi
        (Cubiomes.climateSettings large .continentalness).2.2 member.octave =
      octaveState large seed member := by
  simp only [Cubiomes.octaveStream, octaveState, octaveConfig_hash]

/-- The noise stored for a call matches the octave `xPerlinInit` builds from
the same state, for every number of redraws. -/
theorem call_noise_matches (fuel : ℕ) {large : Bool} {seed : BitVec 64}
    (h : StatesNonzero large seed) {call : InitCall} (hCall : call ∈ seedCalls) :
    Option.Rel Matches (call.noise fuel large seed)
      (Cubiomes.xPerlinInit fuel (octaveState large seed call.member)) := by
  obtain ⟨hFork, hConfig⟩ := seedCalls_own call hCall
  have hState : (noiseForkOf large seed call.noiseFork).from
      (octaveConfig large call.config).forkHash = (octaveState large seed call.member).toXrsr := by
    rw [hConfig, hFork]
    exact XrsrRandom.make_of_ne_zero (h.2 call hCall)
  rw [InitCall.noise, hState]
  exact initNoise_matches fuel _

/-- The two forks of the device are the first four words of the cubiomes
generator of the continentalness noise. -/
theorem noiseForkOf_words {large : Bool} {seed : BitVec 64} (h : StatesNonzero large seed) :
    let first := xNextLong (continentalnessState large seed)
    let second := xNextLong first.2
    let third := xNextLong second.2
    let fourth := xNextLong third.2
    noiseForkOf large seed .a = ⟨first.1, second.1⟩ ∧
      noiseForkOf large seed .b = ⟨third.1, fourth.1⟩ := by
  simp only [noiseForkOf, noiseRandom_eq h]
  exact ⟨rfl, rfl⟩

/-- `setBiomeSeed` starts the continentalness noise from the state which the
device derives for the seed. -/
theorem setBiomeSeed_continentalness {fuel : ℕ} {seed : BitVec 64} {large : Bool}
    {bn : Cubiomes.BiomeNoise} (h : Cubiomes.setBiomeSeed fuel seed large = some bn) :
    Cubiomes.xDoublePerlinInit fuel (continentalnessState large seed)
        (Cubiomes.climateSettings large .continentalness).2.1
        (Cubiomes.climateSettings large .continentalness).2.2 (-1) = some bn.continentalness := by
  simp only [Cubiomes.setBiomeSeed, Option.bind_eq_bind, Option.bind_eq_some_iff] at h
  obtain ⟨_, _, _, _, continentalness, hBuilt, _, _, _, _, _, _, h⟩ := h
  split at h
  · cases h
  · cases h
    rw [← hBuilt]
    cases large <;> rfl

/-- The members of a built double noise are the octaves of its streams. -/
theorem octave?_eq {fuel : ℕ} {seed : BitVec 64} {large : Bool} {noise : Cubiomes.DoublePerlinNoise}
    (h : StatesNonzero large seed)
    (hBuilt : Cubiomes.xDoublePerlinInit fuel (continentalnessState large seed)
        (Cubiomes.climateSettings large .continentalness).2.1
        (Cubiomes.climateSettings large .continentalness).2.2 (-1) = some noise)
    (member : Member) :
    ∃ perlin amplitude lacunarity,
      Cubiomes.xPerlinInit fuel (octaveState large seed member) = some perlin ∧
      noise.octave? member =
        some { perlin with amplitude := amplitude, lacunarity := lacunarity } := by
  have hAmplitudes : ∀ amplitude ∈ (Cubiomes.climateSettings large .continentalness).2.1,
      amplitude ≠ 0 := by
    intro amplitude hm
    simp only [Cubiomes.climateSettings, List.mem_cons, List.not_mem_nil, or_false] at hm
    rcases hm with rfl | rfl | rfl | rfl | rfl | rfl | rfl | rfl | rfl <;> norm_num
  have hLength : (member.octave : ℕ) <
      (Cubiomes.climateSettings large .continentalness).2.1.length := member.octave.isLt
  obtain ⟨hForkA, hForkB⟩ := noiseForkOf_words h
  rw [Cubiomes.xDoublePerlinInit, Cubiomes.doublePerlinInit] at hBuilt
  obtain ⟨octavesA, hA, hBuilt⟩ := Option.bind_eq_some_iff.mp hBuilt
  obtain ⟨octavesB, hB, rfl⟩ := Option.map_eq_some_iff.mp hBuilt
  have hMax : ¬(0 : ℤ) < -1 := by decide
  simp only [hMax, if_false, Cubiomes.octaveInit] at hA hB
  have hStream := octaveStream_eq large seed member
  obtain ⟨octave, half⟩ := member
  cases half with
  | a =>
      obtain ⟨perlin, a, l, hPerlin, hEntry⟩ := octaveLoop_getElem? hAmplitudes hA hLength
      refine ⟨perlin, a, l, ?_, hEntry⟩
      rw [← hStream, hForkA]
      simpa using hPerlin
  | b =>
      obtain ⟨perlin, a, l, hPerlin, hEntry⟩ := octaveLoop_getElem? hAmplitudes hB hLength
      refine ⟨perlin, a, l, ?_, hEntry⟩
      rw [← hStream, hForkB]
      simpa using hPerlin

/-- Evaluate a number before it is passed on. Long chains of generator states
are computed by the kernel only when no state is left unevaluated. -/
def force {α : Type} (e : ℕ) (f : ℕ → α) : α :=
  match e with
  | 0 => f 0
  | n + 1 => f (n + 1)

theorem force_eq {α : Type} (e : ℕ) (f : ℕ → α) : force e f = f e := by
  cases e <;> rfl

def forceState {α : Type} (xr : Xoroshiro) (f : Xoroshiro → α) : α :=
  force xr.lo.toNat fun lo => force xr.hi.toNat fun hi =>
    f ⟨BitVec.ofNat 64 lo, BitVec.ofNat 64 hi⟩

@[simp] theorem forceState_eq {α : Type} (xr : Xoroshiro) (f : Xoroshiro → α) :
    forceState xr f = f xr := by
  simp only [forceState, force_eq, BitVec.ofNat_toNat, BitVec.setWidth_eq]

/-- Every draw of the shuffling loop is accepted at once. -/
def drawsAccepted : List ℕ → Xoroshiro → Bool
  | [], _ => true
  | i :: rest, xr =>
      decide (256 - i ≤ (xNextProduct (256 - i) xr).1 % 2 ^ 32) &&
        forceState (xNextLong xr).2 (drawsAccepted rest)

theorem xShuffle_isSome {todo : List ℕ} {xr : Xoroshiro} (h : drawsAccepted todo xr = true)
    (fuel : ℕ) (idx : Fin 257 → UInt8) : (xShuffle fuel todo idx xr).isSome := by
  induction todo generalizing idx xr with
  | nil => rfl
  | cons i rest ih =>
      simp only [drawsAccepted, forceState_eq, Bool.and_eq_true, decide_eq_true_eq] at h
      rw [xShuffle, xNextInt, if_neg (Nat.not_lt.mpr h.1), Option.bind_some]
      exact ih h.2 _

/-- The octave needs no redraw: three offsets, then 256 accepted draws. -/
def octaveAccepted (xr : Xoroshiro) : Bool :=
  forceState (xNextLong xr).2 fun xr => forceState (xNextLong xr).2 fun xr =>
    forceState (xNextLong xr).2 (drawsAccepted (List.range 256))

theorem xPerlinInit_isSome {xr : Xoroshiro} (h : octaveAccepted xr = true) (fuel : ℕ) :
    (Cubiomes.xPerlinInit fuel xr).isSome := by
  simp only [octaveAccepted, forceState_eq] at h
  rw [Cubiomes.xPerlinInit, Option.isSome_map]
  exact xShuffle_isSome h fuel _

def octavesAccepted (xlo xhi : BitVec 64) (omin : ℤ) : List ℚ → ℕ → Bool
  | [], _ => true
  | amplitude :: rest, i =>
      (decide (amplitude = 0) || octaveAccepted (Cubiomes.octaveStream xlo xhi omin i)) &&
        octavesAccepted xlo xhi omin rest (i + 1)

theorem octaveLoop_of_accepted {xlo xhi : BitVec 64} {omin : ℤ} {amplitudes : List ℚ} {i : ℕ}
    (h : octavesAccepted xlo xhi omin amplitudes i = true) (fuel n : ℕ) (lacuna persist : ℚ) :
    ∃ octaves, Cubiomes.octaveLoop (fun _ => Cubiomes.xPerlinInit fuel) xlo xhi omin (-1) amplitudes
        i n lacuna persist = some octaves ∧
      octaves.length = (amplitudes.filter (· ≠ 0)).length := by
  induction amplitudes generalizing i n lacuna persist with
  | nil => exact ⟨[], rfl, rfl⟩
  | cons amplitude rest ih =>
      simp only [octavesAccepted, Bool.and_eq_true, Bool.or_eq_true, decide_eq_true_eq] at h
      obtain ⟨hFirst, hRest⟩ := h
      have hLimit : ¬((n : ℤ) = -1) := by omega
      rw [Cubiomes.octaveLoop, if_neg hLimit]
      by_cases hZero : amplitude = 0
      · obtain ⟨octaves, hLoop, hLength⟩ := ih hRest n (lacuna * 2) (persist * (1 / 2))
        rw [if_pos hZero]
        exact ⟨octaves, hLoop, by simpa [hZero] using hLength⟩
      · obtain ⟨octaves, hLoop, hLength⟩ := ih hRest (n + 1) (lacuna * 2) (persist * (1 / 2))
        obtain ⟨noise, hNoise⟩ := Option.isSome_iff_exists.mp
          (xPerlinInit_isSome (hFirst.resolve_left hZero) fuel)
        rw [if_neg hZero, hNoise, Option.bind_some, hLoop]
        exact ⟨_, rfl, by simpa [hZero] using hLength⟩

/-- Both halves of one climate noise need no redraw. -/
def climateAccepted (xlo xhi : BitVec 64) (large : Bool) (nptype : Cubiomes.ClimateParameter) :
    Bool :=
  let settings := Cubiomes.climateSettings large nptype
  forceState ⟨xlo ^^^ settings.1.1, xhi ^^^ settings.1.2⟩ fun xr =>
    forceState (xNextLong xr).2 fun second => forceState (xNextLong second).2 fun third =>
      forceState (xNextLong third).2 fun fourth =>
        forceState ⟨(xNextLong xr).1, (xNextLong second).1⟩ fun forkA =>
          forceState ⟨(xNextLong third).1, (xNextLong fourth).1⟩ fun forkB =>
            octavesAccepted forkA.lo forkA.hi settings.2.2 settings.2.1 0 &&
              octavesAccepted forkB.lo forkB.hi settings.2.2 settings.2.1 0

theorem initClimateSeed_of_accepted {xlo xhi : BitVec 64} {large : Bool}
    {nptype : Cubiomes.ClimateParameter} (h : climateAccepted xlo xhi large nptype = true)
    (fuel : ℕ) :
    ∃ noise, Cubiomes.initClimateSeed fuel xlo xhi large nptype (-1) = some noise ∧
      noise.octaveCount =
        2 * ((Cubiomes.climateSettings large nptype).2.1.filter (· ≠ 0)).length := by
  simp only [climateAccepted, forceState_eq, Bool.and_eq_true] at h
  obtain ⟨octavesA, hA, hLengthA⟩ := octaveLoop_of_accepted h.1 fuel 0
    (Cubiomes.lacunaIni.getD (-(Cubiomes.climateSettings large nptype).2.2).toNat 0)
    (Cubiomes.persistIni.getD (Cubiomes.climateSettings large nptype).2.1.length 0)
  obtain ⟨octavesB, hB, hLengthB⟩ := octaveLoop_of_accepted h.2 fuel 0
    (Cubiomes.lacunaIni.getD (-(Cubiomes.climateSettings large nptype).2.2).toNat 0)
    (Cubiomes.persistIni.getD (Cubiomes.climateSettings large nptype).2.1.length 0)
  have hMax : ¬(0 : ℤ) < -1 := by decide
  simp only [Cubiomes.initClimateSeed, Cubiomes.xDoublePerlinInit, Cubiomes.doublePerlinInit, hMax,
    if_false, Cubiomes.octaveInit, hA, hB, Option.bind_some, Option.map_some]
  refine ⟨_, rfl, ?_⟩
  simp only [Cubiomes.DoublePerlinNoise.octaveCount, hLengthA, hLengthB]
  omega

/-- No climate noise of the seed needs a redraw. -/
def seedAccepted (seed : BitVec 64) (large : Bool) : Bool :=
  forceState (Cubiomes.xSetSeed seed) fun pxr => forceState (xNextLong pxr).2 fun next =>
    forceState ⟨(xNextLong pxr).1, (xNextLong next).1⟩ fun words =>
      climateAccepted words.lo words.hi large .temperature &&
      climateAccepted words.lo words.hi large .humidity &&
      climateAccepted words.lo words.hi large .continentalness &&
      climateAccepted words.lo words.hi large .erosion &&
      climateAccepted words.lo words.hi large .shift &&
      climateAccepted words.lo words.hi large .weirdness

/-- Such a seed is set up whatever number of redraws is allowed. The six
noises fill the octave buffer exactly. -/
theorem setBiomeSeed_isSome {seed : BitVec 64} {large : Bool} (h : seedAccepted seed large = true)
    (fuel : ℕ) : (Cubiomes.setBiomeSeed fuel seed large).isSome := by
  simp only [seedAccepted, forceState_eq, Bool.and_eq_true] at h
  obtain ⟨⟨⟨⟨⟨hTemperature, hHumidity⟩, hContinentalness⟩, hErosion⟩, hShift⟩, hWeirdness⟩ := h
  obtain ⟨temperature, ht, ct⟩ := initClimateSeed_of_accepted hTemperature fuel
  obtain ⟨humidity, hh, ch⟩ := initClimateSeed_of_accepted hHumidity fuel
  obtain ⟨continentalness, hc, cc⟩ := initClimateSeed_of_accepted hContinentalness fuel
  obtain ⟨erosion, he, ce⟩ := initClimateSeed_of_accepted hErosion fuel
  obtain ⟨shift, hs, cs⟩ := initClimateSeed_of_accepted hShift fuel
  obtain ⟨weirdness, hw, cw⟩ := initClimateSeed_of_accepted hWeirdness fuel
  have hCount : ¬2 * 23 < temperature.octaveCount + humidity.octaveCount +
      continentalness.octaveCount + erosion.octaveCount + shift.octaveCount +
      weirdness.octaveCount := by
    rw [ct, ch, cc, ce, cs, cw]
    cases large <;> decide +kernel
  simp only [Cubiomes.setBiomeSeed, ht, hh, hc, he, hs, hw, Option.bind_eq_bind, Option.bind_some,
    hCount, if_false, Option.isSome_some]

/-- Every octave of a seed, whether it is initialised by `kernel` or by a late
kernel, holds the table of the cubiomes octave with the same name, and its
offsets cut to 16 fractional bits. -/
theorem seedNoise_agrees (fuel : ℕ) (seed : BitVec 64) (large : Bool) (bn : Cubiomes.BiomeNoise)
    (hStates : StatesNonzero large seed) (hBuilt : Cubiomes.setBiomeSeed fuel seed large = some bn) :
    (∀ member, ∃ call ∈ seedCalls, call.member = member) ∧
    ∀ call ∈ seedCalls, ∃ stored noise,
      call.noise fuel large seed = some stored ∧
      bn.continentalness.octave? call.member = some noise ∧ Matches stored noise := by
  constructor
  · intro member
    have hOne := seedCalls_members member
    obtain ⟨call, hCall⟩ := List.exists_mem_of_length_pos (by omega : 0 <
      (seedCalls.filter (·.member = member)).length)
    rw [List.mem_filter] at hCall
    exact ⟨call, hCall.1, by simpa using hCall.2⟩
  · intro call hCall
    obtain ⟨perlin, amplitude, lacunarity, hPerlin, hOctave⟩ :=
      octave?_eq hStates (setBiomeSeed_continentalness hBuilt) call.member
    have hRel := call_noise_matches fuel hStates hCall
    rw [hPerlin] at hRel
    cases hNoise : call.noise (F := ℚ) fuel large seed with
    | none => rw [hNoise] at hRel; cases hRel
    | some stored =>
        rw [hNoise] at hRel
        cases hRel with
        | some hMatch => exact ⟨stored, _, rfl, hOctave, matches_scaled hMatch _ _⟩

theorem seedAccepted_one : seedAccepted 1#64 false = true := by decide +kernel

/-- Seed 1 with normal biomes: all of its loops end without a redraw. -/
theorem seedNoise_agrees_one :
    ∃ bn, Cubiomes.setBiomeSeed 0 1#64 false = some bn ∧ StatesNonzero false 1#64 ∧
      (∀ member, ∃ call ∈ seedCalls, call.member = member) ∧
      ∀ call ∈ seedCalls, ∃ stored noise,
        call.noise 0 false 1#64 = some stored ∧
        bn.continentalness.octave? call.member = some noise ∧ Matches stored noise := by
  obtain ⟨bn, hBuilt⟩ := Option.isSome_iff_exists.mp (setBiomeSeed_isSome seedAccepted_one 0)
  have hStates : StatesNonzero false 1#64 := by decide +kernel
  exact ⟨bn, hBuilt, hStates, seedNoise_agrees 0 1#64 false bn hStates hBuilt⟩

end Commission
