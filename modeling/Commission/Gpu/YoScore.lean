import Commission.Gpu.FilterSeeds
import Commission.Random.State
import Mathlib.Algebra.Order.BigOperators.Group.List

/-! What `KernelFilterSeeds` tests: the words it computes from the advanced forks are the
draws of `yo`, and its early exits do not change the decision. -/
namespace Commission

/-- The stream of a hash which differs from the fork starts from their difference,
without the fallback of the constructor. -/
theorem XrsrRandomFork.from_of_ne {noiseFork : XrsrRandomFork} {hash : XrsrForkHash}
    (h : (noiseFork.lo, noiseFork.hi) ≠ (hash.lo, hash.hi)) :
    noiseFork.from hash = ⟨noiseFork.lo ^^^ hash.lo, noiseFork.hi ^^^ hash.hi⟩ := by
  apply XrsrRandom.make_of_ne_zero
  intro hZero
  obtain ⟨hLo, hHi⟩ := BitVec.or_eq_zero_iff.mp hZero
  exact h (Prod.ext (BitVec.xor_eq_zero_iff.mp hLo) (BitVec.xor_eq_zero_iff.mp hHi))

namespace KernelFilterSeeds

/-- The word `r` of `octave_yo_mod1`. -/
def octaveYoWord (config : OctaveConfig) (noiseYoFork : XrsrRandomFork) : BitVec 64 :=
  let forkHash := octaveYoForkHash config.forkHash
  let l := noiseYoFork.lo ^^^ forkHash.lo
  let h := noiseYoFork.hi ^^^ forkHash.hi
  XrsrRandom.rol64 (l + h) 17 + l

/-- The integer `(r >> 32) & 0xFFFFFF`. -/
def octaveYoBits (config : OctaveConfig) (noiseYoFork : XrsrRandomFork) : BitVec 64 :=
  octaveYoWord config noiseYoFork >>> 32 &&& 0xFFFFFF#64

theorem octaveYoMod1_eq {F : Type} [Arith F] (config : OctaveConfig) (noiseYoFork : XrsrRandomFork) :
    octaveYoMod1 (F := F) config noiseYoFork =
      Arith.ofInt (octaveYoBits config noiseYoFork).toNat * Arith.const (1 / 2 ^ 24) := rfl

theorem octaveHash_ne_zero (large : Bool) (member : Member) :
    (octaveConfig large member).forkHash.lo ||| (octaveConfig large member).forkHash.hi ≠ 0#64 := by
  obtain ⟨octave, half⟩ := member
  revert octave
  cases large <;> cases half <;> decide +kernel

/-- The state of the advanced fork and the advanced hash together is the state of the
octave's generator after the draw of `xo`. -/
theorem octaveYoWord_eq {config : OctaveConfig} {noiseFork : XrsrRandomFork}
    (hHash : config.forkHash.lo ||| config.forkHash.hi ≠ 0#64)
    (hFork : (noiseFork.lo, noiseFork.hi) ≠ (config.forkHash.lo, config.forkHash.hi)) :
    octaveYoWord config (noiseYoFork noiseFork) =
      (noiseFork.from config.forkHash).nextInternal.2.nextInternal.1 := by
  have hState := XrsrRandom.nextInternal_xor ⟨noiseFork.lo, noiseFork.hi⟩
    ⟨config.forkHash.lo, config.forkHash.hi⟩
  rw [XrsrRandomFork.from_of_ne hFork, hState, octaveYoWord, octaveYoForkHash,
    XrsrRandom.make_of_ne_zero hHash]
  rfl

/-- `initNoise` stores the second output as `yo`, in units of `2^-16`. -/
theorem initNoise_yo {fuel : ℕ} {random : XrsrRandom} {noise : ImprovedNoise ℚ}
    (h : initNoise fuel random = some noise) :
    noise.yo = ((random.nextInternal.2.nextInternal.1 >>> 40).toNat : ℚ) / 2 ^ 16 := by
  obtain ⟨table, -, rfl⟩ := Option.map_eq_some_iff.mp h
  simp only [nextFloat, XrsrRandom.nextBits, Arith.ofInt_exact, Arith.const_exact]
  push_cast
  ring

/-- The upper 16 of the 24 bits of the prefilter are the lower 16 of the 24 bits of a
draw. -/
theorem topBits_eq (r : BitVec 64) :
    ((r >>> 32 &&& 0xFFFFFF#64) >>> 8).toNat = (r >>> 40).toNat % 2 ^ 16 := by
  have hMask : (0xFFFFFF#64).toNat = 2 ^ 24 - 1 := rfl
  rw [BitVec.toNat_ushiftRight, BitVec.toNat_and, BitVec.toNat_ushiftRight, hMask,
    Nat.and_two_pow_sub_one_eq_mod, BitVec.toNat_ushiftRight]
  simp only [Nat.shiftRight_eq_div_pow]
  omega

/-- The fractional part of a stored `yo`. -/
theorem fract_initNoise_yo {fuel : ℕ} {random : XrsrRandom} {noise : ImprovedNoise ℚ}
    (h : initNoise fuel random = some noise) :
    Int.fract noise.yo =
      ((((random.nextInternal.2.nextInternal.1 >>> 32 &&& 0xFFFFFF#64) >>> 8).toNat : ℕ) : ℚ) /
        2 ^ 16 := by
  rw [initNoise_yo h, topBits_eq]
  exact_mod_cast Int.fract_div_natCast_eq_div_natCast_mod (k := ℚ)
    (m := (random.nextInternal.2.nextInternal.1 >>> 40).toNat) (n := 2 ^ 16)

/-- The tests after every term decide like one test of the whole sum, as no term is
negative. -/
theorem scoreStaysBelow_iff {term : ℚ → Member → ℚ} {rest : List (ℚ × Member)}
    (hTerm : ∀ part ∈ rest, 0 ≤ term part.1 part.2) (score : ℚ) :
    scoreStaysBelow term score rest = true ↔
      score + (rest.map fun part => term part.1 part.2).sum < maxScore := by
  induction rest generalizing score with
  | nil => simp [scoreStaysBelow, Arith.le, Arith.const]
  | cons part rest ih =>
      have hRest : ∀ later ∈ rest, 0 ≤ term later.1 later.2 := fun later hLater =>
        hTerm later (List.mem_cons_of_mem _ hLater)
      have hSum : 0 ≤ (rest.map fun part => term part.1 part.2).sum := by
        apply List.sum_nonneg
        intro value hValue
        obtain ⟨later, hLater, rfl⟩ := List.mem_map.mp hValue
        exact hRest later hLater
      have hPart : 0 ≤ term part.1 part.2 := hTerm part List.mem_cons_self
      rw [scoreStaysBelow, List.map_cons, List.sum_cons]
      by_cases hLarge : maxScore ≤ score
      · -- the exit is taken, and the sum is no smaller than what was reached
        have hExit : Arith.le (Arith.const maxScore) score = true := decide_eq_true hLarge
        rw [if_pos hExit]
        constructor
        · intro h
          cases h
        · intro h
          linarith
      · have hOn : ¬ Arith.le (Arith.const maxScore) score = true := by
          simpa [Arith.le, Arith.const] using hLarge
        rw [if_neg hOn, ih hRest, add_assoc]

/-- Weight and octave of every term of the score. -/
def scoreTerms : List (ℚ × Member) := (35 / 100, ⟨0, .a⟩) :: laterTerms

/-- The term of an octave. -/
def octaveTerm (large : Bool) (seed : BitVec 64) (weight : ℚ) (member : Member) : ℚ :=
  weight * |octaveYoMod1 (octaveConfig large member)
    (noiseYoFork (noiseForkOf large seed member.half)) - 1 / 2|

/-- The whole weighted sum over the six octaves. -/
def fullScore (large : Bool) (seed : BitVec 64) : ℚ :=
  (scoreTerms.map fun part => octaveTerm large seed part.1 part.2).sum

theorem abs_exact (x : ℚ) : Arith.abs x = |x| := by
  by_cases hNeg : x < 0
  · exact (if_pos hNeg).trans (abs_of_neg hNeg).symm
  · exact (if_neg hNeg).trans (abs_of_nonneg (not_lt.mp hNeg)).symm

theorem accepts_eq (large : Bool) (seed : BitVec 64) :
    accepts ℚ large seed =
      scoreStaysBelow (octaveTerm large seed) (octaveTerm large seed (35 / 100) ⟨0, .a⟩)
        laterTerms := by
  simp only [accepts]
  congr 1
  · funext weight member
    obtain ⟨octave, half⟩ := member
    rw [abs_exact]
    cases half <;> rfl
  · rw [abs_exact]
    rfl

theorem accepts_iff (large : Bool) (seed : BitVec 64) :
    accepts ℚ large seed = true ↔ fullScore large seed < maxScore := by
  have hWeights : ∀ part ∈ laterTerms, 0 ≤ part.1 := by
    decide +kernel
  have hTerm : ∀ part ∈ laterTerms, 0 ≤ octaveTerm large seed part.1 part.2 := by
    intro part hPart
    exact mul_nonneg (hWeights part hPart) (abs_nonneg _)
  rw [accepts_eq, scoreStaysBelow_iff hTerm, fullScore, scoreTerms, List.map_cons, List.sum_cons]

/-- The fork which an octave is derived from is not the hash of the octave. -/
def ForkDiffers (large : Bool) (seed : BitVec 64) (member : Member) : Prop :=
  ((noiseForkOf large seed member.half).lo, (noiseForkOf large seed member.half).hi) ≠
    ((octaveConfig large member).forkHash.lo, (octaveConfig large member).forkHash.hi)

instance (large : Bool) (seed : BitVec 64) (member : Member) :
    Decidable (ForkDiffers large seed member) :=
  inferInstanceAs (Decidable (_ ≠ _))

end KernelFilterSeeds

end Commission
