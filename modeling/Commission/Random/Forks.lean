import Commission.Random

/-! The generator behind the seeds of a batch: `mix64` loses nothing, so the unrolled
seeding of the device may leave out the all-zero fallback of `setSeed`. -/
namespace Commission

namespace XrsrRandom

def xrsrMix1Inverse : BitVec 64 := 0x96de1b173f119089#64
def xrsrMix2Inverse : BitVec 64 := 0x319642b2d24d8ec3#64

def fix64 (a : BitVec 64) : BitVec 64 :=
  let a := (a ^^^ a >>> 31 ^^^ a >>> 62) * xrsrMix2Inverse
  let a := (a ^^^ a >>> 27 ^^^ a >>> 54) * xrsrMix1Inverse
  a ^^^ a >>> 30 ^^^ a >>> 60

/-- Two further shifts undo a xorshift, when a third one would leave nothing. -/
theorem unxorshift {w n : Nat} (hw : w ≤ 3 * n) (a : BitVec w) :
    (a ^^^ a >>> n) ^^^ (a ^^^ a >>> n) >>> n ^^^ (a ^^^ a >>> n) >>> (2 * n) = a := by
  have hTwice : a >>> n >>> n = a >>> (2 * n) := by
    rw [← BitVec.shiftRight_add, two_mul]
  have hGone : a >>> n >>> (2 * n) = 0#w := by
    rw [← BitVec.shiftRight_add]
    apply BitVec.ushiftRight_eq_zero
    omega
  rw [BitVec.ushiftRight_xor_distrib, BitVec.ushiftRight_xor_distrib, hTwice, hGone,
    BitVec.xor_zero]
  -- every shift stands twice
  calc
    a ^^^ a >>> n ^^^ (a >>> n ^^^ a >>> (2 * n)) ^^^ a >>> (2 * n) =
        a ^^^ (a >>> n ^^^ a >>> n) ^^^ (a >>> (2 * n) ^^^ a >>> (2 * n)) := by ac_rfl
    _ = a := by simp

/-- A xorshift undoes the two further shifts. -/
theorem xorshift_unxorshift {w n : Nat} (hw : w ≤ 3 * n) (a : BitVec w) :
    (a ^^^ a >>> n ^^^ a >>> (2 * n)) ^^^ (a ^^^ a >>> n ^^^ a >>> (2 * n)) >>> n = a := by
  have hTwice : a >>> n >>> n = a >>> (2 * n) := by
    rw [← BitVec.shiftRight_add, two_mul]
  have hGone : a >>> (2 * n) >>> n = 0#w := by
    rw [← BitVec.shiftRight_add]
    apply BitVec.ushiftRight_eq_zero
    omega
  rw [BitVec.ushiftRight_xor_distrib, BitVec.ushiftRight_xor_distrib, hTwice, hGone,
    BitVec.xor_zero]
  calc
    a ^^^ a >>> n ^^^ a >>> (2 * n) ^^^ (a >>> n ^^^ a >>> (2 * n)) =
        a ^^^ (a >>> n ^^^ a >>> n) ^^^ (a >>> (2 * n) ^^^ a >>> (2 * n)) := by ac_rfl
    _ = a := by simp

/-- A factor and its inverse modulo 2^64 cancel. -/
theorem mul_mul_of_mul_eq_one {b c : BitVec 64} (h : b * c = 1#64) (a : BitVec 64) :
    a * b * c = a := by
  rw [BitVec.mul_assoc, h, BitVec.mul_one]

theorem xrsrMix1_mul_inverse : xrsrMix1 * xrsrMix1Inverse = 1#64 := rfl

theorem xrsrMix2_mul_inverse : xrsrMix2 * xrsrMix2Inverse = 1#64 := rfl

theorem fix64_mix64 (a : BitVec 64) : fix64 (mix64 a) = a := by
  simp only [fix64, mix64]
  rw [unxorshift (n := 31) (by decide), mul_mul_of_mul_eq_one xrsrMix2_mul_inverse,
    unxorshift (n := 27) (by decide), mul_mul_of_mul_eq_one xrsrMix1_mul_inverse,
    unxorshift (n := 30) (by decide)]

theorem mix64_fix64 (a : BitVec 64) : mix64 (fix64 a) = a := by
  simp only [fix64, mix64]
  rw [xorshift_unxorshift (n := 30) (by decide),
    mul_mul_of_mul_eq_one ((BitVec.mul_comm _ _).trans xrsrMix1_mul_inverse),
    xorshift_unxorshift (n := 27) (by decide),
    mul_mul_of_mul_eq_one ((BitVec.mul_comm _ _).trans xrsrMix2_mul_inverse),
    xorshift_unxorshift (n := 31) (by decide)]

/-- Each of the two functions undoes the other, so both are bijections of the 64-bit words. -/
theorem mix64_fix64_inverse :
    (∀ a, fix64 (mix64 a) = a) ∧ (∀ a, mix64 (fix64 a) = a) ∧
      Function.Bijective mix64 ∧ Function.Bijective fix64 := by
  have hMix : Function.LeftInverse fix64 mix64 := fix64_mix64
  have hFix : Function.LeftInverse mix64 fix64 := mix64_fix64
  exact ⟨hMix, hFix, ⟨hMix.injective, hFix.surjective⟩, ⟨hFix.injective, hMix.surjective⟩⟩

theorem mix64_injective : Function.Injective mix64 :=
  Function.LeftInverse.injective fix64_mix64

/-- The two words of a seeded state come from different arguments of `mix64`, so they
are not both zero. -/
theorem mix64_or_ne_zero (seed : BitVec 64) :
    mix64 seed ||| mix64 (seed + xrsrGoldenRatio) ≠ 0#64 := by
  intro hZero
  obtain ⟨hLo, hHi⟩ := BitVec.or_eq_zero_iff.mp hZero
  have hSame : seed + xrsrGoldenRatio = seed := mix64_injective (hHi.trans hLo.symm)
  have hRatio : xrsrGoldenRatio = 0#64 := by simpa using hSame
  exact absurd hRatio (by decide)

/-- `setSeed` never takes its fallback. -/
theorem setSeed_eq (seed : BitVec 64) :
    setSeed seed = ⟨mix64 (seed ^^^ xrsrSilverRatio),
      mix64 ((seed ^^^ xrsrSilverRatio) + xrsrGoldenRatio)⟩ := by
  simp only [setSeed]
  rw [make_of_ne_zero (mix64_or_ne_zero _)]

end XrsrRandom

theorem xrsrRandomSeedFork_eq (seed : BitVec 64) :
    xrsrRandomSeedFork seed = (XrsrRandom.setSeed seed).fork.1 := by
  simp only [XrsrRandom.setSeed_eq, xrsrRandomSeedFork, XrsrRandom.fork, XrsrRandom.nextLong,
    XrsrRandom.nextInternal]

/-- The unrolled forks of the device are those of the plain generator, for every seed
and for every state. -/
theorem unrolledForks_eq_plain :
    (∀ seed : BitVec 64, xrsrRandomSeedFork seed = (XrsrRandom.setSeed seed).fork.1) ∧
    (∀ rng : XrsrRandom,
      xrsrRandomDoubleFork rng = (rng.fork.1, rng.fork.2.fork.1)) :=
  ⟨xrsrRandomSeedFork_eq, xrsrRandomDoubleFork_eq⟩

end Commission
