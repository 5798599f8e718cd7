import Commission.Random.BoundedDraw
import Commission.Library.Interleaving
import Commission.Noise.Device

/-! The state of the generator: one output is undone by the opposite rotations, so no state
is reached twice from different ones, and none leads to the zero state. -/
namespace Commission

open Interleaving

namespace XrsrRandom

/-- Undoes `rol64`. -/
def ror64 (a : BitVec 64) (bits : ℕ) : BitVec 64 :=
  a >>> bits ||| a <<< (64 - bits)

/-- The state before one output. -/
def retreat (random : XrsrRandom) : XrsrRandom :=
  let h := ror64 random.hi 28
  let l := ror64 (random.lo ^^^ h ^^^ h <<< 21) 49
  ⟨l, h ^^^ l⟩

theorem ror64_rol64 (a : BitVec 64) {bits : ℕ} (hBits : bits < 64) :
    ror64 (rol64 a bits) bits = a := by
  apply BitVec.eq_of_getLsbD_eq
  intro i hi
  simp only [ror64, rol64, BitVec.getLsbD_or, BitVec.getLsbD_ushiftRight, BitVec.getLsbD_shiftLeft]
  -- the low bits come back from the first shift, the high ones from the second
  by_cases hLow : i < 64 - bits
  · grind
  · grind

theorem xor_xor_cancel (a b c : BitVec 64) : a ^^^ b ^^^ c ^^^ b ^^^ c = a := by
  calc a ^^^ b ^^^ c ^^^ b ^^^ c = a ^^^ (b ^^^ b) ^^^ (c ^^^ c) := by ac_rfl
    _ = a := by simp

theorem retreat_advance (random : XrsrRandom) : random.advance.retreat = random := by
  simp only [advance, nextInternal, retreat]
  rw [ror64_rol64 _ (by decide), xor_xor_cancel, ror64_rol64 _ (by decide), BitVec.xor_assoc,
    BitVec.xor_self, BitVec.xor_zero]

theorem advance_injective : Function.Injective advance :=
  Function.LeftInverse.injective retreat_advance

theorem rol64_xor (a b : BitVec 64) (bits : Nat) :
    rol64 (a ^^^ b) bits = rol64 a bits ^^^ rol64 b bits := by
  apply BitVec.eq_of_getLsbD_eq
  intro i hi
  simp only [rol64, BitVec.getLsbD_or, BitVec.getLsbD_xor, BitVec.getLsbD_shiftLeft,
    BitVec.getLsbD_ushiftRight]
  -- a bit of the result comes from one of the two shifts only
  by_cases hLow : i < bits
  · simp [hLow]
  · have hGone (x : BitVec 64) : x.getLsbD (64 - bits + i) = false := by
      apply BitVec.getLsbD_of_ge
      omega
    simp [hGone, hi, decide_eq_false hLow]

theorem xor_xor_xor_xor (a b c d e f : BitVec 64) :
    a ^^^ b ^^^ (c ^^^ d) ^^^ (e ^^^ f) = a ^^^ c ^^^ e ^^^ (b ^^^ d ^^^ f) := by
  ac_rfl

theorem nextInternal_snd (random : XrsrRandom) :
    random.nextInternal.2 =
      ⟨rol64 random.lo 49 ^^^ (random.hi ^^^ random.lo) ^^^ (random.hi ^^^ random.lo) <<< 21,
        rol64 (random.hi ^^^ random.lo) 28⟩ := rfl

/-- The state after one output is linear over GF(2) in the state before it. -/
theorem nextInternal_xor (random other : XrsrRandom) :
    (nextInternal ⟨random.lo ^^^ other.lo, random.hi ^^^ other.hi⟩).2 =
      ⟨random.nextInternal.2.lo ^^^ other.nextInternal.2.lo,
        random.nextInternal.2.hi ^^^ other.nextInternal.2.hi⟩ := by
  have hHigh : random.hi ^^^ other.hi ^^^ (random.lo ^^^ other.lo) =
      (random.hi ^^^ random.lo) ^^^ (other.hi ^^^ other.lo) := by ac_rfl
  rw [nextInternal_snd, nextInternal_snd random, nextInternal_snd other, hHigh, rol64_xor,
    rol64_xor, BitVec.shiftLeft_xor_distrib]
  congr 1
  exact xor_xor_xor_xor _ _ _ _ _ _

/-- The all-zero state. -/
def zero : XrsrRandom := ⟨0#64, 0#64⟩

theorem advance_zero : advance zero = zero := rfl

/-- The zero state has no other state before it. -/
theorem advance_ne_zero {random : XrsrRandom} (h : random ≠ zero) : random.advance ≠ zero := by
  intro hZero
  exact h (advance_injective (hZero.trans advance_zero.symm))

theorem iterate_advance_ne_zero {random : XrsrRandom} (h : random ≠ zero) (n : ℕ) :
    advance^[n] random ≠ zero := by
  induction n with
  | zero => exact h
  | succ n ih =>
      rw [Function.iterate_succ_apply']
      exact advance_ne_zero ih

/-- The constructor leaves no zero state. -/
theorem make_ne_zero (lo hi : BitVec 64) : make lo hi ≠ zero := by
  intro hZero
  rw [make] at hZero
  split at hZero
  · exact absurd hZero (by decide)
  next hWords =>
    cases hZero
    exact hWords rfl

theorem setSeed_ne_zero (seed : BitVec 64) : setSeed seed ≠ zero :=
  make_ne_zero _ _

/-! Runs of calls on one generator. -/

/-- `nextDouble()`; the literal `1.110223E-16f` is the float `2^-53`. -/
def nextDouble {F : Type} [Arith F] (random : XrsrRandom) : F × XrsrRandom :=
  let draw := random.nextBits 53
  (Arith.ofInt draw.1.toNat * Arith.const (1 / 2 ^ 53), draw.2)

/-- How a generator comes into being with a state. -/
inductive Start where
  | ofSeed (seed : BitVec 64)
  | ofWords (lo hi : BitVec 64)
  | ofFork (noiseFork : XrsrRandomFork) (hash : XrsrForkHash)

def Start.random : Start → XrsrRandom
  | .ofSeed seed => setSeed seed
  | .ofWords lo hi => make lo hi
  | .ofFork noiseFork hash => noiseFork.from hash

/-- The methods with their arguments. `nextInt(bound)` comes with the number of redraws after
which it is given up. -/
inductive Call where
  | setSeed (seed : BitVec 64)
  | nextInternal
  | nextBits (bits : ℕ)
  | nextInt32
  | nextInt (fuel bound : ℕ)
  | nextIntFast (bound : ℕ)
  | nextLong
  | nextBoolean
  | nextFloat
  | nextDouble
  | fork

/-- The state which a call leaves, if it returns. -/
def call (random : XrsrRandom) : Call → Option XrsrRandom
  | .setSeed seed => some (setSeed seed)
  | .nextInternal => some random.nextInternal.2
  | .nextBits bits => some (random.nextBits bits).2
  | .nextInt32 => some random.nextInt32.2
  | .nextInt fuel bound => (random.nextInt fuel bound).map Prod.snd
  | .nextIntFast bound => some (random.nextIntFast bound).2
  | .nextLong => some random.nextLong.2
  | .nextBoolean => some random.nextBoolean.2
  | .nextFloat => some (nextFloat (F := ℚ) random).2
  | .nextDouble => some (nextDouble (F := ℚ) random).2
  | .fork => some random.fork.2

/-- A call seeds the generator anew or takes some outputs. -/
theorem call_cases {random after : XrsrRandom} {c : Call} (h : call random c = some after) :
    (∃ seed, after = setSeed seed) ∨ ∃ n, after = advance^[n] random := by
  cases c with
  | setSeed seed =>
      cases h
      exact .inl ⟨seed, rfl⟩
  | nextInternal | nextBits | nextInt32 | nextIntFast | nextLong | nextBoolean | nextFloat
  | nextDouble =>
      cases h
      exact .inr ⟨1, rfl⟩
  | fork =>
      cases h
      exact .inr ⟨2, rfl⟩
  | nextInt fuel bound =>
      obtain ⟨⟨value, last⟩, hReturns, rfl⟩ := Option.map_eq_some_iff.mp h
      obtain ⟨k, -, -, -, -, rfl⟩ := nextInt_eq_some_iff.mp hReturns
      exact .inr ⟨k + 1, rfl⟩

theorem call_ne_zero {random after : XrsrRandom} {c : Call} (hRandom : random ≠ zero)
    (h : call random c = some after) : after ≠ zero := by
  obtain ⟨seed, rfl⟩ | ⟨n, rfl⟩ := call_cases h
  · exact setSeed_ne_zero seed
  · exact iterate_advance_ne_zero hRandom n

theorem start_ne_zero (start : Start) : start.random ≠ zero := by
  cases start with
  | ofSeed seed => exact setSeed_ne_zero seed
  | ofWords lo hi => exact make_ne_zero lo hi
  | ofFork noiseFork hash => exact make_ne_zero _ _

/-- No run of calls leads to the zero state, nor do the redraws of a `nextInt(bound)` which
has not returned; and an output merges no two states. -/
theorem state_ne_zero_and_injective :
    (∀ start calls random, run call (Start.random start) calls = some random →
      random ≠ zero ∧ ∀ redraws, advance^[redraws] random ≠ zero) ∧
    Function.Injective advance := by
  constructor
  · intro start calls random hRun
    have hRandom : random ≠ zero :=
      run_invariant (fun random => random ≠ zero) (fun _ _ _ => call_ne_zero) (start_ne_zero start)
        hRun
    exact ⟨hRandom, iterate_advance_ne_zero hRandom⟩
  · exact advance_injective

end XrsrRandom

end Commission
