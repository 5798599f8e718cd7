import Commission.Library.BinaryPower
import Mathlib.Algebra.Group.End
import Mathlib.Data.BitVec

/-! Jumps of the Java generator: one affine map on 48-bit states for any number of steps, forward
or back. -/
namespace Commission

structure JavaRandomSkip where
  multiplier : BitVec 64
  addend : BitVec 64
  deriving DecidableEq, Repr

structure JavaRandom where
  seed : BitVec 64
  deriving DecidableEq, Repr

namespace JavaRandomSkip

def MULTIPLIER : BitVec 64 := 0x5DEECE66D#64
def ADDEND : BitVec 64 := 0xB#64
def MASK : BitVec 64 := 0xFFFFFFFFFFFF#64

section Combine

variable {ι : Type} [DecidableEq ι]

/-- `this.combine(other)`, where the two references may name one object of `memory`. Both values
are computed before the first assignment. -/
def combine (memory : ι → JavaRandomSkip) (this other : ι) : ι → JavaRandomSkip :=
  let combinedMultiplier := (memory this).multiplier * (memory other).multiplier &&& MASK
  let combinedAddend :=
    (memory this).addend * (memory other).multiplier + (memory other).addend &&& MASK
  let memory := Function.update memory this
    { memory this with multiplier := combinedMultiplier }
  Function.update memory this { memory this with addend := combinedAddend }

end Combine

/-- The two local objects of `make`. -/
inductive Local where
  | skip
  | skipPow
  deriving DecidableEq, Repr

/-- Memory with a value for each of the two. -/
def locals (skip skipPow : JavaRandomSkip) : Local → JavaRandomSkip
  | .skip => skip
  | .skipPow => skipPow

/-- The body of the loop in `make`. -/
def makePass (nMod : BitVec 64) (memory : Local → JavaRandomSkip) (i : ℕ) :
    Local → JavaRandomSkip :=
  let memory := if nMod &&& 1#64 <<< i ≠ 0#64 then combine memory .skip .skipPow else memory
  combine memory .skipPow .skipPow

/-- `make(n)`; the bits of `n` are those of the cast to `uint64_t`. -/
def make (n : BitVec 64) : JavaRandomSkip :=
  let nMod := n &&& MASK
  (List.range 48).foldl (makePass nMod) (locals ⟨1#64, 0#64⟩ ⟨MULTIPLIER, ADDEND⟩) .skip

/-- What `JavaRandom::skip` does to a seed. -/
def apply (skip : JavaRandomSkip) (seed : BitVec 64) : BitVec 64 :=
  seed * skip.multiplier + skip.addend &&& MASK

end JavaRandomSkip

namespace JavaRandom

open JavaRandomSkip (MULTIPLIER MASK)

def setSeed (seed : BitVec 64) : JavaRandom :=
  ⟨(seed ^^^ MULTIPLIER) &&& MASK⟩

/-- `skip<N>()`. -/
def skip (n : BitVec 64) (random : JavaRandom) : JavaRandom :=
  ⟨(JavaRandomSkip.make n).apply random.seed⟩

/-- `nextBits<N>(bits)`. -/
def nextBits (n : BitVec 64) (bits : ℕ) (random : JavaRandom) : BitVec 32 × JavaRandom :=
  let random := random.skip n
  ((random.seed >>> (48 - bits)).setWidth 32, random)

end JavaRandom

/-- One step `s ↦ s * 0x5DEECE66D + 0xB` modulo `2^48`, and the step back. -/
def javaStep : Equiv.Perm (BitVec 48) where
  toFun s := s * 0x5DEECE66D#48 + 0xB#48
  invFun s := (s - 0xB#48) * 0xDFE05BCB1365#48
  left_inv s := by
    calc (s * 0x5DEECE66D#48 + 0xB#48 - 0xB#48) * 0xDFE05BCB1365#48
        = s * (0x5DEECE66D#48 * 0xDFE05BCB1365#48) := by rw [add_sub_cancel_right, mul_assoc]
      _ = s * 1#48 := congrArg (s * ·) (by decide)
      _ = s := BitVec.mul_one s
  right_inv s := by
    calc (s - 0xB#48) * 0xDFE05BCB1365#48 * 0x5DEECE66D#48 + 0xB#48
        = (s - 0xB#48) * (0xDFE05BCB1365#48 * 0x5DEECE66D#48) + 0xB#48 := by rw [mul_assoc]
      _ = (s - 0xB#48) * 1#48 + 0xB#48 := congrArg ((s - 0xB#48) * · + 0xB#48) (by decide)
      _ = s := by rw [BitVec.mul_one, sub_add_cancel]

theorem javaStep_apply (s : BitVec 48) : javaStep s = s * 0x5DEECE66D#48 + 0xB#48 := rfl

/-- `n` steps, or `|n|` steps back. -/
def javaSteps : ℤ → BitVec 48 → BitVec 48
  | .ofNat n => javaStep^[n]
  | .negSucc n => javaStep.symm^[n + 1]

theorem javaSteps_eq_zpow (n : ℤ) : javaSteps n = ⇑(javaStep ^ n) := by
  cases n with
  | ofNat n =>
      rw [javaSteps, Equiv.Perm.iterate_eq_pow, Int.ofNat_eq_natCast, zpow_natCast]
  | negSucc n =>
      rw [javaSteps, Equiv.Perm.iterate_eq_pow, zpow_negSucc, ← inv_pow]
      rfl

namespace JavaRandomSkip

theorem toNat_and_mask (word : BitVec 64) : (word &&& MASK).toNat = word.toNat % 2 ^ 48 := by
  have hMask : MASK.toNat = 2 ^ 48 - 1 := by decide
  rw [BitVec.toNat_and, hMask, Nat.and_two_pow_sub_one_eq_mod]

theorem and_mask (word : BitVec 64) : word &&& MASK = (word.setWidth 48).setWidth 64 := by
  apply BitVec.eq_of_toNat_eq
  rw [toNat_and_mask, BitVec.toNat_setWidth, BitVec.toNat_setWidth]
  have hLow : word.toNat % 2 ^ 48 < 2 ^ 48 := Nat.mod_lt _ (by decide)
  omega

theorem setWidth_setWidth (state : BitVec 48) : (state.setWidth 64).setWidth 48 = state := by
  rw [BitVec.setWidth_setWidth_of_le _ (by decide), BitVec.setWidth_eq]

theorem setWidth_and_mask (word : BitVec 64) : (word &&& MASK).setWidth 48 = word.setWidth 48 := by
  rw [and_mask, setWidth_setWidth]

/-- The map on 48-bit states; what stands above the 48 bits plays no part. -/
def onState (skip : JavaRandomSkip) (state : BitVec 48) : BitVec 48 :=
  state * skip.multiplier.setWidth 48 + skip.addend.setWidth 48

theorem apply_eq_onState (skip : JavaRandomSkip) (seed : BitVec 64) :
    skip.apply seed = (skip.onState (seed.setWidth 48)).setWidth 64 := by
  rw [apply, onState, and_mask, BitVec.setWidth_add _ _ (by decide),
    BitVec.setWidth_mul _ _ (by decide)]

theorem onState_identity : onState ⟨1#64, 0#64⟩ = id := by
  funext state
  have hOne : (1#64).setWidth 48 = 1#48 := by decide
  have hZero : (0#64).setWidth 48 = 0#48 := by decide
  rw [onState, hOne, hZero, BitVec.mul_one, BitVec.add_zero, id]

theorem onState_step : onState ⟨MULTIPLIER, ADDEND⟩ = javaStep := by
  funext state
  have hMultiplier : MULTIPLIER.setWidth 48 = 0x5DEECE66D#48 := by decide
  have hAddend : ADDEND.setWidth 48 = 0xB#48 := by decide
  rw [onState, hMultiplier, hAddend, javaStep_apply]

section Combine

variable {ι : Type} [DecidableEq ι]

/-- The two values read before the assignments, and nothing else, end up in `this`. -/
theorem combine_eq (memory : ι → JavaRandomSkip) (this other : ι) :
    combine memory this other = Function.update memory this
      ⟨(memory this).multiplier * (memory other).multiplier &&& MASK,
        (memory this).addend * (memory other).multiplier + (memory other).addend &&& MASK⟩ := by
  rw [combine, Function.update_idem, Function.update_self]

/-- Combining puts the other skip after this one, also where both are one object. -/
theorem onState_combine (memory : ι → JavaRandomSkip) (this other : ι) (state : BitVec 48) :
    (combine memory this other this).onState state =
      (memory other).onState ((memory this).onState state) := by
  rw [combine_eq, Function.update_self]
  simp only [onState]
  rw [setWidth_and_mask, setWidth_and_mask, BitVec.setWidth_add _ _ (by decide),
    BitVec.setWidth_mul _ _ (by decide), BitVec.setWidth_mul _ _ (by decide), add_mul, mul_assoc,
    add_assoc]

theorem apply_combine (memory : ι → JavaRandomSkip) (this other : ι) (seed : BitVec 64) :
    (combine memory this other this).apply seed =
      (memory other).apply ((memory this).apply seed) := by
  rw [apply_eq_onState, apply_eq_onState, apply_eq_onState, setWidth_setWidth, onState_combine]

theorem combine_of_ne {memory : ι → JavaRandomSkip} {this other object : ι}
    (hObject : object ≠ this) : combine memory this other object = memory object := by
  rw [combine_eq, Function.update_of_ne hObject]

end Combine

theorem and_shiftLeft_ne_zero_iff (word : BitVec 64) {i : ℕ} (hIndex : i < 64) :
    word &&& 1#64 <<< i ≠ 0#64 ↔ word.toNat.testBit i = true := by
  have hPower : BitVec.twoPow 64 i ≠ 0#64 := by
    intro hZero
    have hNat := congrArg BitVec.toNat hZero
    rw [BitVec.toNat_twoPow_of_lt hIndex, BitVec.toNat_ofNat, Nat.zero_mod] at hNat
    exact absurd hNat (Nat.two_pow_pos i).ne'
  rw [← BitVec.twoPow_eq, BitVec.and_twoPow, BitVec.testBit_toNat]
  cases word.getLsbD i with
  | false => simp
  | true => simp [hPower]

/-- The objects of `memory` do what the product so far and the current power do. -/
structure Follows (memory : Local → JavaRandomSkip)
    (acc : Equiv.Perm (BitVec 48) × Equiv.Perm (BitVec 48)) : Prop where
  skip : (memory .skip).onState = acc.1
  skipPow : (memory .skipPow).onState = acc.2

/-- The body of the loop is a pass of powers by squaring. -/
theorem makePass_follows (nMod : BitVec 64) {memory : Local → JavaRandomSkip}
    {acc : Equiv.Perm (BitVec 48) × Equiv.Perm (BitVec 48)} {i : ℕ} (hIndex : i < 64)
    (hMemory : Follows memory acc) :
    Follows (makePass nMod memory i) (BinaryPower.pass nMod.toNat acc i) := by
  simp only [makePass, BinaryPower.pass, and_shiftLeft_ne_zero_iff nMod hIndex]
  split
  next =>
    constructor
    · funext state
      rw [combine_of_ne (by decide), onState_combine, hMemory.skip, hMemory.skipPow,
        Equiv.Perm.mul_apply]
    · funext state
      rw [onState_combine, combine_of_ne (by decide), hMemory.skipPow, Equiv.Perm.mul_apply]
  next =>
    constructor
    · rw [combine_of_ne (by decide), hMemory.skip]
    · funext state
      rw [onState_combine, hMemory.skipPow, Equiv.Perm.mul_apply]

/-- The two objects after `count` passes of the loop in `make`. -/
def passes (nMod : BitVec 64) (count : ℕ) : Local → JavaRandomSkip :=
  (List.range count).foldl (makePass nMod) (locals ⟨1#64, 0#64⟩ ⟨MULTIPLIER, ADDEND⟩)

theorem passes_follows (nMod : BitVec 64) {count : ℕ} (hCount : count ≤ 64) :
    Follows (passes nMod count)
      (javaStep ^ (nMod.toNat % 2 ^ count), javaStep ^ 2 ^ count) := by
  rw [← BinaryPower.foldl_pass]
  apply List.foldl_rel
  · constructor
    · exact onState_identity
    · exact onState_step
  · intro i hIndex memory acc hMemory
    have hRange : i < count := List.mem_range.mp hIndex
    exact makePass_follows nMod (by omega) hMemory

/-- The squarings of the loop itself come back to the identity. -/
theorem javaStep_pow_order : javaStep ^ 2 ^ 48 = 1 := by
  have hPow := (passes_follows 0#64 (by decide : 48 ≤ 64)).skipPow
  have hLast : passes 0#64 48 .skipPow = ⟨1#64, 0#64⟩ := by decide +kernel
  rw [hLast, onState_identity] at hPow
  apply Equiv.ext
  intro state
  exact (congrFun hPow state).symm

theorem javaSteps_congr {m n : ℤ} (h : m % 2 ^ 48 = n % 2 ^ 48) : javaSteps m = javaSteps n := by
  have hOrder : javaStep ^ (2 ^ 48 : ℤ) = 1 := by
    exact_mod_cast javaStep_pow_order
  rw [javaSteps_eq_zpow, javaSteps_eq_zpow, zpow_eq_zpow_emod m hOrder, h,
    ← zpow_eq_zpow_emod n hOrder]

theorem javaSteps_add (m n : ℤ) (state : BitVec 48) :
    javaSteps (m + n) state = javaSteps n (javaSteps m state) := by
  rw [javaSteps_eq_zpow, javaSteps_eq_zpow, javaSteps_eq_zpow, Int.add_comm, zpow_add,
    Equiv.Perm.mul_apply]

/-- `make(n)` does `n` steps, forward or back: its count, masked, differs from `n` by a multiple
of the order. -/
theorem make_onState (n : BitVec 64) : (make n).onState = javaSteps n.toInt := by
  have hCount : n.toInt % 2 ^ 48 = (((n &&& MASK).toNat % 2 ^ 48 : ℕ) : ℤ) % 2 ^ 48 := by
    rw [toNat_and_mask, BitVec.toInt_eq_toNat_cond]
    split
    next => omega
    next => omega
  have hPasses := (passes_follows (n &&& MASK) (by decide : 48 ≤ 64)).skip
  rw [javaSteps_congr hCount, javaSteps_eq_zpow, zpow_natCast]
  exact hPasses

theorem make_add_onState (a b : BitVec 64) (state : BitVec 48) :
    (make (a + b)).onState state = (make b).onState ((make a).onState state) := by
  have hCount : (a + b).toInt % 2 ^ 48 = (a.toInt + b.toInt) % 2 ^ 48 := by
    rw [BitVec.toInt_add, Int.bmod_def]
    split
    next => omega
    next => omega
  rw [make_onState, make_onState, make_onState, javaSteps_congr hCount, javaSteps_add]

end JavaRandomSkip

namespace JavaRandom

open JavaRandomSkip

theorem skip_seed (n : BitVec 64) (random : JavaRandom) :
    (random.skip n).seed = (javaSteps n.toInt (random.seed.setWidth 48)).setWidth 64 := by
  rw [skip, apply_eq_onState, make_onState]

/-- A draw has the topmost bits of the state `n` steps on. -/
theorem nextBits_eq (n : BitVec 64) (bits : ℕ) (random : JavaRandom) :
    (random.nextBits n bits).1 =
      (javaSteps n.toInt (random.seed.setWidth 48) >>> (48 - bits)).setWidth 32 := by
  rw [nextBits, skip_seed]
  apply BitVec.eq_of_toNat_eq
  rw [BitVec.toNat_setWidth, BitVec.toNat_setWidth, BitVec.toNat_ushiftRight,
    BitVec.toNat_ushiftRight, BitVec.toNat_setWidth_of_le (by decide)]

theorem skip_skip (a b : BitVec 64) (random : JavaRandom) :
    (random.skip a).skip b = random.skip (a + b) := by
  rw [skip, skip, skip, apply_eq_onState, apply_eq_onState, apply_eq_onState, setWidth_setWidth,
    make_add_onState]

/-- A seed of at most 48 bits. -/
def Masked (random : JavaRandom) : Prop := random.seed &&& MASK = random.seed

theorem setSeed_masked (seed : BitVec 64) : (setSeed seed).Masked := by
  rw [Masked, setSeed, BitVec.and_assoc, BitVec.and_self]

theorem skip_masked (n : BitVec 64) (random : JavaRandom) : (random.skip n).Masked := by
  rw [Masked, skip, apply, BitVec.and_assoc, BitVec.and_self]

theorem skip_zero {random : JavaRandom} (hMasked : random.Masked) : random.skip 0#64 = random := by
  have hSteps : javaSteps (0#64).toInt (random.seed.setWidth 48) = random.seed.setWidth 48 := rfl
  rw [skip, apply_eq_onState, make_onState, hSteps, ← and_mask, hMasked]

/-- A generator comes back by the opposite skip. -/
theorem skip_skip_neg (n : BitVec 64) {random : JavaRandom} (hMasked : random.Masked) :
    (random.skip n).skip (-n) = random := by
  rw [skip_skip, BitVec.add_right_neg, skip_zero hMasked]

end JavaRandom

/-- A skip of `n` steps takes exactly those, on the seed's lowest 48 bits. Made skips combine to
the skip of the sum, and a skip combined in place with itself acts twice. -/
theorem JavaRandomSkip.skip_exact :
    (∀ (n : BitVec 64) (random : JavaRandom),
      (random.skip n).seed = (javaSteps n.toInt (random.seed.setWidth 48)).setWidth 64) ∧
    (∀ a b seed : BitVec 64,
      (combine (locals (make a) (make b)) .skip .skipPow .skip).apply seed =
        (make (a + b)).apply seed) ∧
    ∀ (ι : Type) [DecidableEq ι] (memory : ι → JavaRandomSkip) (skipPow : ι) (seed : BitVec 64),
      (combine memory skipPow skipPow skipPow).apply seed =
        (memory skipPow).apply ((memory skipPow).apply seed) := by
  constructor
  · exact fun n random => random.skip_seed n
  constructor
  · intro a b seed
    rw [apply_combine, locals, locals, apply_eq_onState, apply_eq_onState, apply_eq_onState,
      setWidth_setWidth, make_add_onState]
  · intro ι _ memory skipPow seed
    exact apply_combine memory skipPow skipPow seed

end Commission
