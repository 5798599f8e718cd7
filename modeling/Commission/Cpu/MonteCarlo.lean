import Commission.Cpu.IntRange
import Commission.Cubiomes.SampledClimate
import Mathlib.Data.Rat.Sqrt

/-! The first test of a position, `cubiomes_test_monte_carlo`: cells are drawn until the share of
those which match is known well enough. Every `double` is read as an exact rational, with NaN as
`none`; `sqrt` is a parameter. -/
namespace Commission

namespace Cubiomes

/-- `next` of `rng.h` -/
def next (seed : BitVec 64) (bits : ℕ) : ℤ × BitVec 64 :=
  let seed := (seed * 0x5deece66d#64 + 0xb#64) &&& ((1#64 <<< 48) - 1#64)
  (((seed.sshiftRight (48 - bits)).setWidth 32).toInt, seed)

/-- The draw is one of the last ones below `2^31`, which would favour small values. -/
def redraws (n : ℕ) (bits : ℤ) : Bool :=
  (BitVec.ofInt 32 (bits - bits.tmod n + (n - 1))).toInt < 0

/-- The loop of `nextInt`; `none` while it is still running. -/
def nextIntDraws (n : ℕ) : ℕ → BitVec 64 → Option (ℤ × BitVec 64)
  | 0, _ => none
  | fuel + 1, seed =>
      let bits := next seed 31
      if redraws n bits.1 then nextIntDraws n fuel bits.2 else some (bits.1.tmod n, bits.2)

/-- `nextInt` for a positive `n`. -/
def nextInt (fuel n : ℕ) (seed : BitVec 64) : Option (ℤ × BitVec 64) :=
  if (n - 1) &&& n = 0 then
    let bits := next seed 31
    let x := BitVec.ofNat 64 n * BitVec.ofInt 64 bits.1
    some (((x.sshiftRight 31).setWidth 32).toInt, bits.2)
  else nextIntDraws n fuel seed

section Draw

/-- The cast to `int` after a shift keeps the value. -/
theorem narrow_toInt {x : BitVec 64} {shift : ℕ} (hShift : shift ≤ 31)
    (hSmall : x.toNat < 2 ^ (31 + shift)) :
    ((x.sshiftRight shift).setWidth 32).toInt = (x.toNat / 2 ^ shift : ℕ) := by
  have hSign : x.toNat < 2 ^ 63 :=
    hSmall.trans (Nat.pow_lt_pow_right (by decide) (by omega))
  have hQuotient : x.toNat / 2 ^ shift < 2 ^ 31 :=
    Nat.div_lt_of_lt_mul (by rwa [← pow_add, add_comm])
  have hMsb : x.msb = false := by
    rw [BitVec.msb_eq_decide, decide_eq_false_iff_not, not_le]
    exact hSign
  have hValue : ((x.sshiftRight shift).setWidth 32).toNat = x.toNat / 2 ^ shift := by
    rw [BitVec.sshiftRight_eq_of_msb_false hMsb, BitVec.toNat_setWidth, BitVec.toNat_ushiftRight,
      Nat.shiftRight_eq_div_pow, Nat.mod_eq_of_lt (by omega)]
  rw [BitVec.toInt_eq_toNat_of_lt (by rw [hValue]; omega), hValue]

theorem next_bounds (seed : BitVec 64) : 0 ≤ (next seed 31).1 ∧ (next seed 31).1 < 2 ^ 31 := by
  simp only [next]
  generalize hState : seed * 0x5deece66d#64 + 0xb#64 &&& (1#64 <<< 48) - 1#64 = state
  have hMask : state.toNat < 2 ^ 48 := by
    rw [← hState, BitVec.toNat_and]
    exact (Nat.and_le_right).trans_lt (by decide)
  rw [narrow_toInt (by decide) hMask]
  omega

theorem nextIntDraws_bounds {n : ℕ} (hPos : 0 < n) {fuel : ℕ} {seed : BitVec 64}
    {draw : ℤ × BitVec 64} (hDraw : nextIntDraws n fuel seed = some draw) :
    0 ≤ draw.1 ∧ draw.1 < n := by
  induction fuel generalizing seed with
  | zero => cases hDraw
  | succ fuel ih =>
      have hBits := next_bounds seed
      rw [nextIntDraws] at hDraw
      generalize next seed 31 = bits at hDraw hBits
      split at hDraw
      · exact ih hDraw
      · cases hDraw
        exact ⟨Int.tmod_nonneg _ hBits.1, Int.tmod_lt_of_pos _ (by omega)⟩

theorem nextInt_bounds {fuel n : ℕ} {seed : BitVec 64} {draw : ℤ × BitVec 64} (hPos : 0 < n)
    (hInt : n < 2 ^ 31) (hDraw : nextInt fuel n seed = some draw) : 0 ≤ draw.1 ∧ draw.1 < n := by
  rw [nextInt] at hDraw
  split at hDraw
  · have hBound := next_bounds seed
    generalize next seed 31 = drawn at hDraw hBound
    cases hDraw
    obtain ⟨bits, hBits⟩ := Int.eq_ofNat_of_zero_le hBound.1
    simp only [hBits] at hBound ⊢
    have hFew : bits < 2 ^ 31 := by exact_mod_cast hBound.2
    have hProduct : n * bits < n * 2 ^ 31 := Nat.mul_lt_mul_of_pos_left hFew hPos
    have hValue : (BitVec.ofNat 64 n * BitVec.ofInt 64 (bits : ℤ)).toNat = n * bits := by
      rw [BitVec.ofInt_natCast, BitVec.toNat_mul, BitVec.toNat_ofNat, BitVec.toNat_ofNat,
        Nat.mod_eq_of_lt (show n < 2 ^ 64 by omega),
        Nat.mod_eq_of_lt (show bits < 2 ^ 64 by omega), Nat.mod_eq_of_lt (by omega)]
    rw [narrow_toInt le_rfl (by rw [hValue]; omega), hValue]
    have hQuotient : n * bits / 2 ^ 31 < n := Nat.div_lt_of_lt_mul (by rwa [mul_comm (2 ^ 31)])
    omega
  · exact nextIntDraws_bounds hPos hDraw

end Draw

end Cubiomes

section Algorithm

/-- `FLT_EPSILON` -/
def fltEpsilon : ℚ := 1 / 2 ^ 23

/-- `wilson`: the interval of the share in a sample of `n`, or NaN for both ends. -/
def wilson (sqrt : ℚ → ℚ) (n p z : ℚ) : Option (ℚ × ℚ) :=
  let s := z * z / n
  let t := 1 / (1 + s)
  let w := t * (p + 1 / 2 * s)
  let v := (p * (1 - p) + 1 / 4 * s) / n
  if v < 0 then none
  else
    let d := t * z * sqrt v + fltEpsilon
    some (w - d, w + d)

/-- The drawn positions: the state of the generator, and the shuffled cells if there are few. -/
structure Draws where
  rng : BitVec 64
  buf : Option (ℕ → ℤ × ℤ × ℤ)

/-- One position; `j` cells of the buffer are left. -/
def Draws.draw (fuel : ℕ) (r : Range) (j : ℕ) (draws : Draws) : Option ((ℤ × ℤ × ℤ) × Draws) :=
  match draws.buf with
  | some buf =>
      (Cubiomes.nextInt fuel j draws.rng).map fun k =>
        let t := buf k.1.toNat
        let buf := if k.1 ≠ (j : ℤ) - 1 then
            Function.update (Function.update buf k.1.toNat (buf (j - 1))) (j - 1) t
          else buf
        (t, ⟨k.2, some buf⟩)
  | none => do
      let x ← Cubiomes.nextInt fuel r.sx draws.rng
      let y ← Cubiomes.nextInt fuel 1 x.2
      let z ← Cubiomes.nextInt fuel r.sz y.2
      return ((x.1, y.1, z.1), ⟨z.2, none⟩)

/-- What the loop checks after `m` positions of which `x` match: the value which it leaves with. -/
def sampleVerdict (sqrt : ℚ → ℚ) (zscore coverage : ℚ) (goal : Option (ℚ × ℚ)) (m x : ℕ) :
    Option ℤ :=
  let perM : ℚ := 1 / m
  let interval := wilson sqrt m (x * perM) zscore
  if ∃ b ∈ interval, coverage < b.1 - perM then some 1
  else if ∃ b ∈ interval, b.2 + perM < coverage then some 0
  else if ∃ b ∈ interval, ∃ w ∈ goal, b.2 - b.1 < w.2 - w.1 then
    some (if coverage < x * perM then 1 else 0)
  else none

/-- The loop of `monteCarloBiomes`, with the number of passes which are left. -/
def monteCarloLoop (verdict : ℕ → ℕ → Option ℤ) (fuel : ℕ) (eval : (x y z : ℤ) → ℤ) (r : Range) :
    ℕ → Draws → (m x : ℕ) → Option ℤ
  | 0, _, _, _ => some 1
  | left + 1, draws, m, x =>
      (draws.draw fuel r (left + 1)).bind fun next =>
        let t := next.1
        let status := eval (r.x + t.1) (r.y + t.2.1) (r.z + t.2.2)
        if status = -1 then monteCarloLoop verdict fuel eval r left next.2 m x
        else if status ≠ 0 ∧ status ≠ 1 then some 0
        else
          let x := if status = 1 then x + 1 else x
          let m := m + 1
          match verdict m x with
          | some ret => some ret
          | none => monteCarloLoop verdict fuel eval r left next.2 m x

/-- `monteCarloBiomes` for a range of one layer; `none` while a loop of `nextInt` runs. -/
def monteCarloBiomes (sqrt : ℚ → ℚ) (zscore : ℚ) (fuel : ℕ) (eval : (x y z : ℤ) → ℤ) (r : Range)
    (rng : BitVec 64) (coverage : ℚ) : Option ℤ :=
  let n := r.sx * 1 * r.sz
  let wn := zscore * sqrt n
  let goal := wilson sqrt wn coverage zscore
  let buf := if (n : ℚ) < 4 * wn ∧ (n : ℤ) < intMax then
      some fun idx : ℕ => (((idx % r.sx : ℕ) : ℤ), (0 : ℤ), ((idx / r.sx % r.sz : ℕ) : ℤ))
    else none
  monteCarloLoop (sampleVerdict sqrt zscore coverage goal) fuel eval r n ⟨rng, buf⟩ 0 0

/-- `cubiomes_test_monte_carlo` with the noises of a seed. -/
def testMonteCarlo (sqrt : ℚ → ℚ) (zscore : ℚ) (fuel : ℕ) (bn : Cubiomes.BiomeNoise)
    (seed : BitVec 64) (x z : BitVec 32) (range minArea : ℤ) : Option ℤ :=
  let r := makeRange x z range 4
  monteCarloBiomes sqrt zscore fuel (Cubiomes.eval bn) r seed (coverage r minArea)

end Algorithm

section Loop

/-- The positions of a range. -/
def Range.Holds (r : Range) (x z : ℤ) : Prop :=
  (r.x ≤ x ∧ x < r.x + r.sx) ∧ r.z ≤ z ∧ z < r.z + r.sz

/-- No buffered cell is outside. -/
def Draws.Within (r : Range) (draws : Draws) : Prop :=
  ∀ buf ∈ draws.buf, ∀ i, r.Holds (r.x + (buf i).1) (r.z + (buf i).2.2)

variable {fuel : ℕ} {r : Range} {draws : Draws} {eval : (x y z : ℤ) → ℤ}

theorem Draws.draw_within (hX : 0 < r.sx ∧ r.sx < 2 ^ 31) (hZ : 0 < r.sz ∧ r.sz < 2 ^ 31)
    (hWithin : draws.Within r) {j : ℕ} {next : (ℤ × ℤ × ℤ) × Draws}
    (hDraw : draws.draw fuel r j = some next) :
    r.Holds (r.x + next.1.1) (r.z + next.1.2.2) ∧ next.2.Within r := by
  rw [Draws.draw] at hDraw
  cases hBuf : draws.buf with
  | some buf =>
      have hCell := hWithin buf hBuf
      rw [hBuf] at hDraw
      obtain ⟨k, -, rfl⟩ := Option.map_eq_some_iff.mp hDraw
      refine ⟨hCell _, fun buf' hBuf' i => ?_⟩
      obtain rfl := Option.some.inj hBuf'
      -- The exchange only moves cells of the buffer.
      split
      · simp only [Function.update_apply]
        split_ifs <;> exact hCell _
      · exact hCell i
  | none =>
      rw [hBuf] at hDraw
      obtain ⟨x, hDrawX, hDraw⟩ := Option.bind_eq_some_iff.mp hDraw
      obtain ⟨y, -, hDraw⟩ := Option.bind_eq_some_iff.mp hDraw
      obtain ⟨z, hDrawZ, hDraw⟩ := Option.bind_eq_some_iff.mp hDraw
      cases hDraw
      have hBoundX := Cubiomes.nextInt_bounds hX.1 hX.2 hDrawX
      have hBoundZ := Cubiomes.nextInt_bounds hZ.1 hZ.2 hDrawZ
      refine ⟨⟨?_, ?_⟩, fun buf hNone => by cases hNone⟩
      · constructor <;> dsimp only <;> omega
      · constructor <;> dsimp only <;> omega

variable {verdict : ℕ → ℕ → Option ℤ} {n : ℕ} {Inv : ℕ → ℕ → Prop} {Good : ℤ → Prop} {ret : ℤ}

/-- What every verdict of the loop has: `Inv` relates the numbers of the drawn and of the matching
positions, and the loop ends without a verdict only after `n` positions. -/
theorem monteCarloLoop_ret (hX : 0 < r.sx ∧ r.sx < 2 ^ 31) (hZ : 0 < r.sz ∧ r.sz < 2 ^ 31)
    (hEval : ∀ x y z, r.Holds x z →
      eval x y z = 0 ∧ (∀ m k, Inv m k → Inv (m + 1) k) ∨
        eval x y z = 1 ∧ ∀ m k, Inv m k → Inv (m + 1) (k + 1))
    (hVerdict : ∀ m k ret, 0 < m → Inv m k → verdict m k = some ret → Good ret)
    (hEnd : ∀ k, Inv n k → verdict n k = none → Good 1) {left m k : ℕ} (hTotal : m + left = n)
    (hInv : Inv m k) (hLast : left = 0 → verdict m k = none) (hWithin : draws.Within r)
    (hRet : monteCarloLoop verdict fuel eval r left draws m k = some ret) : Good ret := by
  induction left generalizing draws m k with
  | zero =>
      obtain rfl := Option.some.inj hRet
      rw [Nat.add_zero] at hTotal
      subst hTotal
      exact hEnd k hInv (hLast rfl)
  | succ left ih =>
      obtain ⟨next, hDraw, hRet⟩ := Option.bind_eq_some_iff.mp hRet
      obtain ⟨hCell, hNext⟩ := draws.draw_within hX hZ hWithin hDraw
      -- One more position has been counted, and the verdict on the counts is asked for.
      have hCounted {k' : ℕ} (hInv' : Inv (m + 1) k')
          (hRet : (match verdict (m + 1) k' with
            | some ret => some ret
            | none => monteCarloLoop verdict fuel eval r left next.2 (m + 1) k') = some ret) :
          Good ret := by
        cases hHere : verdict (m + 1) k' with
        | some now =>
            rw [hHere] at hRet
            obtain rfl := Option.some.inj hRet
            exact hVerdict _ _ _ m.succ_pos hInv' hHere
        | none =>
            rw [hHere] at hRet
            exact ih (by omega) hInv' (fun _ => hHere) hNext hRet
      rcases hEval _ (r.y + next.1.2.1) _ hCell with ⟨hStatus, hStep⟩ | ⟨hStatus, hStep⟩
      · refine hCounted (hStep m k hInv) ?_
        simpa [hStatus] using hRet
      · refine hCounted (hStep m k hInv) ?_
        simpa [hStatus] using hRet

end Loop

section Verdict

variable {sqrt : ℚ → ℚ} {zscore cover : ℚ} {goal : Option (ℚ × ℚ)} {m k : ℕ} {ret : ℤ}
  (hSqrt : ∀ a, 0 ≤ sqrt a) (hRoot : ∀ a, 0 ≤ a → sqrt (a * a) = a) (hScore : 0 < zscore)

include hSqrt hScore in
/-- The interval of a share reaches above 0. -/
theorem wilson_upper_nonneg {n p : ℚ} (hn : 0 < n) (hp : 0 ≤ p) :
    ∀ b ∈ wilson sqrt n p zscore, 0 ≤ b.2 := by
  intro b hB
  rw [wilson] at hB
  split at hB
  · cases hB
  · cases hB
    have hRoot := hSqrt ((p * (1 - p) + 1 / 4 * (zscore * zscore / n)) / n)
    have hEpsilon : (0 : ℚ) ≤ fltEpsilon := by norm_num [fltEpsilon]
    dsimp only
    positivity

include hRoot hScore in
/-- If no position or every position matches, the root is that of a square. -/
theorem wilson_of_edge {n p : ℚ} (hn : 0 < n) (hp : p * (1 - p) = 0) :
    wilson sqrt n p zscore =
      some (1 / (1 + zscore * zscore / n) * p - fltEpsilon,
        1 / (1 + zscore * zscore / n) * (p + zscore * zscore / n) + fltEpsilon) := by
  have hSquare : (0 + 1 / 4 * (zscore * zscore / n)) / n =
      zscore / (2 * n) * (zscore / (2 * n)) := by
    field_simp
    ring
  have hValue : sqrt (zscore / (2 * n) * (zscore / (2 * n))) = zscore / (2 * n) :=
    hRoot _ (by positivity)
  simp only [wilson, hp, hSquare, hValue, if_neg (not_lt.mpr (mul_self_nonneg (zscore / (2 * n))))]
  refine congrArg some (Prod.ext ?_ ?_)
  · dsimp only
    field_simp
    ring
  · dsimp only
    field_simp
    ring

include hSqrt hScore in
/-- A negative share is exceeded by every sample. -/
theorem sampleVerdict_of_neg (hCover : cover < 0) (hm : 0 < m)
    (hRet : sampleVerdict sqrt zscore cover goal m k = some ret) : ret = 1 := by
  have hCount : (0 : ℚ) < m := by exact_mod_cast hm
  have hShare : (0 : ℚ) ≤ k * (1 / m) := by positivity
  simp only [sampleVerdict] at hRet
  split_ifs at hRet with hAbove hBelow hNarrow hEnough
  · exact (Option.some.inj hRet).symm
  · obtain ⟨b, hB, hLess⟩ := hBelow
    have hUpper := wilson_upper_nonneg hSqrt hScore hCount hShare b hB
    have hOne : (0 : ℚ) < 1 / m := by positivity
    linarith
  · exact (Option.some.inj hRet).symm
  · linarith

include hRoot hScore in
/-- Where every position matches, each share below 1 is exceeded. -/
theorem sampleVerdict_of_all (hCover : cover < 1) (hm : 0 < m)
    (hRet : sampleVerdict sqrt zscore cover goal m m = some ret) : ret = 1 := by
  have hCount : (0 : ℚ) < m := by exact_mod_cast hm
  have hShare : (m : ℚ) * (1 / m) = 1 := mul_one_div_cancel hCount.ne'
  simp only [sampleVerdict, hShare, wilson_of_edge hRoot hScore hCount (p := 1) (by norm_num)]
    at hRet
  split_ifs at hRet with hAbove hBelow hNarrow
  · exact (Option.some.inj hRet).symm
  · obtain ⟨b, hB, hLess⟩ := hBelow
    obtain rfl := Option.some.inj hB
    have hUpper : 1 / (1 + zscore * zscore / m) * (1 + zscore * zscore / m) = 1 :=
      one_div_mul_cancel (by positivity)
    have hOne : (0 : ℚ) < 1 / m := by positivity
    have hEpsilon : (0 : ℚ) < fltEpsilon := by norm_num [fltEpsilon]
    simp only [hUpper] at hLess
    linarith
  · exact (Option.some.inj hRet).symm

include hRoot hScore in
/-- Where no position matches, no share is exceeded. -/
theorem sampleVerdict_of_none (hCover : 0 ≤ cover) (hm : 0 < m)
    (hRet : sampleVerdict sqrt zscore cover goal m 0 = some ret) : ret = 0 := by
  have hCount : (0 : ℚ) < m := by exact_mod_cast hm
  have hEpsilon : (0 : ℚ) < fltEpsilon := by norm_num [fltEpsilon]
  have hOne : (0 : ℚ) < 1 / m := by positivity
  simp only [sampleVerdict, Nat.cast_zero, zero_mul,
    wilson_of_edge hRoot hScore hCount (p := 0) (by norm_num)] at hRet
  split_ifs at hRet with hAbove hBelow hNarrow hEnough
  · obtain ⟨b, hB, hLess⟩ := hAbove
    obtain rfl := Option.some.inj hB
    simp only [mul_zero] at hLess
    linarith
  · exact (Option.some.inj hRet).symm
  · exact absurd hEnough (not_lt.mpr hCover)
  · exact (Option.some.inj hRet).symm

include hRoot hScore in
/-- There are enough positions to tell that none of them matches. -/
theorem sampleVerdict_ne_none (hBound : zscore * zscore ≤ 11) (hm : 0 < m)
    (hCover : 12 / m + fltEpsilon < cover) : sampleVerdict sqrt zscore cover goal m 0 ≠ none := by
  have hCount : (0 : ℚ) < m := by exact_mod_cast hm
  have hShare : 1 / (1 + zscore * zscore / m) * (zscore * zscore / m) ≤ 11 / m := by
    have hSquare : 0 ≤ zscore * zscore / m := by positivity
    have hFactor : 1 / (1 + zscore * zscore / m) ≤ 1 :=
      (div_le_one (by positivity)).mpr (le_add_of_nonneg_right hSquare)
    calc 1 / (1 + zscore * zscore / m) * (zscore * zscore / m)
        ≤ 1 * (zscore * zscore / m) := mul_le_mul_of_nonneg_right hFactor hSquare
      _ ≤ 11 / m := by
        rw [one_mul]
        exact div_le_div_of_nonneg_right hBound hCount.le
  have hSum : (12 : ℚ) / m = 11 / m + 1 / m := by ring
  have hBelow : ∃ b ∈ wilson sqrt m 0 zscore, b.2 + 1 / m < cover := by
    refine ⟨_, wilson_of_edge hRoot hScore hCount (by norm_num), ?_⟩
    simp only [zero_add]
    linarith
  simp only [sampleVerdict, Nat.cast_zero, zero_mul, if_pos hBelow]
  split_ifs <;> exact Option.some_ne_none _

end Verdict

section Test

variable {sqrt : ℚ → ℚ} {zscore cover : ℚ} {fuel : ℕ} {eval : (x y z : ℤ) → ℤ} {r : Range}
  {rng : BitVec 64} {ret : ℤ}

theorem cells_within (hX : 0 < r.sx) (hZ : 0 < r.sz) (idx : ℕ) :
    r.Holds (r.x + ((idx % r.sx : ℕ) : ℤ)) (r.z + ((idx / r.sx % r.sz : ℕ) : ℤ)) := by
  have hColumn := Nat.mod_lt idx hX
  have hRow := Nat.mod_lt (idx / r.sx) hZ
  refine ⟨⟨?_, ?_⟩, ?_, ?_⟩ <;> omega

/-- What the verdicts of the loop have, the test has. -/
theorem monteCarloBiomes_ret (Inv : ℕ → ℕ → Prop) (Good : ℤ → Prop)
    (hX : 0 < r.sx ∧ r.sx < 2 ^ 31) (hZ : 0 < r.sz ∧ r.sz < 2 ^ 31)
    (hEval : ∀ x y z, r.Holds x z →
      eval x y z = 0 ∧ (∀ m k, Inv m k → Inv (m + 1) k) ∨
        eval x y z = 1 ∧ ∀ m k, Inv m k → Inv (m + 1) (k + 1)) (hStart : Inv 0 0)
    (hVerdict : ∀ goal m k ret, 0 < m → Inv m k →
      sampleVerdict sqrt zscore cover goal m k = some ret → Good ret)
    (hEnd : ∀ goal k, Inv (r.sx * r.sz) k →
      sampleVerdict sqrt zscore cover goal (r.sx * r.sz) k = none → Good 1)
    (hRet : monteCarloBiomes sqrt zscore fuel eval r rng cover = some ret) : Good ret := by
  have hCells : 0 < r.sx * r.sz := Nat.mul_pos hX.1 hZ.1
  simp only [monteCarloBiomes, mul_one] at hRet
  refine monteCarloLoop_ret hX hZ hEval (hVerdict _) (hEnd _) (zero_add _) hStart
    (fun hNone => absurd hNone hCells.ne') (fun buf hBuf i => ?_) hRet
  dsimp only at hBuf
  split at hBuf
  · obtain rfl := Option.some.inj hBuf
    exact cells_within hX.1 hZ.1 i
  · cases hBuf

section Outcomes

variable (hSqrt : ∀ a, 0 ≤ sqrt a) (hRoot : ∀ a, 0 ≤ a → sqrt (a * a) = a) (hScore : 0 < zscore)
  (hX : 0 < r.sx ∧ r.sx < 2 ^ 31) (hZ : 0 < r.sz ∧ r.sz < 2 ^ 31)
  (hRet : monteCarloBiomes sqrt zscore fuel eval r rng cover = some ret)

include hSqrt hScore hX hZ hRet in
/-- A negative share is met, whatever the positions are. -/
theorem monteCarloBiomes_of_neg (hCover : cover < 0)
    (hEval : ∀ x y z, eval x y z = 0 ∨ eval x y z = 1) : ret = 1 := by
  refine monteCarloBiomes_ret (fun _ _ => True) (· = 1) hX hZ (fun x y z _ => ?_) trivial
    (fun goal m k ret hm _ hVerdict => sampleVerdict_of_neg hSqrt hScore hCover hm hVerdict)
    (fun _ _ _ _ => rfl) hRet
  exact (hEval x y z).imp (fun hZero => ⟨hZero, fun _ _ _ => trivial⟩)
    fun hOne => ⟨hOne, fun _ _ _ => trivial⟩

include hRoot hScore hX hZ hRet in
/-- Without a matching position the test fails, if the range is large enough for the share. -/
theorem monteCarloBiomes_of_none (hBound : zscore * zscore ≤ 11)
    (hCover : 12 / (r.sx * r.sz : ℕ) + fltEpsilon < cover)
    (hEval : ∀ x y z, r.Holds x z → eval x y z = 0) : ret = 0 := by
  have hNonneg : 0 ≤ cover := by
    have hEpsilon : (0 : ℚ) ≤ fltEpsilon := by norm_num [fltEpsilon]
    exact (add_nonneg (by positivity) hEpsilon).trans hCover.le
  refine monteCarloBiomes_ret (fun _ k => k = 0) (· = 0) hX hZ (fun x y z hHere => ?_) rfl
    (fun goal m k ret hm hInv hVerdict => ?_) (fun goal k hInv hVerdict => ?_) hRet
  · exact .inl ⟨hEval x y z hHere, fun _ _ hInv => hInv⟩
  · subst hInv
    exact sampleVerdict_of_none hRoot hScore hNonneg hm hVerdict
  · subst hInv
    exact absurd hVerdict
      (sampleVerdict_ne_none hRoot hScore hBound (Nat.mul_pos hX.1 hZ.1) hCover)

include hRoot hScore hX hZ hRet in
/-- With matching positions alone every share below 1 is met. -/
theorem monteCarloBiomes_of_all (hCover : cover < 1)
    (hEval : ∀ x y z, r.Holds x z → eval x y z = 1) : ret = 1 := by
  refine monteCarloBiomes_ret (fun m k => k = m) (· = 1) hX hZ (fun x y z hHere => ?_) rfl
    (fun goal m k ret hm hInv hVerdict => ?_) (fun _ _ _ _ => rfl) hRet
  · exact .inr ⟨hEval x y z hHere, fun _ _ hInv => congrArg (· + 1) hInv⟩
  · subst hInv
    exact sampleVerdict_of_all hRoot hScore hCover hm hVerdict

end Outcomes

theorem makeRange_sides (large : Bool) (x z : BitVec 32) :
    (makeRange x z (searchRange large) 4).sx = (if large then 12800 else 3200) ∧
      (makeRange x z (searchRange large) 4).sz = if large then 12800 else 3200 := by
  cases large <;> exact ⟨rfl, rfl⟩

/-- The coverage which a build asks for: in large mode the area has wrapped. -/
theorem coverage_makeRange (large : Bool) (x z : BitVec 32) (minArea : ℤ) :
    coverage (makeRange x z (searchRange large) 4) minArea =
      minArea / if large then (-1673527296 : ℚ) else 163840000 := by
  cases large with
  | true =>
      have hArea : areaProduct (makeRange x z (searchRange true) 4) = 2621440000 := by
        norm_num [areaProduct, makeRange, searchRange]
      have hMachine : (BitVec.ofInt 32 2621440000).toInt = -1673527296 := by decide
      rw [coverage, hArea, hMachine]
      norm_num
  | false =>
      have hArea : areaProduct (makeRange x z (searchRange false) 4) = 163840000 := by
        norm_num [areaProduct, makeRange, searchRange]
      have hMachine : (BitVec.ofInt 32 163840000).toInt = 163840000 := by decide
      rw [coverage, hArea, hMachine]
      norm_num

theorem eval_zero_or_one (bn : Cubiomes.BiomeNoise) (x y z : ℤ) :
    Cubiomes.eval bn x y z = 0 ∨ Cubiomes.eval bn x y z = 1 := by
  simp only [Cubiomes.eval]
  split
  · exact .inr rfl
  · exact .inl rfl

/-- What the Monte-Carlo test decides, where it returns. In a build for large biomes it rejects no
position; in one for normal biomes it rejects those without a matching cell in their square, and
keeps those with matching cells alone. -/
theorem testMonteCarlo_verdict (sqrt : ℚ → ℚ) (zscore : ℚ) (fuel : ℕ) (bn : Cubiomes.BiomeNoise)
    (seed : BitVec 64) (x z : BitVec 32) (large : Bool) (minSize ret : ℤ)
    (hSqrt : ∀ a, 0 ≤ sqrt a) (hRoot : ∀ a, 0 ≤ a → sqrt (a * a) = a)
    (hScore : 0 < zscore ∧ zscore * zscore ≤ 11)
    (hRet : testMonteCarlo sqrt zscore fuel bn seed x z (searchRange large) (minSize * 9 / 10) =
      some ret) :
    (large = true → 2 ≤ minSize → ret = 1) ∧
    (large = false → 240 ≤ minSize →
      (∀ x' y' z', (makeRange x z (searchRange large) 4).Holds x' z' →
        Cubiomes.eval bn x' y' z' = 0) → ret = 0) ∧
    (large = false → minSize ≤ 182000000 →
      (∀ x' y' z', (makeRange x z (searchRange large) 4).Holds x' z' →
        Cubiomes.eval bn x' y' z' = 1) → ret = 1) := by
  obtain ⟨hSx, hSz⟩ := makeRange_sides large x z
  have hSide : 0 < (if large then 12800 else 3200) ∧ (if large then 12800 else 3200) < 2 ^ 31 := by
    cases large <;> decide
  have hX := hSx ▸ hSide
  have hZ := hSz ▸ hSide
  simp only [testMonteCarlo, coverage_makeRange] at hRet
  refine ⟨?_, ?_, ?_⟩
  · rintro rfl hSize
    have hArea : 1 ≤ minSize * 9 / 10 := by omega
    have hCast : (1 : ℚ) ≤ (minSize * 9 / 10 : ℤ) := by exact_mod_cast hArea
    have hCover : ((minSize * 9 / 10 : ℤ) : ℚ) / -1673527296 < 0 :=
      div_neg_of_pos_of_neg (by linarith) (by norm_num)
    exact monteCarloBiomes_of_neg hSqrt hScore.1 hX hZ hRet hCover (eval_zero_or_one bn)
  · rintro rfl hSize hNone
    have hArea : 216 ≤ minSize * 9 / 10 := by omega
    have hCast : (216 : ℚ) ≤ (minSize * 9 / 10 : ℤ) := by exact_mod_cast hArea
    have hCover : 216 / 163840000 ≤ ((minSize * 9 / 10 : ℤ) : ℚ) / 163840000 :=
      div_le_div_of_nonneg_right hCast (by norm_num)
    have hLeast : (12 : ℚ) / 10240000 + fltEpsilon < 216 / 163840000 := by norm_num [fltEpsilon]
    refine monteCarloBiomes_of_none hRoot hScore.1 hX hZ hRet hScore.2 ?_ hNone
    rw [hSx, hSz]
    norm_num at hLeast hCover ⊢
    exact hLeast.trans_le hCover
  · rintro rfl hSize hAll
    have hArea : minSize * 9 / 10 ≤ 163800000 := by omega
    have hCast : ((minSize * 9 / 10 : ℤ) : ℚ) ≤ 163800000 := by exact_mod_cast hArea
    have hCover : ((minSize * 9 / 10 : ℤ) : ℚ) / 163840000 < 1 := by
      rw [div_lt_one (by norm_num)]
      linarith
    exact monteCarloBiomes_of_all hRoot hScore.1 hX hZ hRet hCover hAll

/-- Without any noise nothing matches; the large build keeps the position all the same. -/
theorem testMonteCarlo_verdict_unset :
    (∃ ret, testMonteCarlo Rat.sqrt 3 1 .unset 7#64 0#32 0#32 (searchRange true)
      (2147483647 * 9 / 10) = some ret ∧ ret = 1) ∧
    ∃ ret, testMonteCarlo Rat.sqrt 3 2 .unset 7#64 0#32 0#32 (searchRange false)
      (182000000 * 9 / 10) = some ret ∧ ret = 0 := by
  have hSqrt (a : ℚ) : 0 ≤ Rat.sqrt a := Rat.sqrt_nonneg a
  have hRoot (a : ℚ) (ha : 0 ≤ a) : Rat.sqrt (a * a) = a := by rw [Rat.sqrt_eq, abs_of_nonneg ha]
  have hScore : (0 : ℚ) < 3 ∧ (3 : ℚ) * 3 ≤ 11 := by norm_num
  have hLarge : testMonteCarlo Rat.sqrt 3 1 .unset 7#64 0#32 0#32 (searchRange true)
      (2147483647 * 9 / 10) = some 1 := by decide +kernel
  have hNormal : testMonteCarlo Rat.sqrt 3 2 .unset 7#64 0#32 0#32 (searchRange false)
      (182000000 * 9 / 10) = some 0 := by decide +kernel
  refine ⟨⟨1, hLarge, ?_⟩, 0, hNormal, ?_⟩
  · exact (testMonteCarlo_verdict Rat.sqrt 3 1 .unset 7#64 0#32 0#32 true 2147483647 1 hSqrt hRoot
      hScore hLarge).1 rfl (by decide)
  · refine (testMonteCarlo_verdict Rat.sqrt 3 2 .unset 7#64 0#32 0#32 false 182000000 0 hSqrt hRoot
      hScore hNormal).2.1 rfl (by decide) fun x y z _ => ?_
    norm_num [Cubiomes.eval, Cubiomes.evalPosition, Cubiomes.BiomeNoise.unset,
      Cubiomes.sampleDoublePerlin, Cubiomes.sampleOctave]

end Test

end Commission
