import Mathlib.Algebra.BigOperators.Ring.Finset
import Mathlib.Algebra.Group.Hom.End
import Mathlib.Data.Nat.Bitwise
import Mathlib.Data.Nat.Prime.Basic
import Mathlib.Dynamics.PeriodicPts.Lemmas
import Mathlib.SetTheory.Cardinal.Finite
import Mathlib.Tactic.Abel
import Mathlib.Tactic.Ring

/-! Linear maps over the field of two elements which run through all vectors but zero.
Polynomials are numbers, one bit for each coefficient: a sum is `^^^`, and products are
reduced by a polynomial `m` of degree `n` at which the map vanishes. -/
namespace FullPeriod

section Polynomial

/-- `X * c`, reduced. -/
def timesX (n m c : ℕ) : ℕ := 2 * c ^^^ c >>> (n - 1) % 2 * m

/-- `acc + a * b`, reduced, for the lowest coefficients of `a`. -/
def mulAdd (n m : ℕ) : ℕ → ℕ → ℕ → ℕ → ℕ
  | 0, _, _, acc => acc
  | k + 1, a, b, acc => mulAdd n m k (a / 2) (timesX n m b) (acc ^^^ a % 2 * b)

/-- `a * b`, reduced. -/
def mul (n m a b : ℕ) : ℕ := mulAdd n m n a b 0

/-- `X ^ e`, reduced, for an exponent of `k` bits. -/
def powX (n m : ℕ) : ℕ → ℕ → ℕ
  | 0, _ => 1
  | k + 1, e =>
      let root := powX n m k (e / 2)
      if e % 2 = 1 then timesX n m (mul n m root root) else mul n m root root

variable {R : Type*} [Ring R] {t : R} {n m : ℕ}

/-- The value of a polynomial at `t`. -/
def eval (t : R) (n c : ℕ) : R := ∑ i ∈ Finset.range n, if c.testBit i then t ^ i else 0

@[simp] theorem eval_zero : eval t n 0 = 0 := by
  simp [eval]

theorem eval_one (hn : 0 < n) : eval t n 1 = 1 := by
  rw [eval, Finset.sum_eq_single 0]
  · simp
  · intro i _ hi
    rw [if_neg (by simpa [Nat.testBit_one_eq_true_iff_self_eq_zero] using hi)]
  · intro hZero
    exact absurd (Finset.mem_range.mpr hn) hZero

theorem eval_xor (hTwo : ∀ r : R, r + r = 0) (a b : ℕ) :
    eval t n (a ^^^ b) = eval t n a + eval t n b := by
  simp only [eval]
  rw [← Finset.sum_add_distrib]
  apply Finset.sum_congr rfl
  intro i _
  rw [Nat.testBit_xor]
  cases a.testBit i <;> cases b.testBit i <;> simp [hTwo]

/-- The bit `b % 2` times `c`. -/
theorem eval_mod_two_mul (b c : ℕ) : eval t n (b % 2 * c) = if b % 2 = 1 then eval t n c else 0 := by
  rcases Nat.mod_two_eq_zero_or_one b with hBit | hBit <;> simp [hBit]

theorem eval_comm (n c : ℕ) : t * eval t n c = eval t n c * t := by
  simp only [eval, Finset.mul_sum, Finset.sum_mul]
  apply Finset.sum_congr rfl
  intro i _
  rw [mul_ite, ite_mul, mul_zero, zero_mul, ← pow_succ, ← pow_succ']

/-- The lowest coefficient, and the rest times `t`. -/
theorem eval_succ (c : ℕ) :
    eval t (n + 1) c = eval t n (c / 2) * t + if c % 2 = 1 then 1 else 0 := by
  rw [eval, Finset.sum_range_succ', eval, Finset.sum_mul, pow_zero, Nat.testBit_zero]
  simp only [decide_eq_true_eq, Nat.testBit_succ, ite_mul, zero_mul, pow_succ]

theorem eval_double (c : ℕ) : eval t (n + 1) (2 * c) = eval t n c * t := by
  rw [eval_succ, Nat.mul_div_cancel_left c (by decide)]
  simp

/-- The highest coefficient which is kept. -/
theorem eval_split (c : ℕ) :
    eval t (n + 1) c = eval t n c + if c >>> n % 2 = 1 then t ^ n else 0 := by
  rw [eval, Finset.sum_range_succ, ← eval, Nat.testBit_eq_decide_div_mod_eq, ← Nat.shiftRight_eq_div_pow]
  simp only [decide_eq_true_eq]

/-- `t` is a root of the polynomial of degree `n` with the lower coefficients of `m`. -/
def Root (t : R) (n m : ℕ) : Prop := 0 < n ∧ t ^ n = eval t n m

variable (hTwo : ∀ r : R, r + r = 0) (hRoot : Root t n m)
include hTwo hRoot

theorem eval_timesX (c : ℕ) : eval t n (timesX n m c) = eval t n c * t := by
  obtain ⟨hn, hPower⟩ := hRoot
  obtain ⟨k, rfl⟩ : ∃ k, n = k + 1 := ⟨n - 1, by omega⟩
  rw [timesX, Nat.add_sub_cancel, eval_xor hTwo, eval_mod_two_mul, ← hPower, eval_split c, add_mul,
    ← eval_double, ite_mul, zero_mul, pow_succ]

theorem eval_mulAdd (k a b acc : ℕ) :
    eval t n (mulAdd n m k a b acc) = eval t n acc + eval t n b * eval t k a := by
  induction k generalizing a b acc with
  | zero =>
      have hNone : eval t 0 a = 0 := Finset.sum_range_zero _
      rw [mulAdd, hNone, mul_zero, add_zero]
  | succ k ih =>
      rw [mulAdd, ih, eval_timesX hTwo hRoot, eval_xor hTwo, eval_mod_two_mul, eval_succ, mul_assoc,
        eval_comm, mul_add, mul_ite, mul_one, mul_zero]
      abel

theorem eval_mul (a b : ℕ) : eval t n (mul n m a b) = eval t n b * eval t n a := by
  rw [mul, eval_mulAdd hTwo hRoot, eval_zero, zero_add]

theorem eval_powX {k e : ℕ} (hBits : e < 2 ^ k) : eval t n (powX n m k e) = t ^ e := by
  induction k generalizing e with
  | zero =>
      obtain rfl : e = 0 := by simpa using hBits
      rw [powX, eval_one hRoot.1, pow_zero]
  | succ k ih =>
      have hHalf := ih (e := e / 2) (by rw [pow_succ] at hBits; omega)
      have hSquare : eval t n (mul n m (powX n m k (e / 2)) (powX n m k (e / 2))) =
          t ^ (2 * (e / 2)) := by
        rw [eval_mul hTwo hRoot, hHalf, ← pow_add, two_mul]
      rw [powX]
      split
      next hOdd =>
        have hExponent : 2 * (e / 2) + 1 = e := by omega
        rw [eval_timesX hTwo hRoot, hSquare, ← pow_succ, hExponent]
      next hEven =>
        have hExponent : 2 * (e / 2) = e := by omega
        rw [hSquare, hExponent]

end Polynomial

section Period

variable {V : Type*} [AddCommGroup V] {T : AddMonoid.End V} {N : ℕ}

/-- A vector stays in place under no power whose difference to the identity has a left inverse. -/
theorem eq_zero_of_fixed {J : AddMonoid.End V} {e : ℕ} (hInverse : J * (T ^ e - 1) = 1) {v : V}
    (hFixed : T^[e] v = v) : v = 0 := by
  have hPower : (T ^ e) v = v := by rw [AddMonoid.End.coe_pow, hFixed]
  calc v = (J * (T ^ e - 1)) v := by rw [hInverse, AddMonoid.End.coe_one, id]
    _ = J ((T ^ e) v - v) := rfl
    _ = 0 := by rw [hPower, sub_self, map_zero]

/-- `T` has order `N` at every vector but zero, if no power of it by a proper part of `N` leaves a
vector in place. -/
theorem minimalPeriod_eq (hPower : T ^ N = 1)
    (hParts : ∀ p, p.Prime → p ∣ N → ∃ J : AddMonoid.End V, J * (T ^ (N / p) - 1) = 1) {v : V}
    (hv : v ≠ 0) : Function.minimalPeriod T v = N := by
  have hPeriodic : Function.IsPeriodicPt T N v := by
    rw [Function.IsPeriodicPt, Function.IsFixedPt, ← AddMonoid.End.coe_pow, hPower,
      AddMonoid.End.coe_one, id]
  obtain ⟨k, hk⟩ := hPeriodic.minimalPeriod_dvd
  by_contra hOther
  have hOne : k ≠ 1 := by
    rintro rfl
    exact hOther (by rw [hk, mul_one])
  obtain ⟨p, hPrime, q, rfl⟩ := Nat.exists_prime_and_dvd hOne
  obtain ⟨J, hInverse⟩ := hParts p hPrime ⟨Function.minimalPeriod T v * q, by rw [hk]; ring⟩
  have hPart : N / p = Function.minimalPeriod T v * q := by
    apply Nat.div_eq_of_eq_mul_right hPrime.pos
    rw [hk]
    ring
  refine hv (eq_zero_of_fixed hInverse ?_)
  rw [hPart]
  exact (Function.isPeriodicPt_minimalPeriod T v).mul_const q

/-- With one vector more than its order, `T` takes every vector but zero to every other. -/
theorem exists_iterate_eq (hCard : Nat.card V = N + 1)
    (hPeriod : ∀ v : V, v ≠ 0 → Function.minimalPeriod T v = N) {v w : V} (hv : v ≠ 0) (hw : w ≠ 0) :
    ∃ k < N, T^[k] v = w := by
  have hFinite : Finite V := Nat.finite_of_card_ne_zero (by omega)
  have hN : 0 < N := by
    by_contra hNone
    have hOne : Nat.card V = 1 := by omega
    have hAll := (Nat.card_eq_one_iff_unique.mp hOne).1
    exact hv (Subsingleton.elim v 0)
  have hIterate (k : ℕ) : T^[k] v ≠ 0 := by
    intro hZero
    have hPeriodic : T^[N * k] v = v := by
      rw [← hPeriod v hv]
      exact (Function.isPeriodicPt_minimalPeriod T v).mul_const k
    have hLong : N * k = N * k - k + k := (Nat.sub_add_cancel (Nat.le_mul_of_pos_left k hN)).symm
    rw [hLong, Function.iterate_add_apply, hZero, iterate_map_zero] at hPeriodic
    exact hv hPeriodic.symm
  let visit (k : Fin N) : {u : V // u ≠ 0} := ⟨T^[k] v, hIterate k⟩
  have hInjective : Function.Injective visit := by
    intro i j hSame
    apply Fin.ext
    apply Function.iterate_injOn_Iio_minimalPeriod (f := T) (x := v)
    · rw [hPeriod v hv]
      exact i.isLt
    · rw [hPeriod v hv]
      exact j.isLt
    · exact congrArg Subtype.val hSame
  have hOthers : Nat.card {u : V // u ≠ 0} = N := by
    have := Fintype.ofFinite V
    classical
    have hSplit := Fintype.card_subtype_compl fun u : V => u = 0
    rw [Fintype.card_subtype_eq, ← Nat.card_eq_fintype_card, ← Nat.card_eq_fintype_card, hCard] at hSplit
    exact hSplit
  have hBijective := (Nat.bijective_iff_injective_and_card visit).mpr
    ⟨hInjective, by rw [Nat.card_fin, hOthers]⟩
  obtain ⟨k, hk⟩ := hBijective.2 ⟨w, hw⟩
  exact ⟨k, k.isLt, congrArg Subtype.val hk⟩

end Period

section Certificate

variable {V : Type*} [AddCommGroup V] {T : AddMonoid.End V} {n m N : ℕ}

/-- `acc` and the polynomial `c`, at `T`, of a vector. -/
def evalAt (T : AddMonoid.End V) : ℕ → ℕ → V → V → V
  | 0, _, _, acc => acc
  | k + 1, c, v, acc => evalAt T k (c / 2) (T v) (if c % 2 = 1 then acc + v else acc)

theorem evalAt_eq (k c : ℕ) (v acc : V) : evalAt T k c v acc = acc + eval T k c v := by
  induction k generalizing c v acc with
  | zero =>
      have hNone : eval T 0 c = 0 := Finset.sum_range_zero _
      rw [evalAt, hNone, AddMonoid.End.zero_apply, add_zero]
  | succ k ih =>
      have hSum : eval T (k + 1) c v = eval T k (c / 2) (T v) + if c % 2 = 1 then v else 0 := by
        rw [eval_succ]
        split <;> rfl
      rw [evalAt, ih, hSum]
      split
      · abel
      · rw [add_zero]

theorem root_of_evalAt (hTwo : ∀ r : AddMonoid.End V, r + r = 0) (hn : 0 < n)
    (hTop : m >>> n % 2 = 1) (hVanish : ∀ v, evalAt T (n + 1) m v 0 = 0) : Root T n m := by
  refine ⟨hn, ?_⟩
  have hZero : eval T (n + 1) m = 0 := by
    ext v
    have hHere := hVanish v
    rw [evalAt_eq, zero_add] at hHere
    exact hHere
  rw [eval_split, if_pos hTop] at hZero
  calc T ^ n = eval T n m + T ^ n + eval T n m := by
        rw [add_right_comm, hTwo, zero_add]
    _ = eval T n m := by rw [hZero, zero_add]

/-- What the order is read off from: `X ^ N` is one, and each number `p` comes with an inverse of
`X ^ (N / p) + 1`. -/
def Certificate (n m N : ℕ) (inverses : List (ℕ × ℕ)) : Prop :=
  powX n m n N = 1 ∧ ∀ part ∈ inverses, mul n m (powX n m n (N / part.1) ^^^ 1) part.2 = 1

instance (inverses : List (ℕ × ℕ)) : Decidable (Certificate n m N inverses) :=
  inferInstanceAs (Decidable (_ ∧ _))

theorem Certificate.minimalPeriod_eq {inverses : List (ℕ × ℕ)}
    (hCertificate : Certificate n m N inverses) (hTwo : ∀ r : AddMonoid.End V, r + r = 0)
    (hRoot : Root T n m) (hN : N < 2 ^ n)
    (hPrimes : ∀ p, p.Prime → p ∣ N → ∃ part ∈ inverses, part.1 = p) {v : V} (hv : v ≠ 0) :
    Function.minimalPeriod T v = N := by
  obtain ⟨hPower, hInverses⟩ := hCertificate
  refine FullPeriod.minimalPeriod_eq ?_ (fun p hPrime hDivides => ?_) hv
  · rw [← eval_powX hTwo hRoot hN, hPower, eval_one hRoot.1]
  · obtain ⟨part, hPart, rfl⟩ := hPrimes p hPrime hDivides
    have hLess : N / part.1 < 2 ^ n := (Nat.div_le_self _ _).trans_lt hN
    have hMinus : (-1 : AddMonoid.End V) = 1 := neg_eq_of_add_eq_zero_left (hTwo 1)
    refine ⟨eval T n part.2, ?_⟩
    calc eval T n part.2 * (T ^ (N / part.1) - 1)
        = eval T n part.2 * (T ^ (N / part.1) + 1) := by rw [sub_eq_add_neg, hMinus]
      _ = eval T n (mul n m (powX n m n (N / part.1) ^^^ 1) part.2) := by
        rw [eval_mul hTwo hRoot, eval_xor hTwo, eval_powX hTwo hRoot hLess, eval_one hRoot.1]
      _ = 1 := by rw [hInverses part hPart, eval_one hRoot.1]

end Certificate

end FullPeriod
