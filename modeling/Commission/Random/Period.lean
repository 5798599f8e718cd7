import Commission.Library.FullPeriod
import Commission.Random.State
import Mathlib.NumberTheory.LucasPrimality
import Mathlib.Tactic.NormNum.Prime
import Mathlib.Tactic.ReduceModChar

/-! The generator runs through all of its states but the zero state before it comes back to
one, so every loop of `nextInt(bound)` ends. -/
namespace Commission.XrsrRandom

open FullPeriod Interleaving

/-- States are added bit by bit. -/
instance : Add XrsrRandom := ⟨fun a b => ⟨a.lo ^^^ b.lo, a.hi ^^^ b.hi⟩⟩

instance : Zero XrsrRandom := ⟨zero⟩

instance : Neg XrsrRandom := ⟨fun a => a⟩

/-- The states as vectors over the field of two elements. -/
instance : AddCommGroup XrsrRandom where
  nsmul := nsmulRec
  zsmul := zsmulRec
  add_assoc _ _ _ := congrArg₂ mk (BitVec.xor_assoc ..) (BitVec.xor_assoc ..)
  zero_add _ := congrArg₂ mk BitVec.zero_xor BitVec.zero_xor
  add_zero _ := congrArg₂ mk BitVec.xor_zero BitVec.xor_zero
  neg_add_cancel _ := congrArg₂ mk BitVec.xor_self BitVec.xor_self
  add_comm _ _ := congrArg₂ mk (BitVec.xor_comm ..) (BitVec.xor_comm ..)

theorem add_def (a b : XrsrRandom) : a + b = ⟨a.lo ^^^ b.lo, a.hi ^^^ b.hi⟩ := rfl

theorem add_self (a : XrsrRandom) : a + a = 0 :=
  congrArg₂ mk BitVec.xor_self BitVec.xor_self

/-- One output, as a linear map. -/
def advanceHom : AddMonoid.End XrsrRandom where
  toFun := advance
  map_zero' := advance_zero
  map_add' := nextInternal_xor

@[simp] theorem coe_advanceHom : ⇑advanceHom = advance := rfl

theorem end_add_self (r : AddMonoid.End XrsrRandom) : r + r = 0 :=
  AddMonoidHom.ext fun random => add_self (r random)

section Basis

/-- A word is a sum of its bits. -/
theorem word_induction {P : BitVec 64 → Prop} (zero : P 0#64)
    (bit : ∀ i < 64, P (BitVec.twoPow 64 i)) (xor : ∀ a b, P a → P b → P (a ^^^ b))
    (word : BitVec 64) : P word := by
  have hBelow : ∀ k ≤ 64, ∀ word : BitVec 64, (∀ i, k ≤ i → word.getLsbD i = false) → P word := by
    intro k hk
    induction k with
    | zero =>
        intro word hNone
        have hWord : word = 0#64 := by
          apply BitVec.eq_of_getLsbD_eq
          intro i _
          rw [hNone i i.zero_le, BitVec.getLsbD_zero]
        rwa [hWord]
    | succ k ih =>
        intro word hHigh
        by_cases hBit : word.getLsbD k = true
        · have hRest : P (word ^^^ BitVec.twoPow 64 k) := by
            refine ih (by omega) _ fun i hi => ?_
            rw [BitVec.getLsbD_xor, BitVec.getLsbD_twoPow]
            rcases hi.eq_or_lt with rfl | hi
            · simp [hBit, Nat.lt_of_succ_le hk]
            · simp [hHigh i hi, hi.ne]
          have hWord : word = word ^^^ BitVec.twoPow 64 k ^^^ BitVec.twoPow 64 k := by
            rw [BitVec.xor_assoc, BitVec.xor_self, BitVec.xor_zero]
          rw [hWord]
          exact xor _ _ hRest (bit k (Nat.lt_of_succ_le hk))
        · refine ih (by omega) word fun i hi => ?_
          rcases hi.eq_or_lt with rfl | hi
          · exact Bool.eq_false_iff.mpr hBit
          · exact hHigh i hi
  exact hBelow 64 le_rfl word fun i hi => BitVec.getLsbD_of_ge _ _ hi

/-- The states with one bit. -/
def basis : List XrsrRandom :=
  (List.range 64).flatMap fun i => [⟨BitVec.twoPow 64 i, 0#64⟩, ⟨0#64, BitVec.twoPow 64 i⟩]

/-- What vanishes on the states with one bit vanishes. -/
theorem vanishes_of_basis {f : AddMonoid.End XrsrRandom} (hBasis : ∀ random ∈ basis, f random = 0)
    (random : XrsrRandom) : f random = 0 := by
  have hBits (i : ℕ) (hi : i < 64) :
      f ⟨BitVec.twoPow 64 i, 0#64⟩ = 0 ∧ f ⟨0#64, BitVec.twoPow 64 i⟩ = 0 := by
    constructor <;> apply hBasis <;> apply List.mem_flatMap.mpr <;>
      exact ⟨i, List.mem_range.mpr hi, by simp⟩
  have hLow (lo : BitVec 64) : f ⟨lo, 0#64⟩ = 0 := by
    refine word_induction (P := fun lo => f ⟨lo, 0#64⟩ = 0) ?_ ?_ ?_ lo
    · exact map_zero f
    · exact fun i hi => (hBits i hi).1
    · intro a b ha hb
      have hSum : (⟨a ^^^ b, 0#64⟩ : XrsrRandom) = ⟨a, 0#64⟩ + ⟨b, 0#64⟩ := by
        rw [add_def, BitVec.xor_zero]
      rw [hSum, map_add, ha, hb, add_zero]
  have hHigh (hi : BitVec 64) : f ⟨0#64, hi⟩ = 0 := by
    refine word_induction (P := fun hi => f ⟨0#64, hi⟩ = 0) ?_ ?_ ?_ hi
    · exact map_zero f
    · exact fun i hi => (hBits i hi).2
    · intro a b ha hb
      have hSum : (⟨0#64, a ^^^ b⟩ : XrsrRandom) = ⟨0#64, a⟩ + ⟨0#64, b⟩ := by
        rw [add_def, BitVec.xor_zero]
      rw [hSum, map_add, ha, hb, add_zero]
  have hSplit : random = ⟨random.lo, 0#64⟩ + ⟨0#64, random.hi⟩ := by
    rw [add_def, BitVec.xor_zero, BitVec.zero_xor]
  rw [hSplit, map_add, hLow, hHigh, add_zero]

end Basis

section Period

/-- The characteristic polynomial of `advance`. -/
def polynomial : ℕ := 0x10031bcf2f855d6e58dae70779760b081

theorem basis_vanishes : ∀ random ∈ basis, evalAt advanceHom 129 polynomial random 0 = 0 := by
  decide +kernel

theorem advanceHom_root : Root advanceHom 128 polynomial := by
  refine root_of_evalAt end_add_self (by decide) (by decide) fun random => ?_
  have hVanishes (random : XrsrRandom) (hRandom : random ∈ basis) :
      eval advanceHom 129 polynomial random = 0 := by
    have hHere := basis_vanishes random hRandom
    rwa [evalAt_eq, zero_add] at hHere
  rw [evalAt_eq, zero_add]
  exact vanishes_of_basis hVanishes random

/-- Each prime part `p` of `2^128 - 1`, with the inverse of `X ^ ((2^128 - 1) / p) + 1`. -/
def inverses : List (ℕ × ℕ) :=
  [(3, 0xd18aec643e0e7342c3a1a780f44a2e4f), (5, 0x7a213d864dff9b12be48da6b44fb107c),
   (17, 0x11a4cccadf16c9286157104d6882fdd5), (257, 0x16af9c4a631a2f363a7db75f4eb26890),
   (641, 0xb49a0762877d17bfc746c27cce7b37eb), (65537, 0xdb13661077af59e00dd681384f51c049),
   (274177, 0xa238ed9445e7266942cd43c8150b5365), (6700417, 0xa00b4629afcbeb8a2d223bc0ae262b23),
   (67280421310721, 0xff14f9fc7bbc9e719668fec350454046)]

theorem certificate : Certificate 128 polynomial (2 ^ 128 - 1) inverses := by
  decide +kernel

/-- A prime part of a product of primes is one of them. -/
theorem mem_of_prime_dvd {p n : ℕ} {primes : List ℕ} (hPrimes : ∀ q ∈ primes, q.Prime)
    (hProduct : n = primes.prod) (hPrime : p.Prime) (hDivides : p ∣ n) : p ∈ primes :=
  mem_list_primes_of_dvd_prod hPrime.prime (fun q hq => (hPrimes q hq).prime)
    (hProduct ▸ hDivides)

/-- The larger prime part of `2^64 + 1`. -/
theorem prime_largest : Nat.Prime 67280421310721 := by
  refine lucas_primality _ 3 (by reduce_mod_char) fun q hPrime hDivides => ?_
  have hFactors : 67280421310721 - 1 = (List.replicate 8 2 ++ [5, 47, 373, 2998279]).prod := by
    norm_num
  have hPart := mem_of_prime_dvd (by simp; norm_num) hFactors hPrime hDivides
  simp only [List.mem_append, List.mem_replicate, List.mem_cons, List.not_mem_nil, or_false] at hPart
  rcases hPart with ⟨-, rfl⟩ | rfl | rfl | rfl | rfl
  all_goals
    reduce_mod_char
    decide

theorem primes_of_period {p : ℕ} (hPrime : p.Prime) (hDivides : p ∣ 2 ^ 128 - 1) :
    ∃ part ∈ inverses, part.1 = p := by
  have hPrimes : ∀ q ∈ inverses.map Prod.fst, q.Prime := by
    simp only [inverses, List.map_cons, List.map_nil, List.forall_mem_cons, List.not_mem_nil,
      false_imp_iff, implies_true, and_true]
    refine ⟨by norm_num, by norm_num, by norm_num, by norm_num, by norm_num, by norm_num,
      by norm_num, by norm_num, prime_largest⟩
  exact List.mem_map.mp (mem_of_prime_dvd hPrimes (by decide) hPrime hDivides)

/-- From every state but the zero state, the generator comes back to it after `2^128 - 1` outputs
and not before. -/
theorem minimalPeriod_advance {random : XrsrRandom} (hRandom : random ≠ zero) :
    Function.minimalPeriod advance random = 2 ^ 128 - 1 :=
  certificate.minimalPeriod_eq end_add_self advanceHom_root (by decide)
    (fun _ hPrime => primes_of_period hPrime) hRandom

theorem card_states : Nat.card XrsrRandom = 2 ^ 128 - 1 + 1 := by
  have hPairs : XrsrRandom ≃ BitVec 64 × BitVec 64 :=
    ⟨fun random => (random.lo, random.hi), fun words => ⟨words.1, words.2⟩, fun _ => rfl,
      fun _ => rfl⟩
  have hWords : BitVec 64 ≃ Fin (2 ^ 64) := ⟨BitVec.toFin, BitVec.ofFin, fun _ => rfl, fun _ => rfl⟩
  rw [Nat.card_congr hPairs, Nat.card_prod, Nat.card_congr hWords, Nat.card_fin]
  norm_num

/-- Every state but the zero state comes after every other one. -/
theorem exists_advance_eq {random later : XrsrRandom} (hRandom : random ≠ zero)
    (hLater : later ≠ zero) : ∃ k < 2 ^ 128 - 1, advance^[k] random = later :=
  exists_iterate_eq (T := advanceHom) card_states (fun _ => minimalPeriod_advance) hRandom hLater

end Period

section Returns

/-- Redraws which are enough for every state. -/
def maxRedraws : ℕ := 2 ^ 128 - 2

/-- The largest draw is not rejected. -/
theorem not_rejected_last {bound : ℕ} (hBound : 0 < bound) (hFits : bound < 2 ^ 32) :
    ¬Rejected bound (2 ^ 32 - 1) := by
  have hProduct : (2 ^ 32 - 1) * bound % 2 ^ 32 = 2 ^ 32 - bound := by
    have hSplit : (2 ^ 32 - 1) * bound = 2 ^ 32 - bound + 2 ^ 32 * (bound - 1) := by omega
    rw [hSplit, Nat.add_mul_mod_self_left, Nat.mod_eq_of_lt (by omega)]
  rw [Rejected, hProduct, threshold_eq hBound hFits, Nat.not_lt, Nat.mod_eq_sub_mod hFits.le]
  exact Nat.mod_le _ _

/-- The generator comes to a state whose draw is the largest one. -/
theorem exists_not_rejected {random : XrsrRandom} (hRandom : random ≠ zero) {bound : ℕ}
    (hBound : 0 < bound) (hFits : bound < 2 ^ 32) :
    ∃ k ≤ maxRedraws, ¬Rejected bound (draw random k) := by
  have hLast : (⟨0#64, BitVec.allOnes 64⟩ : XrsrRandom) ≠ zero := by decide
  obtain ⟨k, hk, hState⟩ := exists_advance_eq hRandom hLast
  refine ⟨k, Nat.le_sub_of_add_le (by omega), ?_⟩
  have hDraw : draw random k = 2 ^ 32 - 1 := by
    rw [draw, hState]
    decide
  rw [hDraw]
  exact not_rejected_last hBound hFits

theorem nextInt_returns {random : XrsrRandom} (hRandom : random ≠ zero) {fuel bound : ℕ}
    (hFuel : maxRedraws ≤ fuel) (hBound : 0 < bound) (hFits : bound < 2 ^ 32) :
    (random.nextInt fuel bound).isSome := by
  obtain ⟨k, hk, hAccepted⟩ := exists_not_rejected hRandom hBound hFits
  classical
  have hSome : ∃ k, ¬Rejected bound (draw random k) := ⟨k, hAccepted⟩
  have hEnds : ∃ k ≤ fuel, EndsAt bound random k _ _ :=
    ⟨Nat.find hSome, ((Nat.find_min' hSome hAccepted).trans hk).trans hFuel,
      fun i hi => not_not.mp (Nat.find_min hSome hi), Nat.find_spec hSome, rfl, rfl⟩
  rw [nextInt_eq_some_iff.mpr hEnds]
  rfl

theorem shuffle_returns {fuel : ℕ} (hFuel : maxRedraws ≤ fuel) (rest : List ℕ)
    (hRest : ∀ i ∈ rest, i < 256) (p : Fin 256 → UInt8) {random : XrsrRandom}
    (hRandom : random ≠ zero) : (shuffle fuel rest p random).isSome := by
  induction rest generalizing p random with
  | nil => rfl
  | cons i rest ih =>
      have hi := hRest i List.mem_cons_self
      obtain ⟨⟨value, after⟩, hDraw⟩ := Option.isSome_iff_exists.mp
        (nextInt_returns hRandom hFuel (by omega : 0 < 256 - i) (by omega))
      obtain ⟨k, -, -, -, -, rfl⟩ := nextInt_eq_some_iff.mp hDraw
      rw [shuffle, hDraw, Option.bind_some]
      exact ih (fun j hj => hRest j (List.mem_cons_of_mem _ hj)) _ (iterate_advance_ne_zero hRandom _)

theorem initNoise_returns {F : Type} [Arith F] {fuel : ℕ} (hFuel : maxRedraws ≤ fuel)
    {random : XrsrRandom} (hRandom : random ≠ zero) : (initNoise (F := F) fuel random).isSome := by
  rw [initNoise, Option.isSome_map]
  refine shuffle_returns hFuel _ (fun i hi => List.mem_range.mp hi) _ ?_
  exact iterate_advance_ne_zero hRandom 3

/-- Whatever was called on a generator, it runs through all states but the zero state before it
comes back, so that every `nextInt(bound)` and every `init_noise` returns. -/
theorem full_period (F : Type) [Arith F] (start : Start) (calls : List Call) (random : XrsrRandom)
    (hRun : run call (Start.random start) calls = some random) :
    Function.minimalPeriod advance random = 2 ^ 128 - 1 ∧
      (∀ later, later ≠ zero → ∃ k < 2 ^ 128 - 1, advance^[k] random = later) ∧
      ∀ fuel, maxRedraws ≤ fuel →
        (∀ bound, 0 < bound → bound < 2 ^ 32 → (random.nextInt fuel bound).isSome) ∧
          (initNoise (F := F) fuel random).isSome := by
  have hRandom : random ≠ zero :=
    run_invariant (fun random => random ≠ zero) (fun _ _ _ => call_ne_zero) (start_ne_zero start) hRun
  exact ⟨minimalPeriod_advance hRandom, fun _ => exists_advance_eq hRandom, fun _ hFuel =>
    ⟨fun _ => nextInt_returns hRandom hFuel, initNoise_returns hFuel hRandom⟩⟩

theorem full_period_fork :
    ∃ random, run call (Start.random (.ofSeed 1#64)) [.fork, .nextFloat] = some random ∧
      Function.minimalPeriod advance random = 2 ^ 128 - 1 ∧
      (∀ later, later ≠ zero → ∃ k < 2 ^ 128 - 1, advance^[k] random = later) ∧
      ∀ fuel, maxRedraws ≤ fuel →
        (∀ bound, 0 < bound → bound < 2 ^ 32 → (random.nextInt fuel bound).isSome) ∧
          (initNoise (F := ℚ) fuel random).isSome :=
  ⟨_, rfl, full_period ℚ (.ofSeed 1#64) [.fork, .nextFloat] _ rfl⟩

end Returns

end Commission.XrsrRandom
