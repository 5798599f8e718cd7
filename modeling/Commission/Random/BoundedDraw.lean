import Commission.Random
import Commission.Library.MultiplyShift

/-! `nextInt(bound)`: it returns what its first accepted draw stands for, and the accepted
draws are shared out evenly. -/
namespace Commission.XrsrRandom

open MultiplyShift

/-- The state after one output. -/
def advance (random : XrsrRandom) : XrsrRandom := random.nextInternal.2

/-- The 32-bit draws of a generator, one after another. -/
def draw (random : XrsrRandom) (i : ℕ) : ℕ := (advance^[i] random).nextInt32.1

/-- `j = (~bound + 1) % bound`, in `uint32_t`. -/
def threshold (bound : ℕ) : ℕ := (2 ^ 32 - bound) % 2 ^ 32 % bound

/-- `n < bound`, the test which a draw has to meet before `j` is computed. -/
def Suspect (bound l : ℕ) : Prop := l * bound % 2 ^ 32 < bound

/-- `n < j`, the test of the loop. -/
def Rejected (bound l : ℕ) : Prop := l * bound % 2 ^ 32 < threshold bound

instance (bound l : ℕ) : Decidable (Rejected bound l) :=
  inferInstanceAs (Decidable (l * bound % 2 ^ 32 < threshold bound))

variable {bound fuel value l : ℕ} {random after : XrsrRandom}

theorem draw_lt (random : XrsrRandom) (i : ℕ) : draw random i < 2 ^ 32 :=
  Nat.mod_lt _ (by decide)

/-- Draw `k` is the first one which is not rejected, and the call ends with it. -/
def EndsAt (bound : ℕ) (random : XrsrRandom) (k value : ℕ) (after : XrsrRandom) : Prop :=
  (∀ i < k, Rejected bound (draw random i)) ∧ ¬Rejected bound (draw random k) ∧
    value = draw random k * bound / 2 ^ 32 ∧ after = advance^[k + 1] random

theorem endsAt_zero_iff :
    EndsAt bound random 0 value after ↔ ¬Rejected bound (draw random 0) ∧
      value = draw random 0 * bound / 2 ^ 32 ∧ after = random.advance := by
  simp [EndsAt]

/-- A rejected draw is followed by the draws of the next state. -/
theorem endsAt_succ_iff (k : ℕ) :
    EndsAt bound random (k + 1) value after ↔
      Rejected bound (draw random 0) ∧ EndsAt bound random.advance k value after := by
  constructor
  · rintro ⟨hBefore, hEnd⟩
    exact ⟨hBefore 0 k.succ_pos, fun i hi => hBefore (i + 1) (Nat.succ_lt_succ hi), hEnd⟩
  · rintro ⟨hFirst, hBefore, hEnd⟩
    refine ⟨?_, hEnd⟩
    intro i hi
    cases i with
    | zero => exact hFirst
    | succ i => exact hBefore i (Nat.lt_of_succ_lt_succ hi)

/-- The loop, entered with the first draw, goes on to the first one it does not reject. -/
theorem nextIntLoop_eq_some_iff :
    nextIntLoop bound (threshold bound) fuel (draw random 0 * bound) random.advance =
        some (value, after) ↔ ∃ k ≤ fuel, EndsAt bound random k value after := by
  induction fuel generalizing random with
  | zero =>
      rw [nextIntLoop]
      split
      next hFirst =>
        have hRejected : Rejected bound (draw random 0) := hFirst
        simp [endsAt_zero_iff, hRejected]
      next hFirst =>
        have hAccepted : ¬Rejected bound (draw random 0) := hFirst
        simp [endsAt_zero_iff, hAccepted, eq_comm]
  | succ fuel ih =>
      rw [nextIntLoop]
      split
      next hFirst =>
        have hRejected : Rejected bound (draw random 0) := hFirst
        -- the rest of the loop is the loop of the next state
        have hRest : nextIntLoop bound (threshold bound) fuel (draw random.advance 0 * bound)
            random.advance.advance = some (value, after) ↔
              ∃ k ≤ fuel, EndsAt bound random.advance k value after := ih
        constructor
        · intro h
          obtain ⟨k, hk, hEnds⟩ := hRest.mp h
          exact ⟨k + 1, Nat.succ_le_succ hk, (endsAt_succ_iff k).mpr ⟨hRejected, hEnds⟩⟩
        · rintro ⟨k, hk, hEnds⟩
          cases k with
          | zero => exact absurd hRejected (endsAt_zero_iff.mp hEnds).1
          | succ k =>
              exact hRest.mpr ⟨k, Nat.le_of_succ_le_succ hk, ((endsAt_succ_iff k).mp hEnds).2⟩
      next hFirst =>
        have hAccepted : ¬Rejected bound (draw random 0) := hFirst
        constructor
        · intro h
          cases h
          exact ⟨0, Nat.zero_le _, endsAt_zero_iff.mpr ⟨hAccepted, rfl, rfl⟩⟩
        · rintro ⟨k, hk, hEnds⟩
          cases k with
          | zero =>
              obtain ⟨-, rfl, rfl⟩ := endsAt_zero_iff.mp hEnds
              rfl
          | succ k => exact absurd ((endsAt_succ_iff k).mp hEnds).1 hAccepted

/-- `~bound + 1` is `2^32 - bound`, so `j` is what is left of `2^32`. -/
theorem threshold_eq (hBound : 0 < bound) (hFits : bound < 2 ^ 32) :
    threshold bound = 2 ^ 32 % bound := by
  rw [threshold, Nat.mod_eq_of_lt (Nat.sub_lt (by decide) hBound), ← Nat.mod_eq_sub_mod hFits.le]

/-- The first test lets no draw through which the loop would reject. -/
theorem Rejected.suspect (h : Rejected bound l) : Suspect bound l := by
  cases bound with
  | zero =>
      rw [Rejected, threshold] at h
      simp at h
  | succ bound => exact h.trans (Nat.mod_lt _ bound.succ_pos)

/-- `nextInt(bound)` returns what its first draw that is not rejected stands for. -/
theorem nextInt_eq_some_iff :
    random.nextInt fuel bound = some (value, after) ↔
      ∃ k ≤ fuel, EndsAt bound random k value after := by
  rw [nextInt]
  split
  · exact nextIntLoop_eq_some_iff
  next hFirst =>
    have hAccepted : ¬Rejected bound (draw random 0) := fun h => hFirst h.suspect
    constructor
    · intro h
      cases h
      exact ⟨0, Nat.zero_le _, endsAt_zero_iff.mpr ⟨hAccepted, rfl, rfl⟩⟩
    · rintro ⟨k, -, hEnds⟩
      cases k with
      | zero =>
          obtain ⟨-, rfl, rfl⟩ := endsAt_zero_iff.mp hEnds
          rfl
      | succ k => exact absurd ((endsAt_succ_iff k).mp hEnds).1 hAccepted

theorem not_rejected_iff (hBound : 0 < bound) (hFits : bound < 2 ^ 32) :
    ¬Rejected bound l ↔ Accepted (2 ^ 32) bound l := by
  rw [Rejected, Accepted, threshold_eq hBound hFits, Nat.not_lt]

/-- `nextInt(bound)` is uniform: of the 2^32 draws, each result below `bound` is given by
the same number of those which are not rejected. -/
theorem nextInt_uniform (hBound : 0 < bound) (hFits : bound < 2 ^ 32) :
    (∀ random i, draw random i < 2 ^ 32) ∧
    (∀ fuel random value after, nextInt fuel bound random = some (value, after) ↔
      ∃ k ≤ fuel, EndsAt bound random k value after) ∧
    (∀ l, Rejected bound l → Suspect bound l) ∧
    (∀ l < 2 ^ 32, ¬Rejected bound l → l * bound / 2 ^ 32 < bound) ∧
    ∀ value < bound, ((Finset.range (2 ^ 32)).filter fun l =>
      ¬Rejected bound l ∧ l * bound / 2 ^ 32 = value).card = 2 ^ 32 / bound := by
  refine ⟨draw_lt, fun _ _ _ _ => nextInt_eq_some_iff, fun _ => Rejected.suspect, ?_, ?_⟩
  · intro l hl _
    exact result_lt hBound hl
  · intro value hValue
    rw [← card_drawsOf hBound hValue, drawsOf]
    apply congrArg Finset.card
    apply Finset.filter_congr
    intro l _
    rw [not_rejected_iff hBound hFits]
    rfl

/-- A die: its last face is given by 715827882 draws. -/
theorem nextInt_uniform_six : ((Finset.range (2 ^ 32)).filter fun l =>
    ¬Rejected 6 l ∧ l * 6 / 2 ^ 32 = 5).card = 715827882 :=
  (nextInt_uniform (by decide) (by decide)).2.2.2.2 5 (by decide)

end Commission.XrsrRandom
