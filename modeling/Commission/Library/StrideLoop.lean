import Mathlib.Algebra.BigOperators.Group.Finset.Piecewise
import Mathlib.Algebra.Order.Group.Multiset
import Mathlib.Data.Multiset.Count
import Mathlib.Tactic.Ring

/-! Grid-stride loops: a thread starts at some index, advances by a common
stride, and at each pass looks at the index `lane` places further on. -/
namespace StrideLoop

/-- The indices below `bound` which a thread looks at from loop variable `i` on. -/
def visits (bound stride lane i : ℕ) : List ℕ :=
  if _h : i < bound ∧ 0 < stride then
    (if i + lane < bound then [i + lane] else []) ++ visits bound stride lane (i + stride)
  else []
termination_by bound - i

variable {bound stride lane i : ℕ}

theorem visits_of_le (hEnd : bound ≤ i) : visits bound stride lane i = [] := by
  rw [visits, dif_neg (by omega)]

theorem visits_of_lt (hStride : 0 < stride) (hLt : i < bound) :
    visits bound stride lane i =
      (if i + lane < bound then [i + lane] else []) ++ visits bound stride lane (i + stride) := by
  rw [visits, dif_pos ⟨hLt, hStride⟩]

theorem mem_visits (bound lane i : ℕ) (hStride : 0 < stride) {k : ℕ} :
    k ∈ visits bound stride lane i ↔ k < bound ∧ ∃ pass, k = i + lane + pass * stride := by
  rcases Nat.lt_or_ge i bound with hLt | hGe
  · rw [visits_of_lt hStride hLt, List.mem_append, mem_visits bound lane (i + stride) hStride]
    constructor
    · rintro (hHere | ⟨hBound, pass, rfl⟩)
      · split at hHere
        · next hBound =>
            rw [List.mem_singleton] at hHere
            exact ⟨by omega, 0, by omega⟩
        · cases hHere
      · exact ⟨hBound, pass + 1, by ring⟩
    · rintro ⟨hBound, pass, rfl⟩
      cases pass with
      | zero =>
          left
          rw [zero_mul, add_zero] at hBound ⊢
          rw [if_pos hBound]
          exact List.mem_singleton_self _
      | succ pass =>
          right
          exact ⟨hBound, pass, by ring⟩
  · rw [visits_of_le hGe]
    constructor
    · intro hNone
      cases hNone
    · rintro ⟨hBound, pass, rfl⟩
      omega
termination_by bound - i

theorem nodup_visits (bound lane i : ℕ) (hStride : 0 < stride) : (visits bound stride lane i).Nodup := by
  rcases Nat.lt_or_ge i bound with hLt | hGe
  · rw [visits_of_lt hStride hLt]
    refine List.Nodup.append ?_ (nodup_visits bound lane (i + stride) hStride) ?_
    · split <;> simp
    · intro k hHere hLater
      obtain ⟨-, pass, rfl⟩ := (mem_visits bound lane (i + stride) hStride).mp hLater
      split at hHere
      · rw [List.mem_singleton] at hHere
        omega
      · cases hHere
  · rw [visits_of_le hGe]
    exact List.nodup_nil
termination_by bound - i

/-- Which block of `width` consecutive indices a number belongs to, when the
blocks repeat after `blocks` of them. -/
theorem exists_pass_iff {blocks width block k : ℕ} (hLane : lane < width) (hBlock : block < blocks) :
    (∃ pass, k = block * width + lane + pass * (blocks * width)) ↔
      k % width = lane ∧ k / width % blocks = block := by
  have hWidth : 0 < width := by omega
  constructor
  · rintro ⟨pass, rfl⟩
    have hSplit : block * width + lane + pass * (blocks * width) =
        lane + (block + pass * blocks) * width := by ring
    rw [hSplit, Nat.add_mul_mod_self_right, Nat.mod_eq_of_lt hLane, Nat.add_mul_div_right _ _ hWidth,
      Nat.div_eq_of_lt hLane, zero_add, Nat.add_mul_mod_self_right, Nat.mod_eq_of_lt hBlock]
    exact ⟨rfl, rfl⟩
  · rintro ⟨hMod, hDiv⟩
    refine ⟨k / width / blocks, ?_⟩
    calc k = k % width + width * (k / width) := (Nat.mod_add_div k width).symm
      _ = k % width + width * (k / width % blocks + blocks * (k / width / blocks)) := by
          rw [Nat.mod_add_div (k / width) blocks, Nat.mod_add_div]
      _ = block * width + lane + k / width / blocks * (blocks * width) := by
          rw [hMod, hDiv]
          ring

theorem count_visits {blocks width block : ℕ} (hLane : lane < width) (hBlock : block < blocks)
    (k : ℕ) :
    (visits bound (blocks * width) lane (block * width)).count k =
      if k < bound ∧ k % width = lane then (if block = k / width % blocks then 1 else 0) else 0 := by
  have hStride : 0 < blocks * width := Nat.mul_pos (by omega) (by omega)
  have hMem : k ∈ visits bound (blocks * width) lane (block * width) ↔
      k < bound ∧ k % width = lane ∧ k / width % blocks = block := by
    rw [mem_visits bound lane (block * width) hStride, exists_pass_iff hLane hBlock]
  rw [(nodup_visits bound lane (block * width) hStride).count]
  grind

/-- Over all blocks of a grid, every index of a lane is looked at once. -/
theorem sum_visits {blocks width : ℕ} (hBlocks : 0 < blocks) (hLane : lane < width) :
    ∑ block ∈ Finset.range blocks,
        (visits bound (blocks * width) lane (block * width) : Multiset ℕ) =
      ((Multiset.range bound).filter fun k => k % width = lane) := by
  ext k
  rw [Multiset.count_sum', Multiset.count_filter]
  have hCount : ∀ block ∈ Finset.range blocks,
      Multiset.count k (visits bound (blocks * width) lane (block * width) : Multiset ℕ) =
        if k < bound ∧ k % width = lane then (if block = k / width % blocks then 1 else 0) else 0 := by
    intro block hBlock
    rw [Multiset.coe_count]
    exact count_visits hLane (Finset.mem_range.mp hBlock) k
  rw [Finset.sum_congr rfl hCount]
  have hOne : ∑ block ∈ Finset.range blocks, (if block = k / width % blocks then 1 else 0) = 1 := by
    rw [Finset.sum_ite_eq', if_pos (Finset.mem_range.mpr (Nat.mod_lt _ hBlocks))]
  have hRange : Multiset.count k (Multiset.range bound) = if k < bound then 1 else 0 := by
    rw [Multiset.count_eq_of_nodup (Multiset.nodup_range bound)]
    simp
  rw [hRange]
  by_cases hLt : k < bound <;> by_cases hMod : k % width = lane <;> simp [hLt, hMod, hOne]

/-- The lanes of a block share out all indices. -/
theorem sum_lanes {width : ℕ} (hWidth : 0 < width) (bound : ℕ) :
    ∑ lane ∈ Finset.range width, ((Multiset.range bound).filter fun k => k % width = lane) =
      Multiset.range bound := by
  ext k
  rw [Multiset.count_sum']
  simp only [Multiset.count_filter]
  rw [Finset.sum_ite_eq, if_pos (Finset.mem_range.mpr (Nat.mod_lt _ hWidth))]

end StrideLoop
