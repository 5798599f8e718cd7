import Mathlib.Data.Nat.Factorial.BigOperators
import Mathlib.Data.Fintype.Perm
import Mathlib.Algebra.BigOperators.Fin

/-! Shuffling a table by exchanges: turn `i` exchanges entry `i` with one of the entries
from `i` on. -/
namespace SwapChain

variable {n : ℕ}

/-- How far from `i` on the partner of turn `i` stands. -/
abbrev Choices (n : ℕ) : Type := (i : Fin n) → Fin (n - i)

/-- The partner of turn `i`. -/
def target (choices : Choices n) (i : Fin n) : Fin n :=
  ⟨i + choices i, by have := (choices i).isLt; omega⟩

/-- The exchanges of the listed turns, the first one outermost. -/
def turns (choices : Choices n) : List (Fin n) → Equiv.Perm (Fin n)
  | [] => 1
  | i :: rest => Equiv.swap i (target choices i) * turns choices rest

/-- All turns in order. -/
def arrangement (choices : Choices n) : Equiv.Perm (Fin n) :=
  turns choices (List.finRange n)

theorem target_le (choices : Choices n) (i : Fin n) : i ≤ target choices i :=
  Fin.le_def.mpr (Nat.le_add_right _ _)

theorem target_eq_iff {choices others : Choices n} {i : Fin n} :
    target choices i = target others i ↔ choices i = others i := by
  simp [target, Fin.ext_iff]

theorem turns_congr {choices others : Choices n} {l : List (Fin n)}
    (h : ∀ i ∈ l, choices i = others i) : turns choices l = turns others l := by
  induction l with
  | nil => rfl
  | cons i rest ih =>
      rw [turns, turns, target_eq_iff.mpr (h i List.mem_cons_self),
        ih fun k hk => h k (List.mem_cons_of_mem _ hk)]

/-- Turns after `k` leave entry `k` alone. -/
theorem turns_apply_of_lt (choices : Choices n) {l : List (Fin n)} {k : Fin n}
    (h : ∀ i ∈ l, k < i) : turns choices l k = k := by
  induction l with
  | nil => rfl
  | cons i rest ih =>
      have hi : k < i := h i List.mem_cons_self
      rw [turns, Equiv.Perm.mul_apply, ih fun j hj => h j (List.mem_cons_of_mem _ hj)]
      exact Equiv.swap_apply_of_ne_of_ne hi.ne (hi.trans_le (target_le choices i)).ne

/-- The first turn decides its entry, so different choices show in the table. -/
theorem choices_eq_of_turns_eq {choices others : Choices n} {l : List (Fin n)}
    (hSorted : l.Pairwise (· < ·)) (h : turns choices l = turns others l) :
    ∀ i ∈ l, choices i = others i := by
  induction l with
  | nil => exact fun i hi => absurd hi List.not_mem_nil
  | cons i rest ih =>
      obtain ⟨hFirst, hRest⟩ := List.pairwise_cons.mp hSorted
      have hEntry (c : Choices n) : turns c (i :: rest) i = target c i := by
        rw [turns, Equiv.Perm.mul_apply, turns_apply_of_lt c hFirst, Equiv.swap_apply_left]
      have hTarget : target choices i = target others i := by
        rw [← hEntry choices, ← hEntry others, h]
      rw [turns, turns, hTarget] at h
      intro k hk
      rcases List.mem_cons.mp hk with rfl | hk
      · exact target_eq_iff.mp hTarget
      · exact ih hRest (mul_left_cancel h) k hk

theorem arrangement_injective : Function.Injective (arrangement (n := n)) := by
  intro choices others h
  funext i
  exact choices_eq_of_turns_eq (List.pairwise_lt_finRange n) h i (List.mem_finRange i)

theorem card_choices (n : ℕ) : Fintype.card (Choices n) = n.factorial := by
  rw [Fintype.card_pi, ← Nat.descFactorial_self, Nat.descFactorial_eq_prod_range,
    ← Fin.prod_univ_eq_prod_range]
  simp only [Fintype.card_fin]

/-- Every permutation comes from exactly one choice of partners. -/
theorem arrangement_bijective : Function.Bijective (arrangement (n := n)) := by
  rw [Fintype.bijective_iff_injective_and_card]
  refine ⟨arrangement_injective, ?_⟩
  rw [card_choices, Fintype.card_perm, Fintype.card_fin]

end SwapChain
