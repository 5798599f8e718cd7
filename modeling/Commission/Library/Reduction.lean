import Mathlib.Algebra.BigOperators.Intervals
import Mathlib.Algebra.Order.BigOperators.Group.List

/-! Sums over the threads of a block: shuffles inside a group of lanes, and atomic
additions to common cells. -/
namespace Reduction

variable {M : Type*} [AddCommMonoid M]

/-- Threads numbered by block and place in the block. -/
theorem sum_range_mul (blocks width : ℕ) (f : ℕ → M) :
    ∑ t ∈ Finset.range (blocks * width), f t =
      ∑ block ∈ Finset.range blocks, ∑ place ∈ Finset.range width, f (block * width + place) := by
  induction blocks with
  | zero => simp
  | succ blocks ih => rw [Nat.succ_mul, Finset.sum_range_add, ih, Finset.sum_range_succ]

/-- Block and place in the block of a thread number. -/
theorem div_mod_place (block : ℕ) {width place : ℕ} (hPlace : place < width) :
    (block * width + place) / width = block ∧ (block * width + place) % width = place := by
  have hWidth : 0 < width := by omega
  rw [Nat.add_comm, Nat.add_mul_div_right _ _ hWidth, Nat.div_eq_of_lt hPlace, zero_add,
    Nat.add_mul_mod_self_right, Nat.mod_eq_of_lt hPlace]
  exact ⟨rfl, rfl⟩

/-- A sum over the threads which meet a condition. -/
theorem sum_map_filter_range (n : ℕ) (q : ℕ → Bool) (f : ℕ → M) :
    (((List.range n).filter q).map f).sum = ∑ i ∈ Finset.range n, if q i then f i else 0 := by
  induction n with
  | zero => rfl
  | succ n ih =>
      rw [List.range_succ, List.filter_append, List.map_append, List.sum_append, ih,
        Finset.sum_range_succ]
      cases hTest : q n <;> simp [hTest]

/-- A loop which adds up terms. -/
theorem foldl_range_add (term : ℕ → M) (n : ℕ) (init : M) :
    (List.range n).foldl (fun acc i => acc + term i) init = init + ∑ i ∈ Finset.range n, term i := by
  induction n with
  | zero => simp
  | succ n ih =>
      rw [List.range_succ, List.foldl_append, ih, List.foldl_cons, List.foldl_nil,
        Finset.sum_range_succ, add_assoc]

/-- A loop which adds up terms beside what else it keeps. -/
theorem fst_foldl_add {α β : Type*} {step : M × β → α → M × β} (term : α → M)
    (hStep : ∀ state item, (step state item).1 = state.1 + term item) (items : List α)
    (state : M × β) : (items.foldl step state).1 = state.1 + (items.map term).sum := by
  induction items generalizing state with
  | nil => rw [List.foldl_nil, List.map_nil, List.sum_nil, add_zero]
  | cons item items ih => rw [List.foldl_cons, ih, hStep, List.map_cons, List.sum_cons, add_assoc]

/-- `shfl_down`: the value of the lane `delta` further on, and a lane's own value
where there is none. -/
def shflDown (width : ℕ) (val : ℕ → M) (delta lane : ℕ) : M :=
  if lane + delta < width then val (lane + delta) else val lane

/-- Every lane adds what it gets from the lane `delta` further on. -/
def addDown (width delta : ℕ) (val : ℕ → M) : ℕ → M :=
  fun lane => val lane + shflDown width val delta lane

/-- The sum over the window of `size` lanes from a lane on, as long as the window lies
inside the group. Nothing is said of the other lanes. -/
def WindowSums (width size : ℕ) (val sums : ℕ → M) : Prop :=
  ∀ lane, lane + size ≤ width → sums lane = ∑ k ∈ Finset.range size, val (lane + k)

theorem windowSums_one (width : ℕ) (val : ℕ → M) : WindowSums width 1 val val := by
  intro lane _
  rw [Finset.sum_range_one, add_zero]

/-- A shuffle by the size of the windows doubles it. -/
theorem WindowSums.addDown {width size : ℕ} {val sums : ℕ → M} (hPos : 0 < size)
    (hSums : WindowSums width size val sums) :
    WindowSums width (size + size) val (addDown width size sums) := by
  intro lane hLane
  have hNext : lane + size < width := by omega
  rw [Reduction.addDown, shflDown, if_pos hNext, hSums lane (by omega),
    hSums (lane + size) (by omega), Finset.sum_range_add]
  simp only [add_assoc]

section Atomics

variable {ι κ : Type*} [DecidableEq κ]

/-- Every thread of the order adds its amount to its cell. -/
def atomicAdds (cell : ι → κ) (amount : ι → M) (order : List ι) (shared : κ → M) : κ → M :=
  order.foldl
    (fun shared t => Function.update shared (cell t) (shared (cell t) + amount t)) shared

theorem atomicAdds_apply (cell : ι → κ) (amount : ι → M) (order : List ι) (shared : κ → M) (k : κ) :
    atomicAdds cell amount order shared k =
      shared k + ((order.filter fun t => cell t = k).map amount).sum := by
  induction order generalizing shared with
  | nil => simp [atomicAdds]
  | cons t rest ih =>
      have hStep : atomicAdds cell amount (t :: rest) shared =
          atomicAdds cell amount rest
            (Function.update shared (cell t) (shared (cell t) + amount t)) := rfl
      rw [hStep, ih]
      by_cases hCell : cell t = k
      · subst hCell
        simp [add_assoc]
      · rw [Function.update_of_ne (Ne.symm hCell), List.filter_cons_of_neg (by simpa using hCell)]

/-- The order of the additions does not matter. -/
theorem atomicAdds_perm (cell : ι → κ) (amount : ι → M) {order other : List ι}
    (hPerm : order.Perm other) (shared : κ → M) :
    atomicAdds cell amount order shared = atomicAdds cell amount other shared := by
  funext k
  rw [atomicAdds_apply, atomicAdds_apply, ((hPerm.filter _).map amount).sum_eq]

end Atomics

end Reduction
