import Commission.Library.GridSearch
import Mathlib.Algebra.Order.Floor.Defs
import Mathlib.Data.Rat.Floor
import Mathlib.Logic.Function.Iterate

/-! The flood fill of `cubiomes.c`, which counts the cells of one biome around a cell. -/
namespace Commission

open GridSearch

/-- `INT_MAX`, which marks the visited cells in `ids`. -/
def intMax : ℤ := 2 ^ 31 - 1

structure Range where
  scale : ℤ
  x : ℤ
  z : ℤ
  sx : ℕ
  sz : ℕ
  y : ℤ
  deriving DecidableEq

structure Pos where
  x : ℤ
  z : ℤ
  deriving DecidableEq

/-- What the fill reads of a generator: whether `mc >= MC_1_18`, and the biome map, by
scale and position. -/
structure BiomeSource where
  since118 : Bool
  getBiomeAt : (scale x y z : ℤ) → ℤ

/-- `locate_info_t` without the array `ids`, which the fill changes, and the stop flag. -/
structure LocateInfo where
  g : BiomeSource
  r : Range
  matchId : ℤ
  tol : ℕ

/-- `j * sx + i`. -/
def Range.index (r : Range) (i j : ℤ) : ℤ := j * r.sx + i

/-- An entry of the stack: a cell, and how many cells before it do not match. -/
structure Entry where
  i : ℤ
  j : ℤ
  d : ℕ
  deriving DecidableEq

def Entry.cell (e : Entry) : Cell := (e.i, e.j)

/-- The variables of the loop. The first entry of `queue` is `queue[qn - 1]`. -/
structure Fill where
  queue : List Entry
  ids : ℤ → ℤ
  sumx : ℤ
  sumz : ℤ
  n : ℕ

namespace Fill

variable (info : LocateInfo)

def start (ids : ℤ → ℤ) (i j : ℤ) : Fill := ⟨[⟨i, j, 0⟩], ids, 0, 0, 0⟩

/-- The four neighbours in the order in which they are looked at. -/
def next (i j : ℤ) (d : ℕ) : List Entry :=
  [⟨i, j - 1, d⟩, ⟨i, j + 1, d⟩, ⟨i - 1, j, d⟩, ⟨i + 1, j, d⟩]

/-- One pass of the loop over `next`. -/
def push (s : Fill) (e : Entry) : Fill :=
  if e.i < 0 ∨ info.r.sx ≤ e.i ∨ e.j < 0 ∨ info.r.sz ≤ e.j then s
  else if s.ids (info.r.index e.i e.j) = intMax then s
  else { s with queue := e :: s.queue }

/-- The body of the loop up to the loop over `next`, for an entry taken from the stack;
`continue` leaves nothing to look at. -/
def visit (s : Fill) (e : Entry) : Fill × List Entry :=
  let k := info.r.index e.i e.j
  let id := s.ids k
  if id = intMax then (s, [])
  else
    let s := { s with ids := Function.update s.ids k intMax }
    let x := info.r.x + e.i
    let z := info.r.z + e.j
    let id := if info.g.since118 then info.g.getBiomeAt info.r.scale x info.r.y z else id
    if id = info.matchId then
      ({ s with sumx := s.sumx + x, sumz := s.sumz + z, n := s.n + 1 }, next e.i e.j 0)
    else if info.tol ≤ e.d + 1 then (s, [])
    else (s, next e.i e.j (e.d + 1))

/-- One pass of the loop. -/
def step (s : Fill) : Fill :=
  match s.queue with
  | [] => s
  | e :: rest =>
      let (s', entries) := visit info { s with queue := rest } e
      entries.foldl (push info) s'

/-- The loop for at most `fuel` passes; `stop` gives the values read from the stop flag,
which ends the fill with no result. -/
def loop (stop : ℕ → Bool) : ℕ → ℕ → Fill → Fill × Bool
  | 0, _, s => (s, false)
  | fuel + 1, pass, s =>
      if s.queue = [] then (s, false)
      else if stop pass then (s, true)
      else loop stop fuel (pass + 1) (step info s)

end Fill

/-- `round` of the C library: halves go away from zero. -/
def roundAway (q : ℚ) : ℤ := if 0 ≤ q then ⌊q + 1 / 2⌋ else ⌈q - 1 / 2⌉

/-- What a call of `floodFillGen` leaves: the marks, the count which it returns, and the
centre where it sets one. -/
structure Filled where
  ids : ℤ → ℤ
  n : ℕ
  center : Option Pos

/-- The passes which the loop can need: one for every entry that goes on the stack. -/
def fillFuel (r : Range) : ℕ := 4 * (r.sx * r.sz) + 1

def floodFillGen (info : LocateInfo) (stop : ℕ → Bool) (ids : ℤ → ℤ) (i j : ℤ) : Filled :=
  let (s, stopped) := Fill.loop info stop (fillFuel info.r) 0 (Fill.start ids i j)
  if stopped then ⟨s.ids, 0, none⟩
  else if s.n = 0 then ⟨s.ids, 0, none⟩
  else
    ⟨s.ids, s.n, some
      ⟨roundAway (((s.sumx : ℚ) / s.n + 1 / 2) * info.r.scale),
        roundAway (((s.sumz : ℚ) / s.n + 1 / 2) * info.r.scale)⟩⟩

/-- The id of a cell, as the fill finds it. -/
def LocateInfo.idAt (info : LocateInfo) (ids : ℤ → ℤ) (c : Cell) : ℤ :=
  if info.g.since118 then
    info.g.getBiomeAt info.r.scale (info.r.x + c.1) info.r.y (info.r.z + c.2)
  else ids (info.r.index c.1 c.2)

def LocateInfo.Inside (info : LocateInfo) (c : Cell) : Prop := InGrid info.r.sx info.r.sz c

instance (info : LocateInfo) : DecidablePred info.Inside :=
  fun c => inferInstanceAs (Decidable (InGrid info.r.sx info.r.sz c))

def LocateInfo.Marked (info : LocateInfo) (ids : ℤ → ℤ) (c : Cell) : Prop :=
  ids (info.r.index c.1 c.2) = intMax

instance (info : LocateInfo) (ids : ℤ → ℤ) : DecidablePred (info.Marked ids) :=
  fun _ => inferInstanceAs (Decidable (_ = _))

/-- `memset` leaves no cell marked. -/
theorem LocateInfo.not_marked_memset (info : LocateInfo) (c : Cell) :
    ¬info.Marked (fun _ => -1) c := by
  have hPlain : (-1 : ℤ) ≠ intMax := by decide
  exact hPlain

section Index

variable {r : Range} {c c' : Cell}

theorem Range.index_ediv (hCell : InGrid r.sx r.sz c) : r.index c.1 c.2 / r.sx = c.2 := by
  obtain ⟨hI, hI', -, -⟩ := hCell
  rw [Range.index, Int.add_comm, Int.add_mul_ediv_right _ _ (by omega),
    Int.ediv_eq_zero_of_lt hI hI', Int.zero_add]

theorem Range.index_inj (hCell : InGrid r.sx r.sz c) (hCell' : InGrid r.sx r.sz c') :
    r.index c.1 c.2 = r.index c'.1 c'.2 ↔ c = c' := by
  constructor
  · intro hIndex
    have hRow : c.2 = c'.2 := by
      rw [← Range.index_ediv hCell, hIndex, Range.index_ediv hCell']
    have hColumn : c.1 = c'.1 := by
      simp only [Range.index, hRow] at hIndex
      omega
    exact Prod.ext hColumn hRow
  · rintro rfl
    rfl

/-- The index of a cell lies in an array of `sx * sz` elements. -/
theorem Range.index_bounds (hCell : InGrid r.sx r.sz c) :
    0 ≤ r.index c.1 c.2 ∧ r.index c.1 c.2 < (r.sx * r.sz : ℕ) := by
  obtain ⟨hI, hI', hJ, hJ'⟩ := hCell
  have hRow : c.2 * (r.sx : ℤ) ≤ (r.sz - 1) * r.sx :=
    Int.mul_le_mul_of_nonneg_right (by omega) (by omega)
  have hFirst : 0 ≤ c.2 * (r.sx : ℤ) := Int.mul_nonneg hJ (by omega)
  simp only [Range.index, Nat.cast_mul]
  constructor
  · omega
  · linarith

end Index

namespace Fill

variable {info : LocateInfo} {ids : ℤ → ℤ} {s : Fill} {e : Entry} {rest : List Entry}

/-- The neighbours of a cell which go on the stack, the one which leaves it first in
front. -/
def fresh (info : LocateInfo) (ids : ℤ → ℤ) (c : Cell) : List Dir :=
  takeOrder.filter fun dir => info.Inside (move c dir) ∧ ¬info.Marked ids (move c dir)

/-- The entry for a neighbour. -/
def entryAt (c : Cell) (d : ℕ) (dir : Dir) : Entry := ⟨(move c dir).1, (move c dir).2, d⟩

def pushed (info : LocateInfo) (ids : ℤ → ℤ) (c : Cell) (d : ℕ) : List Entry :=
  (fresh info ids c).map (entryAt c d)

theorem mem_fresh {c : Cell} {dir : Dir} :
    dir ∈ fresh info ids c ↔ info.Inside (move c dir) ∧ ¬info.Marked ids (move c dir) := by
  have hMem : dir ∈ takeOrder := by cases dir <;> decide
  simp [fresh, hMem]

theorem push_eq (s : Fill) (e : Entry) :
    push info s e =
      if info.Inside e.cell ∧ ¬info.Marked s.ids e.cell then { s with queue := e :: s.queue } else s := by
  by_cases hInside : info.Inside e.cell
  · have hTest : ¬(e.i < 0 ∨ info.r.sx ≤ e.i ∨ e.j < 0 ∨ info.r.sz ≤ e.j) := by
      simp only [LocateInfo.Inside, InGrid, Entry.cell] at hInside
      omega
    rw [push, if_neg hTest]
    by_cases hMarked : info.Marked s.ids e.cell
    · exact (if_pos hMarked).trans (if_neg fun hFresh => hFresh.2 hMarked).symm
    · exact (if_neg hMarked).trans (if_pos ⟨hInside, hMarked⟩).symm
  · have hTest : e.i < 0 ∨ info.r.sx ≤ e.i ∨ e.j < 0 ∨ info.r.sz ≤ e.j := by
      simp only [LocateInfo.Inside, InGrid, Entry.cell] at hInside
      omega
    rw [push, if_pos hTest, if_neg fun hFresh => hInside hFresh.1]

/-- The loop over `next` keeps the order of the entries which it takes. -/
theorem foldl_push (entries : List Entry) (s : Fill) :
    entries.foldl (push info) s = { s with
      queue := (entries.filter fun e =>
        info.Inside e.cell ∧ ¬info.Marked s.ids e.cell).reverse ++ s.queue } := by
  induction entries generalizing s with
  | nil => rfl
  | cons e rest ih =>
      rw [List.foldl_cons, ih, push_eq, List.filter_cons]
      split_ifs <;> simp_all

theorem foldl_push_next (c : Cell) (d : ℕ) (s : Fill) :
    (next c.1 c.2 d).foldl (push info) s =
      { s with queue := pushed info s.ids c d ++ s.queue } := by
  have hNext : next c.1 c.2 d = (takeOrder.map (entryAt c d)).reverse := rfl
  rw [foldl_push, hNext, List.filter_reverse, List.reverse_reverse, List.filter_map]
  rfl

/-- Everything that a pass can do. -/
theorem step_cases (info : LocateInfo) (hQueue : s.queue = e :: rest) :
    let ids := Function.update s.ids (info.r.index e.i e.j) intMax
    (info.Marked s.ids e.cell ∧ step info s = { s with queue := rest }) ∨
    (¬info.Marked s.ids e.cell ∧ info.idAt s.ids e.cell = info.matchId ∧
      step info s = ⟨pushed info ids e.cell 0 ++ rest, ids, s.sumx + (info.r.x + e.i),
        s.sumz + (info.r.z + e.j), s.n + 1⟩) ∨
    (¬info.Marked s.ids e.cell ∧ info.idAt s.ids e.cell ≠ info.matchId ∧ info.tol ≤ e.d + 1 ∧
      step info s = { s with queue := rest, ids := ids }) ∨
    (¬info.Marked s.ids e.cell ∧ info.idAt s.ids e.cell ≠ info.matchId ∧ e.d + 1 < info.tol ∧
      step info s = { s with queue := pushed info ids e.cell (e.d + 1) ++ rest, ids := ids }) := by
  have hNext (d : ℕ) (s : Fill) : (next e.i e.j d).foldl (push info) s =
      { s with queue := pushed info s.ids e.cell d ++ s.queue } := foldl_push_next e.cell d s
  have hStep : step info s = (visit info { s with queue := rest } e).2.foldl (push info)
      (visit info { s with queue := rest } e).1 := by
    rw [step, hQueue]
  by_cases hMarked : info.Marked s.ids e.cell
  · have hVisit : visit info { s with queue := rest } e = ({ s with queue := rest }, []) :=
      if_pos hMarked
    rw [hVisit] at hStep
    exact .inl ⟨hMarked, hStep⟩
  right
  by_cases hMatch : info.idAt s.ids e.cell = info.matchId
  · have hVisit : visit info { s with queue := rest } e =
        (⟨rest, Function.update s.ids (info.r.index e.i e.j) intMax, s.sumx + (info.r.x + e.i),
          s.sumz + (info.r.z + e.j), s.n + 1⟩, next e.i e.j 0) :=
      (if_neg hMarked).trans (if_pos hMatch)
    rw [hVisit, hNext] at hStep
    exact .inl ⟨hMarked, hMatch, hStep⟩
  right
  by_cases hTol : info.tol ≤ e.d + 1
  · have hVisit : visit info { s with queue := rest } e =
        (⟨rest, Function.update s.ids (info.r.index e.i e.j) intMax, s.sumx, s.sumz, s.n⟩, []) :=
      (if_neg hMarked).trans ((if_neg hMatch).trans (if_pos hTol))
    rw [hVisit] at hStep
    exact .inl ⟨hMarked, hMatch, hTol, hStep⟩
  · have hVisit : visit info { s with queue := rest } e =
        (⟨rest, Function.update s.ids (info.r.index e.i e.j) intMax, s.sumx, s.sumz, s.n⟩,
          next e.i e.j (e.d + 1)) :=
      (if_neg hMarked).trans ((if_neg hMatch).trans (if_neg hTol))
    rw [hVisit, hNext] at hStep
    exact .inr ⟨hMarked, hMatch, by omega, hStep⟩

section Run

theorem marked_update {c : Cell} (hE : info.Inside e.cell) (hC : info.Inside c) :
    info.Marked (Function.update ids (info.r.index e.i e.j) intMax) c ↔
      c = e.cell ∨ info.Marked ids c := by
  have hIndex := Range.index_inj hC hE
  rw [LocateInfo.Marked, Function.update_apply]
  by_cases hSame : c = e.cell
  · simp [hSame, Entry.cell]
  · have hOther : info.r.index c.1 c.2 ≠ info.r.index e.i e.j := fun h => hSame (hIndex.mp h)
    simp [hSame, hOther, LocateInfo.Marked]

theorem idAt_update {c : Cell} (hE : info.Inside e.cell) (hC : info.Inside c) (hOther : c ≠ e.cell) :
    info.idAt (Function.update ids (info.r.index e.i e.j) intMax) c = info.idAt ids c := by
  have hIndex : info.r.index c.1 c.2 ≠ info.r.index e.i e.j :=
    fun hSame => hOther ((Range.index_inj hC hE).mp hSame)
  rw [LocateInfo.idAt, Function.update_of_ne hIndex, LocateInfo.idAt]

/-- A pass drops a marked cell, or marks a cell and puts some of its unmarked neighbours on
the stack. -/
theorem step_shape (info : LocateInfo) (hQueue : s.queue = e :: rest) :
    (info.Marked s.ids e.cell ∧ step info s = { s with queue := rest }) ∨
    (¬info.Marked s.ids e.cell ∧
      (step info s).ids = Function.update s.ids (info.r.index e.i e.j) intMax ∧
      ∃ (dirs : List Dir) (d : ℕ), dirs.Sublist (fresh info (step info s).ids e.cell) ∧
        (step info s).queue = dirs.map (entryAt e.cell d) ++ rest) := by
  rcases step_cases info hQueue with ⟨hMarked, hStep⟩ | ⟨hMarked, -, hStep⟩ |
    ⟨hMarked, -, -, hStep⟩ | ⟨hMarked, -, -, hStep⟩
  · exact .inl ⟨hMarked, hStep⟩
  · refine .inr ⟨hMarked, by rw [hStep], fresh info (step info s).ids e.cell, 0, .refl _, ?_⟩
    rw [hStep]
    rfl
  · exact .inr ⟨hMarked, by rw [hStep], [], 0, List.nil_sublist _, by rw [hStep]; rfl⟩
  · refine .inr ⟨hMarked, by rw [hStep], fresh info (step info s).ids e.cell, e.d + 1, .refl _, ?_⟩
    rw [hStep]
    rfl

/-- Only cells of the grid lie on the stack. -/
def QueueInside (info : LocateInfo) (s : Fill) : Prop := ∀ e ∈ s.queue, info.Inside e.cell

theorem QueueInside.step (hInside : QueueInside info s) : QueueInside info (s.step info) := by
  intro e' hE'
  cases hQueue : s.queue with
  | nil =>
      rw [Fill.step, hQueue] at hE'
      exact hInside e' hE'
  | cons e rest =>
      have hRest : ∀ e' ∈ rest, info.Inside e'.cell :=
        fun e' hMem => hInside e' (hQueue ▸ List.mem_cons_of_mem e hMem)
      rcases step_shape info hQueue with ⟨-, hStep⟩ | ⟨-, -, dirs, d, hDirs, hStep⟩ <;>
        rw [hStep] at hE'
      · exact hRest e' hE'
      · rcases List.mem_append.mp hE' with hPushed | hMem
        · obtain ⟨dir, hDir, rfl⟩ := List.mem_map.mp hPushed
          exact (mem_fresh.mp (hDirs.subset hDir)).1
        · exact hRest e' hMem

theorem queueInside_run {i j : ℤ} (hStart : info.Inside (i, j)) (passes : ℕ) :
    QueueInside info ((step info)^[passes] (start ids i j)) := by
  induction passes with
  | zero =>
      intro e hE
      cases List.mem_singleton.mp hE
      exact hStart
  | succ passes ih =>
      rw [Function.iterate_succ_apply']
      exact ih.step

/-- A pass marks the cell which it takes from the stack, and no other. -/
theorem marked_step_iff {c : Cell} (hInside : QueueInside info s) (hQueue : s.queue = e :: rest)
    (hC : info.Inside c) :
    info.Marked (step info s).ids c ↔ c = e.cell ∨ info.Marked s.ids c := by
  rcases step_shape info hQueue with ⟨hMarked, hStep⟩ | ⟨-, hIds, -⟩
  · rw [hStep]
    constructor
    · exact .inr
    · rintro (rfl | hBefore)
      · exact hMarked
      · exact hBefore
  · rw [hIds, marked_update (hInside e (by simp [hQueue])) hC]

theorem marked_step {c : Cell} (hInside : QueueInside info s) (hC : info.Inside c)
    (hMarked : info.Marked s.ids c) : info.Marked (step info s).ids c := by
  cases hQueue : s.queue with
  | nil => rwa [step, hQueue]
  | cons e rest => exact (marked_step_iff hInside hQueue hC).mpr (.inr hMarked)

/-- No pass takes a mark back. -/
theorem marked_run {i j : ℤ} {c : Cell} (hStart : info.Inside (i, j)) (hC : info.Inside c)
    {passes passes' : ℕ} (hLater : passes ≤ passes')
    (hMarked : info.Marked ((step info)^[passes] (start ids i j)).ids c) :
    info.Marked ((step info)^[passes'] (start ids i j)).ids c := by
  induction passes', hLater using Nat.le_induction with
  | base => exact hMarked
  | succ passes' hLater ih =>
      rw [Function.iterate_succ_apply']
      exact marked_step (queueInside_run hStart passes') hC ih

/-- The cells of the grid. -/
def cells (info : LocateInfo) : Finset Cell := gridCells info.r.sx info.r.sz

theorem mem_cells {c : Cell} : c ∈ cells info ↔ info.Inside c := mem_gridCells

theorem card_cells : (cells info).card = info.r.sx * info.r.sz := card_gridCells _ _

def unmarked (info : LocateInfo) (ids : ℤ → ℤ) : Finset Cell :=
  (cells info).filter fun c => ¬info.Marked ids c

theorem unmarked_update (hE : info.Inside e.cell) :
    unmarked info (Function.update ids (info.r.index e.i e.j) intMax) =
      (unmarked info ids).erase e.cell := by
  ext c
  simp only [unmarked, Finset.mem_filter, Finset.mem_erase, mem_cells]
  constructor
  · rintro ⟨hC, hFresh⟩
    rw [marked_update hE hC, not_or] at hFresh
    exact ⟨hFresh.1, hC, hFresh.2⟩
  · rintro ⟨hOther, hC, hFresh⟩
    rw [marked_update hE hC, not_or]
    exact ⟨hC, hOther, hFresh⟩

/-- Passes which the loop can still make: one for every entry on the stack, and four for
every cell which can still put entries there. -/
def remaining (info : LocateInfo) (s : Fill) : ℕ :=
  4 * (unmarked info s.ids).card + s.queue.length

theorem remaining_step_lt (hInside : QueueInside info s) (hQueue : s.queue = e :: rest) :
    remaining info (step info s) < remaining info s := by
  have hE := hInside e (by simp [hQueue])
  rcases step_shape info hQueue with ⟨-, hStep⟩ | ⟨hFresh, hIds, dirs, d, hDirs, hStep⟩
  · simp [remaining, hStep, hQueue]
  · have hMem : e.cell ∈ unmarked info s.ids := by
      simp [unmarked, mem_cells, hE, hFresh]
    have hCard := Finset.card_erase_add_one hMem
    have hFour : dirs.length ≤ 4 := (hDirs.trans List.filter_sublist).length_le
    simp only [remaining, hIds, unmarked_update hE, hStep, hQueue, List.length_append,
      List.length_map, List.length_cons]
    omega

/-- A cell is counted at most once, when it is marked. -/
theorem n_add_unmarked_step_le (hInside : QueueInside info s) :
    (step info s).n + (unmarked info (step info s).ids).card ≤
      s.n + (unmarked info s.ids).card := by
  cases hQueue : s.queue with
  | nil => rw [step, hQueue]
  | cons e rest =>
      have hE := hInside e (by simp [hQueue])
      have hCard (hFresh : ¬info.Marked s.ids e.cell) :
          (unmarked info (Function.update s.ids (info.r.index e.i e.j) intMax)).card + 1 =
            (unmarked info s.ids).card := by
        rw [unmarked_update hE]
        exact Finset.card_erase_add_one (by simp [unmarked, mem_cells, hE, hFresh])
      rcases step_cases info hQueue with ⟨-, hStep⟩ | ⟨hFresh, -, hStep⟩ | ⟨hFresh, -, -, hStep⟩ |
        ⟨hFresh, -, -, hStep⟩ <;> rw [hStep]
      all_goals
        have hNow := hCard hFresh
        simp only
        omega

theorem n_run_le {i j : ℤ} (hStart : info.Inside (i, j)) (passes : ℕ) :
    ((step info)^[passes] (start ids i j)).n +
      (unmarked info ((step info)^[passes] (start ids i j)).ids).card ≤ (unmarked info ids).card := by
  induction passes with
  | zero => simp [start]
  | succ passes ih =>
      rw [Function.iterate_succ_apply']
      exact (n_add_unmarked_step_le (queueInside_run hStart passes)).trans ih

theorem step_of_nil (hQueue : s.queue = []) : step info s = s := by
  rw [step, hQueue]

theorem queue_iterate_nil {fuel : ℕ} (hInside : QueueInside info s)
    (hFuel : remaining info s ≤ fuel) : ((step info)^[fuel] s).queue = [] := by
  induction fuel generalizing s with
  | zero =>
      have hLength : s.queue.length = 0 := by
        rw [remaining] at hFuel
        omega
      exact List.eq_nil_of_length_eq_zero hLength
  | succ fuel ih =>
      cases hQueue : s.queue with
      | nil => rw [Function.iterate_fixed (step_of_nil hQueue), hQueue]
      | cons e rest =>
          have hLess := remaining_step_lt hInside hQueue
          exact ih hInside.step (by omega)

/-- The fuel is enough: the loop ends with an empty stack. -/
theorem queue_run_nil {i j : ℤ} (hStart : info.Inside (i, j)) :
    ((step info)^[fillFuel info.r] (start ids i j)).queue = [] := by
  apply queue_iterate_nil (queueInside_run hStart 0)
  have hCells : (unmarked info ids).card ≤ info.r.sx * info.r.sz :=
    (Finset.card_filter_le _ _).trans card_cells.le
  change 4 * (unmarked info ids).card + 1 ≤ 4 * (info.r.sx * info.r.sz) + 1
  omega

/-- With no stop request the loop makes all its passes. -/
theorem loop_never (fuel pass : ℕ) (s : Fill) :
    loop info (fun _ => false) fuel pass s = ((step info)^[fuel] s, false) := by
  induction fuel generalizing pass s with
  | zero => rfl
  | succ fuel ih =>
      rw [loop, Function.iterate_succ_apply]
      by_cases hQueue : s.queue = []
      · rw [if_pos hQueue, step_of_nil hQueue, Function.iterate_fixed (step_of_nil hQueue)]
      · rw [if_neg hQueue, if_neg Bool.false_ne_true, ih]

end Run

end Fill

/-- The state in which the loop ends. -/
def filled (info : LocateInfo) (ids : ℤ → ℤ) (i j : ℤ) : Fill :=
  (Fill.step info)^[fillFuel info.r] (Fill.start ids i j)

theorem floodFillGen_n (info : LocateInfo) (ids : ℤ → ℤ) (i j : ℤ) :
    (floodFillGen info (fun _ => false) ids i j).n = (filled info ids i j).n := by
  simp only [floodFillGen, Fill.loop_never, filled]
  by_cases hN : ((Fill.step info)^[fillFuel info.r] (Fill.start ids i j)).n = 0
  · simp [hN]
  · simp [hN]

/-- The fill counts no more cells than the grid has. -/
theorem floodFillGen_n_le {info : LocateInfo} (ids : ℤ → ℤ) {i j : ℤ} (hStart : info.Inside (i, j)) :
    (floodFillGen info (fun _ => false) ids i j).n ≤ info.r.sx * info.r.sz := by
  have hRun : (filled info ids i j).n + (Fill.unmarked info (filled info ids i j).ids).card ≤
      (Fill.unmarked info ids).card := Fill.n_run_le hStart (fillFuel info.r)
  rw [floodFillGen_n]
  calc (filled info ids i j).n
      ≤ (Fill.unmarked info ids).card := (Nat.le_add_right _ _).trans hRun
    _ ≤ (Fill.cells info).card := Finset.card_filter_le _ _
    _ = info.r.sx * info.r.sz := Fill.card_cells

end Commission
