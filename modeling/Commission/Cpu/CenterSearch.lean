import Commission.Cpu.IslandSize
import Mathlib.Algebra.Order.BigOperators.Group.Finset
import Mathlib.Data.Int.ConditionallyCompleteOrder

/-! What the search for centres counts: the cells of each fill, over all fills of one
call of `getBiomeCentersOpt`. -/
namespace Commission

open GridSearch

namespace Fill

/-- The cells which a fill has marked since it started with `ids`. -/
def newlyMarked (info : LocateInfo) (before after : ℤ → ℤ) : Finset Cell :=
  (cells info).filter fun c => ¬info.Marked before c ∧ info.Marked after c

/-- Those of them which match. -/
def countedCells (info : LocateInfo) (before after : ℤ → ℤ) : Finset Cell :=
  (newlyMarked info before after).filter fun c => info.idAt before c = info.matchId

variable {info : LocateInfo} {ids : ℤ → ℤ} {s : Fill} {e : Entry} {rest : List Entry}

theorem mem_countedCells {after : ℤ → ℤ} {c : Cell} :
    c ∈ countedCells info ids after ↔
      info.Inside c ∧ ¬info.Marked ids c ∧ info.Marked after c ∧
        info.idAt ids c = info.matchId := by
  simp only [countedCells, newlyMarked, Finset.mem_filter, mem_cells, and_assoc]

/-- The sums of a fill are those of the cells it counts, and it has not changed the id of
any other cell. -/
structure Counts (info : LocateInfo) (ids : ℤ → ℤ) (s : Fill) : Prop where
  kept : ∀ c, info.Inside c → info.Marked ids c → info.Marked s.ids c
  same : ∀ c, info.Inside c → ¬info.Marked s.ids c → info.idAt s.ids c = info.idAt ids c
  n : s.n = (countedCells info ids s.ids).card
  sumx : s.sumx = ∑ c ∈ countedCells info ids s.ids, (info.r.x + c.1)
  sumz : s.sumz = ∑ c ∈ countedCells info ids s.ids, (info.r.z + c.2)

theorem countedCells_self : countedCells info ids ids = ∅ := by
  ext c
  rw [mem_countedCells]
  constructor
  · rintro ⟨-, hFresh, hMarked, -⟩
    exact absurd hMarked hFresh
  · intro hNone
    exact absurd hNone (Finset.notMem_empty c)

theorem counts_start (i j : ℤ) : Counts info ids (start ids i j) where
  kept _ _ hMarked := hMarked
  same _ _ _ := rfl
  n := by simp [start, countedCells_self]
  sumx := by simp [start, countedCells_self]
  sumz := by simp [start, countedCells_self]

/-- Marking one more cell counts it when it matches. -/
theorem countedCells_update (hCounts : Counts info ids s) (hE : info.Inside e.cell)
    (hFresh : ¬info.Marked s.ids e.cell) :
    countedCells info ids (Function.update s.ids (info.r.index e.i e.j) intMax) =
      if info.idAt s.ids e.cell = info.matchId then insert e.cell (countedCells info ids s.ids)
      else countedCells info ids s.ids := by
  have hBefore : ¬info.Marked ids e.cell := fun hMarked => hFresh (hCounts.kept _ hE hMarked)
  rw [hCounts.same _ hE hFresh]
  ext c
  split_ifs with hMatch
  · rw [Finset.mem_insert, mem_countedCells, mem_countedCells]
    constructor
    · rintro ⟨hC, hOld, hMarked, hId⟩
      rcases (marked_update hE hC).mp hMarked with hSame | hMarked
      · exact .inl hSame
      · exact .inr ⟨hC, hOld, hMarked, hId⟩
    · rintro (rfl | ⟨hC, hOld, hMarked, hId⟩)
      · exact ⟨hE, hBefore, (marked_update hE hE).mpr (.inl rfl), hMatch⟩
      · exact ⟨hC, hOld, (marked_update hE hC).mpr (.inr hMarked), hId⟩
  · rw [mem_countedCells, mem_countedCells]
    constructor
    · rintro ⟨hC, hOld, hMarked, hId⟩
      rcases (marked_update hE hC).mp hMarked with rfl | hMarked
      · exact absurd hId hMatch
      · exact ⟨hC, hOld, hMarked, hId⟩
    · rintro ⟨hC, hOld, hMarked, hId⟩
      exact ⟨hC, hOld, (marked_update hE hC).mpr (.inr hMarked), hId⟩

theorem Counts.step (hCounts : Counts info ids s) (hInside : QueueInside info s) :
    Counts info ids (s.step info) := by
  cases hQueue : s.queue with
  | nil => rwa [step_of_nil hQueue]
  | cons e rest =>
      have hE := hInside e (by simp [hQueue])
      have hUpdate := countedCells_update (e := e) hCounts hE
      have hKept (c : Cell) (hC : info.Inside c) (hMarked : info.Marked ids c) :
          info.Marked (Function.update s.ids (info.r.index e.i e.j) intMax) c :=
        (marked_update hE hC).mpr (.inr (hCounts.kept c hC hMarked))
      have hSame (c : Cell) (hC : info.Inside c)
          (hFresh : ¬info.Marked (Function.update s.ids (info.r.index e.i e.j) intMax) c) :
          info.idAt (Function.update s.ids (info.r.index e.i e.j) intMax) c = info.idAt ids c := by
        rw [marked_update hE hC, not_or] at hFresh
        rw [idAt_update hE hC hFresh.1, hCounts.same c hC hFresh.2]
      rcases step_cases info hQueue with ⟨-, hStep⟩ | ⟨hFresh, hMatch, hStep⟩ |
        ⟨hFresh, hOther, -, hStep⟩ | ⟨hFresh, hOther, -, hStep⟩ <;> rw [hStep]
      · exact ⟨hCounts.kept, hCounts.same, hCounts.n, hCounts.sumx, hCounts.sumz⟩
      · have hNew : e.cell ∉ countedCells info ids s.ids := fun hMem =>
          hFresh (mem_countedCells.mp hMem).2.2.1
        have hSet := (hUpdate hFresh).trans (if_pos hMatch)
        refine ⟨hKept, hSame, ?_, ?_, ?_⟩
        · rw [hSet, Finset.card_insert_of_notMem hNew, hCounts.n]
        · rw [hSet, Finset.sum_insert hNew, ← hCounts.sumx]
          exact add_comm _ _
        · rw [hSet, Finset.sum_insert hNew, ← hCounts.sumz]
          exact add_comm _ _
      all_goals
        have hSet := (hUpdate hFresh).trans (if_neg hOther)
        refine ⟨hKept, hSame, ?_, ?_, ?_⟩
        · rw [hSet, hCounts.n]
        · rw [hSet, hCounts.sumx]
        · rw [hSet, hCounts.sumz]

theorem counts_run {i j : ℤ} (hStart : info.Inside (i, j)) (passes : ℕ) :
    Counts info ids ((step info)^[passes] (start ids i j)) := by
  induction passes with
  | zero => exact counts_start i j
  | succ passes ih =>
      rw [Function.iterate_succ_apply']
      exact ih.step (queueInside_run hStart passes)

/-- Further fuel changes nothing. -/
theorem loop_of_fuel_le {i j : ℤ} (hStart : info.Inside (i, j)) {fuel : ℕ}
    (hFuel : fillFuel info.r ≤ fuel) :
    loop info (fun _ => false) fuel 0 (start ids i j) = (filled info ids i j, false) := by
  obtain ⟨more, rfl⟩ := Nat.exists_eq_add_of_le' hFuel
  rw [loop_never, Function.iterate_add_apply,
    Function.iterate_fixed (step_of_nil (queue_run_nil hStart)), filled]

end Fill

theorem floodFillGen_ids (info : LocateInfo) (ids : ℤ → ℤ) (i j : ℤ) :
    (floodFillGen info (fun _ => false) ids i j).ids = (filled info ids i j).ids := by
  simp only [floodFillGen, Fill.loop_never, filled]
  split_ifs <;> rfl

theorem counts_filled {info : LocateInfo} {ids : ℤ → ℤ} {i j : ℤ} (hStart : info.Inside (i, j)) :
    Fill.Counts info ids (filled info ids i j) :=
  Fill.counts_run hStart (fillFuel info.r)

theorem floodFillGen_center {info : LocateInfo} {ids : ℤ → ℤ} {i j : ℤ}
    (hN : (filled info ids i j).n ≠ 0) :
    (floodFillGen info (fun _ => false) ids i j).center = some
      ⟨roundAway (((filled info ids i j).sumx / ((filled info ids i j).n : ℚ) + 1 / 2) * info.r.scale),
        roundAway
          (((filled info ids i j).sumz / ((filled info ids i j).n : ℚ) + 1 / 2) * info.r.scale)⟩ := by
  have hLoop : Fill.loop info (fun _ => false) (fillFuel info.r) 0 (Fill.start ids i j) =
      (filled info ids i j, false) := Fill.loop_never _ _ _
  rw [floodFillGen, hLoop]
  simp only [Bool.false_eq_true, if_false]
  rw [if_neg hN]

section Centre

theorem intCast_le_roundAway {a : ℤ} {q : ℚ} (h : (a : ℚ) ≤ q) : a ≤ roundAway q := by
  rw [roundAway]
  split_ifs with hSign
  · rw [Int.le_floor]
    linarith
  · have hCeil : q - 1 / 2 ≤ ⌈q - 1 / 2⌉ := Int.le_ceil _
    have hLess : (a : ℚ) < ⌈q - 1 / 2⌉ + 1 := by linarith
    have hInt : a < ⌈q - 1 / 2⌉ + 1 := by exact_mod_cast hLess
    omega

theorem roundAway_le_intCast {a : ℤ} {q : ℚ} (h : q ≤ a) : roundAway q ≤ a := by
  rw [roundAway]
  split_ifs with hSign
  · have hFloor : (⌊q + 1 / 2⌋ : ℚ) ≤ q + 1 / 2 := Int.floor_le _
    have hLess : (⌊q + 1 / 2⌋ : ℚ) < a + 1 := by linarith
    have hInt : ⌊q + 1 / 2⌋ < a + 1 := by exact_mod_cast hLess
    omega
  · rw [Int.ceil_le]
    linarith

/-- The mean of a coordinate over counted cells, moved to the middle of the cell and
scaled, lies between the sides of the grid. -/
theorem roundAway_mean_mem {cells : Finset Cell} (hSome : cells.Nonempty) {coord : Cell → ℤ}
    {first : ℤ} {width : ℕ} (hCoord : ∀ c ∈ cells, first ≤ coord c ∧ coord c < first + width)
    (scale : ℤ) :
    roundAway (((∑ c ∈ cells, coord c : ℤ) / (cells.card : ℚ) + 1 / 2) * scale) ∈
      Set.uIcc (first * scale) ((first + width) * scale) := by
  have hCard : (0 : ℚ) < cells.card := by exact_mod_cast hSome.card_pos
  have hLower : (cells.card : ℚ) * first ≤ (∑ c ∈ cells, coord c : ℤ) := by
    have hSum := Finset.card_nsmul_le_sum cells coord first fun c hC => (hCoord c hC).1
    exact_mod_cast (nsmul_eq_mul _ _).symm.trans_le hSum
  have hUpper : ((∑ c ∈ cells, coord c : ℤ) : ℚ) ≤ cells.card * (first + width - 1 : ℤ) := by
    have hSum := Finset.sum_le_card_nsmul cells coord (first + width - 1) fun c hC => by
      have hLess := (hCoord c hC).2
      omega
    exact_mod_cast hSum.trans_eq (nsmul_eq_mul _ _)
  generalize ∑ c ∈ cells, coord c = total at hLower hUpper ⊢
  generalize hMean : total / (cells.card : ℚ) + 1 / 2 = mean
  have hFirst : (first : ℚ) ≤ mean := by
    have hDiv : (first : ℚ) ≤ total / (cells.card : ℚ) := by
      rw [le_div_iff₀ hCard]
      linarith
    linarith
  have hLast : mean ≤ first + width := by
    have hDiv : total / (cells.card : ℚ) ≤ (first + width - 1 : ℤ) := by
      rw [div_le_iff₀ hCard]
      linarith
    push_cast at hDiv
    linarith
  rcases le_total 0 scale with hSign | hSign
  · have hScale : (0 : ℚ) ≤ scale := by exact_mod_cast hSign
    rw [Set.uIcc_of_le (mul_le_mul_of_nonneg_right (by omega) hSign)]
    constructor
    · apply intCast_le_roundAway
      push_cast
      exact mul_le_mul_of_nonneg_right hFirst hScale
    · apply roundAway_le_intCast
      push_cast
      exact mul_le_mul_of_nonneg_right hLast hScale
  · have hScale : (scale : ℚ) ≤ 0 := by exact_mod_cast hSign
    rw [Set.uIcc_of_ge (mul_le_mul_of_nonpos_right (by omega) hSign)]
    constructor
    · apply intCast_le_roundAway
      push_cast
      exact mul_le_mul_of_nonpos_right hLast hScale
    · apply roundAway_le_intCast
      push_cast
      exact mul_le_mul_of_nonpos_right hFirst hScale

end Centre

/-- A call of `floodFillGen`: the ids which it starts from, and the cell. -/
structure FillCall where
  ids : ℤ → ℤ
  cell : Cell

namespace FillCall

variable (info : LocateInfo) (call : FillCall)

def result : Filled := floodFillGen info (fun _ => false) call.ids call.cell.1 call.cell.2

/-- The cells which the call sets to `INT_MAX`. -/
def newlyMarked : Finset Cell := Fill.newlyMarked info call.ids (call.result info).ids

/-- What is written to `pos` and `siz` for the call. -/
def center : Center := ⟨(call.result info).center.getD ⟨0, 0⟩, (call.result info).n⟩

variable {info call}

theorem result_n (hCell : info.Inside call.cell) :
    (call.result info).n =
      ((call.newlyMarked info).filter fun c => info.idAt call.ids c = info.matchId).card := by
  rw [newlyMarked, result, floodFillGen_ids, floodFillGen_n]
  exact (counts_filled hCell).n

/-- A centre lies between the sides of the grid. -/
theorem center_mem (hCell : info.Inside call.cell) (hSome : (call.result info).n ≠ 0) :
    (call.center info).pos.x ∈
      Set.uIcc (info.r.x * info.r.scale) ((info.r.x + info.r.sx) * info.r.scale) ∧
    (call.center info).pos.z ∈
      Set.uIcc (info.r.z * info.r.scale) ((info.r.z + info.r.sz) * info.r.scale) := by
  have hCounts : Fill.Counts info call.ids (filled info call.ids call.cell.1 call.cell.2) :=
    counts_filled hCell
  have hN : (filled info call.ids call.cell.1 call.cell.2).n ≠ 0 := by
    rwa [result, floodFillGen_n] at hSome
  have hCells : (Fill.countedCells info call.ids
      (filled info call.ids call.cell.1 call.cell.2).ids).Nonempty := by
    rw [← Finset.card_pos, ← hCounts.n]
    exact Nat.pos_of_ne_zero hN
  rw [center, result, floodFillGen_center hN, Option.getD_some, hCounts.sumx, hCounts.sumz,
    hCounts.n]
  constructor
  · apply roundAway_mean_mem hCells
    intro c hC
    obtain ⟨hI, hI', -, -⟩ := (Fill.mem_countedCells.mp hC).1
    exact ⟨by omega, by omega⟩
  · apply roundAway_mean_mem hCells
    intro c hC
    obtain ⟨-, -, hJ, hJ'⟩ := (Fill.mem_countedCells.mp hC).1
    exact ⟨by omega, by omega⟩

end FillCall

/-- Calls of which each starts from the ids that the one before left. -/
inductive CallChain (info : LocateInfo) : (ℤ → ℤ) → List FillCall → Prop where
  | nil (ids : ℤ → ℤ) : CallChain info ids []
  | cons {ids : ℤ → ℤ} {cell : Cell} {calls : List FillCall} (hCell : info.Inside cell)
      (hRest : CallChain info (FillCall.result info ⟨ids, cell⟩).ids calls) :
      CallChain info ids (⟨ids, cell⟩ :: calls)

namespace CallChain

variable {info : LocateInfo} {ids : ℤ → ℤ} {calls : List FillCall}

theorem inside (hChain : CallChain info ids calls) : ∀ call ∈ calls, info.Inside call.cell := by
  induction hChain with
  | nil => simp
  | cons hCell hRest ih => simpa using ⟨hCell, ih⟩

/-- No later call finds a cell unmarked again. -/
theorem marked (hChain : CallChain info ids calls) {c : Cell} (hC : info.Inside c)
    (hMarked : info.Marked ids c) : ∀ call ∈ calls, info.Marked call.ids c := by
  induction hChain with
  | nil => simp
  | @cons ids cell calls hCell hRest ih =>
      have hLater : info.Marked (FillCall.result info ⟨ids, cell⟩).ids c := by
        rw [FillCall.result, floodFillGen_ids]
        exact (counts_filled hCell).kept c hC hMarked
      simpa using ⟨hMarked, ih hLater⟩

/-- No cell is newly marked by two calls. -/
theorem pairwise_disjoint (hChain : CallChain info ids calls) :
    calls.Pairwise fun call later => Disjoint (call.newlyMarked info) (later.newlyMarked info) := by
  induction hChain with
  | nil => exact List.Pairwise.nil
  | @cons ids cell calls hCell hRest ih =>
      refine List.pairwise_cons.mpr ⟨?_, ih⟩
      intro later hLater
      rw [Finset.disjoint_left]
      intro c hC hAgain
      simp only [FillCall.newlyMarked, Fill.newlyMarked, Finset.mem_filter, Fill.mem_cells] at hC hAgain
      exact hAgain.2.1 (hRest.marked hC.1 hC.2.2 later hLater)

/-- Every counted cell was unmarked before the first call. -/
theorem sum_n_le (hChain : CallChain info ids calls) :
    (calls.map fun call => (call.result info).n).sum ≤ (Fill.unmarked info ids).card := by
  induction hChain with
  | nil => simp
  | @cons ids cell calls hCell hRest ih =>
      have hFirst : (filled info ids cell.1 cell.2).n +
          (Fill.unmarked info (filled info ids cell.1 cell.2).ids).card ≤
            (Fill.unmarked info ids).card := Fill.n_run_le hCell (fillFuel info.r)
      rw [FillCall.result, floodFillGen_ids] at ih
      rw [List.map_cons, List.sum_cons]
      simp only [FillCall.result, floodFillGen_n] at ih ⊢
      omega

end CallChain

/-- The calls of `floodFillGen` which the loops of `fillCenters` make, in order; `found` is
the number of centres reported so far. -/
def fillCalls (info : LocateInfo) (candidate minsiz : ℤ) (nmax : ℕ) :
    List (ℤ × ℤ) → (ℤ → ℤ) → ℕ → List FillCall
  | [], _, _ => []
  | c :: rest, ids, found =>
      if ids (info.r.index c.1 c.2) ≠ candidate then
        fillCalls info candidate minsiz nmax rest ids found
      else
        let fill := floodFillGen info (fun _ => false) ids c.1 c.2
        ⟨ids, c⟩ ::
          if minsiz ≤ fill.n then
            if nmax ≤ found + 1 then []
            else fillCalls info candidate minsiz nmax rest fill.ids (found + 1)
          else fillCalls info candidate minsiz nmax rest fill.ids found

section Loops

variable {info : LocateInfo} {candidate minsiz : ℤ} {nmax : ℕ}

theorem fillCalls_chain {starts : List (ℤ × ℤ)} (hStarts : ∀ c ∈ starts, info.Inside c)
    (ids : ℤ → ℤ) (found : ℕ) :
    CallChain info ids (fillCalls info candidate minsiz nmax starts ids found) := by
  induction starts generalizing ids found with
  | nil => exact .nil ids
  | cons c rest ih =>
      have hRest : ∀ c ∈ rest, info.Inside c := fun c' hC' => hStarts c' (List.mem_cons_of_mem c hC')
      rw [fillCalls]
      split
      · exact ih hRest ids found
      · apply CallChain.cons (hStarts c List.mem_cons_self)
        split
        · split
          · exact .nil _
          · exact ih hRest _ _
        · exact ih hRest _ _

/-- The centres are those of the calls which found enough cells. -/
theorem fillCenters_eq (starts : List (ℤ × ℤ)) (ids : ℤ → ℤ) (found : List Center) :
    fillCenters info candidate minsiz nmax starts ids found =
      found ++ ((fillCalls info candidate minsiz nmax starts ids found.length).filter fun call =>
        minsiz ≤ (call.result info).n).map (FillCall.center info) := by
  induction starts generalizing ids found with
  | nil => simp [fillCenters, fillCalls]
  | cons c rest ih =>
      rw [fillCenters, fillCalls]
      split
      · exact ih ids found
      · simp only
        split
        next hSize =>
          have hKeep : minsiz ≤ (FillCall.result info ⟨ids, c⟩).n := hSize
          rw [List.filter_cons_of_pos (by simpa using hKeep), List.map_cons, List.length_append,
            List.length_singleton]
          split
          · rfl
          · rw [ih, List.length_append, List.length_singleton, List.append_assoc]
            rfl
        next hSize =>
          have hDrop : ¬minsiz ≤ (FillCall.result info ⟨ids, c⟩).n := hSize
          rw [List.filter_cons_of_neg (by simpa using hDrop)]
          exact ih _ found

theorem length_fillCenters_le (starts : List (ℤ × ℤ)) (ids : ℤ → ℤ) {found : List Center}
    (hFound : found.length < nmax) :
    (fillCenters info candidate minsiz nmax starts ids found).length ≤ nmax := by
  induction starts generalizing ids found with
  | nil => exact hFound.le
  | cons c rest ih =>
      rw [fillCenters]
      split
      · exact ih ids hFound
      · simp only
        split
        · rw [List.length_append, List.length_singleton]
          split
          · rw [List.length_append, List.length_singleton]
            exact hFound
          next hMore =>
            exact ih _ (by rw [List.length_append, List.length_singleton]; omega)
        · exact ih _ hFound

end Loops

/-- `info` of `getBiomeCentersOpt`. -/
def searchInfo (g : Generator) (r : Range) (matchId tol : ℤ) : LocateInfo :=
  ⟨g.toBiomeSource, r, matchId, (if tol ≤ 0 then 1 else tol).toNat⟩

/-- The calls of `floodFillGen` which `getBiomeCentersOpt` makes. -/
def searchCalls (nmax : ℕ) (g : Generator) (r : Range) (matchId minsiz tol step : ℤ) :
    List FillCall :=
  let minsiz := if minsiz ≤ 0 then 1 else minsiz
  let step := if step ≤ 0 then 1 else step
  let step := if g.since118 ∧ step = 1 then 1 + Nat.sqrt minsiz.toNat / 2 else step.toNat
  let candidate := if g.since118 then -1 else matchId
  fillCalls (searchInfo g r matchId tol) candidate minsiz nmax (positions r step)
    (g.initialIds r matchId step) 0

section CenterSearch

variable (nmax : ℕ) (g : Generator) (r : Range) (matchId minsiz tol step : ℤ)

theorem searchCalls_chain :
    ∃ ids, CallChain (searchInfo g r matchId tol) ids
      (searchCalls nmax g r matchId minsiz tol step) :=
  ⟨_, fillCalls_chain (fun _ hC => mem_positions hC) _ _⟩

theorem getBiomeCentersOpt_eq :
    getBiomeCentersOpt nmax g r matchId minsiz tol step =
      ((searchCalls nmax g r matchId minsiz tol step).filter fun call =>
        max minsiz 1 ≤ (call.result (searchInfo g r matchId tol)).n).map
          (FillCall.center (searchInfo g r matchId tol)) := by
  have hMax : max minsiz 1 = if minsiz ≤ 0 then 1 else minsiz := by
    split <;> omega
  rw [hMax]
  exact (fillCenters_eq _ _ []).trans (List.nil_append _)

/-- What a fill returns is the number of matching cells among those it marks. -/
theorem result_n_eq_card_biome (hVersion : g.since118 = true) {call : FillCall}
    (hCell : (searchInfo g r matchId tol).Inside call.cell) :
    (call.result (searchInfo g r matchId tol)).n =
      ((call.newlyMarked (searchInfo g r matchId tol)).filter fun c =>
        g.getBiomeAt r.scale (r.x + c.1) r.y (r.z + c.2) = matchId).card := by
  have hBiome (c : Cell) : (searchInfo g r matchId tol).idAt call.ids c =
      g.getBiomeAt r.scale (r.x + c.1) r.y (r.z + c.2) := if_pos hVersion
  rw [FillCall.result_n hCell]
  apply congrArg Finset.card
  apply Finset.filter_congr
  intro c _
  rw [hBiome c]
  rfl

theorem sum_siz_le :
    ((getBiomeCentersOpt nmax g r matchId minsiz tol step).map Center.siz).sum ≤ r.sx * r.sz := by
  let info := searchInfo g r matchId tol
  let calls := searchCalls nmax g r matchId minsiz tol step
  obtain ⟨ids, hChain⟩ := searchCalls_chain nmax g r matchId minsiz tol step
  calc ((getBiomeCentersOpt nmax g r matchId minsiz tol step).map Center.siz).sum
      = ((calls.filter fun call => max minsiz 1 ≤ (call.result info).n).map
          fun call => (call.result info).n).sum := by
        rw [getBiomeCentersOpt_eq, List.map_map]
        rfl
    _ ≤ (calls.map fun call => (call.result info).n).sum :=
        (List.filter_sublist.map _).sum_le_sum fun _ _ => Nat.zero_le _
    _ ≤ (Fill.unmarked info ids).card := hChain.sum_n_le
    _ ≤ (Fill.cells info).card := Finset.card_filter_le _ _
    _ = r.sx * r.sz := Fill.card_cells

theorem center_mem_range {center : Center}
    (hCenter : center ∈ getBiomeCentersOpt nmax g r matchId minsiz tol step) :
    max minsiz 1 ≤ center.siz ∧
      center.pos.x ∈ Set.uIcc (r.x * r.scale) ((r.x + r.sx) * r.scale) ∧
      center.pos.z ∈ Set.uIcc (r.z * r.scale) ((r.z + r.sz) * r.scale) := by
  obtain ⟨ids, hChain⟩ := searchCalls_chain nmax g r matchId minsiz tol step
  rw [getBiomeCentersOpt_eq] at hCenter
  obtain ⟨call, hCall, rfl⟩ := List.mem_map.mp hCenter
  obtain ⟨hMem, hSize⟩ := List.mem_filter.mp hCall
  have hEnough : max minsiz 1 ≤ (call.result (searchInfo g r matchId tol)).n :=
    of_decide_eq_true hSize
  have hSome : (call.result (searchInfo g r matchId tol)).n ≠ 0 := by omega
  have hBox := FillCall.center_mem (hChain.inside call hMem) hSome
  exact ⟨hEnough, hBox⟩

/-- The search of a range, its fills and what it reports: every cell counts once. -/
structure CountsOnce (info : LocateInfo) (calls : List FillCall) (centers : List Center) :
    Prop where
  /-- The loop of a fill ends by itself, with an empty stack. -/
  ends : ∀ call ∈ calls, (filled info call.ids call.cell.1 call.cell.2).queue = [] ∧
    ∀ fuel, fillFuel r ≤ fuel → Fill.loop info (fun _ => false) fuel 0
      (Fill.start call.ids call.cell.1 call.cell.2) =
        (filled info call.ids call.cell.1 call.cell.2, false)
  counts : ∀ call ∈ calls, (call.result info).n = ((call.newlyMarked info).filter fun c =>
    g.getBiomeAt r.scale (r.x + c.1) r.y (r.z + c.2) = matchId).card
  disjoint : calls.Pairwise fun call later =>
    Disjoint (call.newlyMarked info) (later.newlyMarked info)
  reported : centers = (calls.filter fun call => max minsiz 1 ≤ (call.result info).n).map
    (FillCall.center info)
  total : (centers.map Center.siz).sum ≤ r.sx * r.sz
  few : centers.length ≤ nmax
  inside : ∀ center ∈ centers, max minsiz 1 ≤ center.siz ∧
    center.pos.x ∈ Set.uIcc (r.x * r.scale) ((r.x + r.sx) * r.scale) ∧
    center.pos.z ∈ Set.uIcc (r.z * r.scale) ((r.z + r.sz) * r.scale)
  box : 0 ≤ r.scale → ∀ center ∈ centers,
    center.pos.x ∈ Set.Icc (r.x * r.scale) ((r.x + r.sx) * r.scale) ∧
    center.pos.z ∈ Set.Icc (r.z * r.scale) ((r.z + r.sz) * r.scale)

/-- The centre search of the versions since 1.18 ends; every fill returns the number of
matching cells among those it marks, no cell is marked by two fills, and what is reported
are at most `nmax` centres inside the range whose sizes together do not exceed it. -/
theorem centerSearch_counts_once (hVersion : g.since118 = true) (hNmax : 1 ≤ nmax) :
    CountsOnce nmax g r matchId minsiz (searchInfo g r matchId tol)
      (searchCalls nmax g r matchId minsiz tol step)
      (getBiomeCentersOpt nmax g r matchId minsiz tol step) := by
  obtain ⟨ids, hChain⟩ := searchCalls_chain nmax g r matchId minsiz tol step
  constructor
  · intro call hCall
    have hCell := hChain.inside call hCall
    exact ⟨Fill.queue_run_nil hCell, fun fuel hFuel => Fill.loop_of_fuel_le hCell hFuel⟩
  · intro call hCall
    exact result_n_eq_card_biome g r matchId tol hVersion (hChain.inside call hCall)
  · exact hChain.pairwise_disjoint
  · exact getBiomeCentersOpt_eq nmax g r matchId minsiz tol step
  · exact sum_siz_le nmax g r matchId minsiz tol step
  · exact length_fillCenters_le _ _ hNmax
  · intro center hCenter
    exact center_mem_range nmax g r matchId minsiz tol step hCenter
  · intro hScale center hCenter
    have hSides (first : ℤ) (width : ℕ) : first * r.scale ≤ (first + width) * r.scale :=
      mul_le_mul_of_nonneg_right (by omega) hScale
    rw [← Set.uIcc_of_le (hSides r.x r.sx), ← Set.uIcc_of_le (hSides r.z r.sz)]
    exact (center_mem_range nmax g r matchId minsiz tol step hCenter).2

end CenterSearch

/-- A generator with no limits on its climate and a strip of another biome at `x = 2`. -/
def stripGenerator : Generator where
  since118 := true
  getBiomeAt _ x _ _ := if x = 2 then 0 else 14
  climate _ _ _ := 0
  biomeParaLimits _ _ := (intMin, intMax)
  tileIds _ _ _ := 0

/-- A range of five by three cells, in which two fills find an island each. -/
theorem centerSearch_counts_once_strip :
    (getBiomeCentersOpt 3 stripGenerator ⟨4, 0, 0, 5, 3, 64⟩ 14 1 1 0).map Center.siz = [6, 6] ∧
    (searchCalls 3 stripGenerator ⟨4, 0, 0, 5, 3, 64⟩ 14 1 1 0).Pairwise (fun call later =>
      Disjoint (call.newlyMarked (searchInfo stripGenerator ⟨4, 0, 0, 5, 3, 64⟩ 14 1))
        (later.newlyMarked (searchInfo stripGenerator ⟨4, 0, 0, 5, 3, 64⟩ 14 1))) ∧
    ∀ center ∈ getBiomeCentersOpt 3 stripGenerator ⟨4, 0, 0, 5, 3, 64⟩ 14 1 1 0,
      center.pos.x ∈ Set.Icc 0 20 ∧ center.pos.z ∈ Set.Icc 0 12 := by
  have hSearch := centerSearch_counts_once 3 stripGenerator ⟨4, 0, 0, 5, 3, 64⟩ 14 1 1 0 rfl
    (by decide)
  have hSizes : (getBiomeCentersOpt 3 stripGenerator ⟨4, 0, 0, 5, 3, 64⟩ 14 1 1 0).map Center.siz =
      [6, 6] := by
    decide +kernel
  exact ⟨hSizes, hSearch.disjoint, hSearch.box (by decide)⟩

end Commission
