import Commission.Cpu.FillStack
import Commission.Library.BoundedRuns
import Commission.Library.DepthFirstOrder
import Mathlib.Data.Set.Card

/-! The border tolerance of the flood fill: the cells which it is meant to count, and those
which it counts. -/
namespace Commission

open GridSearch BoundedRuns DepthFirst

/-- Directions are ordered as the neighbours of a cell leave the stack. -/
instance : LinearOrder Dir :=
  LinearOrder.lift' (fun dir => takeOrder.idxOf dir) (by intro a b; cases a <;> cases b <;> decide)

instance : Finite Dir :=
  Finite.of_injective (fun dir : Dir => (⟨takeOrder.idxOf dir, by cases dir <;> decide⟩ : Fin 4))
    (by intro a b; cases a <;> cases b <;> decide)

def Adj (c c' : Cell) : Prop := ∃ dir, c' = move c dir

/-- A cell which does not match. -/
def LocateInfo.Gap (info : LocateInfo) (ids : ℤ → ℤ) (c : Cell) : Prop :=
  info.idAt ids c ≠ info.matchId

instance (info : LocateInfo) (ids : ℤ → ℤ) : DecidablePred (info.Gap ids) :=
  fun _ => inferInstanceAs (Decidable (_ ≠ _))

/-- The matching cells at the end of a path in the grid on which no `tol` consecutive cells
are gaps. -/
def LocateInfo.island (info : LocateInfo) (ids : ℤ → ℤ) (first : Cell) : Set Cell :=
  {c | info.idAt ids c = info.matchId ∧
    ∃ path, Walk Adj info.Inside (info.Gap ids) info.tol first path ∧ path.getLast? = some c}

/-- The cells from which a fill does not go on: those to which the first path, in the order of
directions, ends with `tol` gaps in a row. The paths are those in the grid without a repetition,
and they go on from no such cell either. -/
def LocateInfo.Refused (info : LocateInfo) (ids : ℤ → ℤ) (first : Cell) (refused : Set Cell) : Prop :=
  Settled move info.Inside first (fun walk => info.tol ≤ trailing (info.Gap ids) walk) refused

/-- With no stop request, the fill returns the number of these cells. -/
def MeetsTolerance (info : LocateInfo) (ids : ℤ → ℤ) (i j : ℤ) : Prop :=
  (floodFillGen info (fun _ => false) ids i j).n = (info.island ids (i, j)).ncard

namespace Fill

/-- The next pass marks this cell, but goes no further from it. -/
def Refuses (info : LocateInfo) (s : Fill) (c : Cell) : Prop :=
  ∃ e rest, s.queue = e :: rest ∧ e.cell = c ∧ ¬info.Marked s.ids c ∧
    info.idAt s.ids c ≠ info.matchId ∧ info.tol ≤ e.d + 1

/-- Some pass of the fill does so. -/
def Refused (info : LocateInfo) (ids : ℤ → ℤ) (i j : ℤ) (c : Cell) : Prop :=
  ∃ passes, Refuses info ((step info)^[passes] (start ids i j)) c

/-- The cells on which the fill goes on. -/
def Allowed (info : LocateInfo) (ids : ℤ → ℤ) (i j : ℤ) (c : Cell) : Prop :=
  info.Inside c ∧ ¬Refused info ids i j c

variable {info : LocateInfo} {ids : ℤ → ℤ} {i j : ℤ} {s : Fill} {e : Entry} {rest : List Entry}

/-- What a pass does with an unmarked cell. -/
theorem step_unmarked (hTol : 1 ≤ info.tol) (hQueue : s.queue = e :: rest)
    (hFresh : ¬info.Marked s.ids e.cell) :
    (step info s).ids = Function.update s.ids (info.r.index e.i e.j) intMax ∧
      (step info s).n = s.n + (if info.idAt s.ids e.cell = info.matchId then 1 else 0) ∧
      (step info s).queue =
        (if after (info.Gap s.ids) e.d e.cell < info.tol then
          pushed info (step info s).ids e.cell (after (info.Gap s.ids) e.d e.cell) else []) ++ rest := by
  rcases step_cases info hQueue with ⟨hMarked, -⟩ | ⟨-, hMatch, hStep⟩ | ⟨-, hGap, hRun, hStep⟩ |
    ⟨-, hGap, hRun, hStep⟩
  · exact absurd hMarked hFresh
  · have hAfter : after (info.Gap s.ids) e.d e.cell = 0 := if_neg (not_not_intro hMatch)
    rw [hStep, hAfter]
    exact ⟨rfl, by rw [if_pos hMatch], by rw [if_pos (Nat.lt_of_succ_le hTol)]⟩
  · have hAfter : after (info.Gap s.ids) e.d e.cell = e.d + 1 := if_pos hGap
    rw [hStep, hAfter]
    exact ⟨rfl, by rw [if_neg hGap]; rfl, by rw [if_neg (by omega)]; rfl⟩
  · have hAfter : after (info.Gap s.ids) e.d e.cell = e.d + 1 := if_pos hGap
    rw [hStep, hAfter]
    exact ⟨rfl, by rw [if_neg hGap]; rfl, by rw [if_pos hRun]⟩

theorem refuses_iff (hTol : 1 ≤ info.tol) (hQueue : s.queue = e :: rest)
    (hFresh : ¬info.Marked s.ids e.cell) :
    Refuses info s e.cell ↔ ¬after (info.Gap s.ids) e.d e.cell < info.tol := by
  constructor
  · rintro ⟨e', rest', hQueue', -, -, hGap, hRun⟩
    cases hQueue.symm.trans hQueue'
    have hAfter : after (info.Gap s.ids) e.d e.cell = e.d + 1 := if_pos hGap
    omega
  · intro hRun
    by_cases hGap : info.Gap s.ids e.cell
    · rw [after, if_pos hGap] at hRun
      exact ⟨e, rest, hQueue, rfl, hFresh, hGap, by omega⟩
    · rw [after, if_neg hGap] at hRun
      omega

/-- What the fill has done up to a state, when it started at `(i, j)` with these ids. -/
structure Explored (info : LocateInfo) (ids : ℤ → ℤ) (i j : ℤ) (s : Fill) : Prop where
  inside : QueueInside info s
  kept : ∀ c, info.Inside c → ¬info.Marked s.ids c → info.idAt s.ids c = info.idAt ids c
  /-- A cell on the stack is the first one or lies beside a cell which has been reached. -/
  offered : ∀ e ∈ s.queue, (e.cell = (i, j) ∧ e.d = 0) ∨
    ∃ c, Adj c e.cell ∧ Reach Adj (Allowed info ids i j) (info.Gap ids) info.tol (i, j) c e.d
  reached : ∀ c, info.Inside c → info.Marked s.ids c → Refused info ids i j c ∨
    ∃ d, Reach Adj (Allowed info ids i j) (info.Gap ids) info.tol (i, j) c d
  /-- The neighbours of a reached cell are marked or will be. -/
  pending : ∀ c, info.Inside c → info.Marked s.ids c → Refused info ids i j c ∨
    ∀ dir, info.Inside (move c dir) →
      info.Marked s.ids (move c dir) ∨ ∃ e ∈ s.queue, e.cell = move c dir
  first : info.Marked s.ids (i, j) ∨ ∃ e ∈ s.queue, e.cell = (i, j)
  count : s.n = ((cells info).filter fun c =>
    info.Marked s.ids c ∧ info.idAt ids c = info.matchId).card

theorem Explored.start (hStart : info.Inside (i, j))
    (hUnmarked : ∀ c, info.Inside c → ¬info.Marked ids c) :
    Explored info ids i j (start ids i j) where
  inside := queueInside_run hStart 0
  kept c hC _ := rfl
  offered e hE := by
    cases List.mem_singleton.mp hE
    exact .inl ⟨rfl, rfl⟩
  reached c hC hMarked := absurd hMarked (hUnmarked c hC)
  pending c hC hMarked := absurd hMarked (hUnmarked c hC)
  first := .inr ⟨⟨i, j, 0⟩, List.mem_singleton_self _, rfl⟩
  count := (Finset.card_eq_zero.mpr (Finset.filter_eq_empty_iff.mpr
    fun c hC hMarked => hUnmarked c (mem_cells.mp hC) hMarked.1)).symm

/-- A marked cell is dropped. -/
theorem Explored.drop (hExplored : Explored info ids i j s) (hQueue : s.queue = e :: rest)
    (hMarked : info.Marked s.ids e.cell) : Explored info ids i j { s with queue := rest } := by
  have hWaits {c : Cell} (hC : info.Marked s.ids c ∨ ∃ e' ∈ s.queue, e'.cell = c) :
      info.Marked s.ids c ∨ ∃ e' ∈ rest, e'.cell = c := by
    rcases hC with hC | ⟨e', hE', rfl⟩
    · exact .inl hC
    · rw [hQueue] at hE'
      rcases List.mem_cons.mp hE' with rfl | hRest
      · exact .inl hMarked
      · exact .inr ⟨e', hRest, rfl⟩
  have hSubset {e' : Entry} (hE' : e' ∈ rest) : e' ∈ s.queue := hQueue ▸ List.mem_cons_of_mem e hE'
  exact {
    inside := fun e' hE' => hExplored.inside e' (hSubset hE')
    kept := hExplored.kept
    offered := fun e' hE' => hExplored.offered e' (hSubset hE')
    reached := hExplored.reached
    pending := fun c hC hC' => (hExplored.pending c hC hC').imp_right
      fun hNext dir hDir => hWaits (hNext dir hDir)
    first := hWaits hExplored.first
    count := hExplored.count }

section Visit

variable (hTol : 1 ≤ info.tol) (hExplored : Explored info ids i j s) (hQueue : s.queue = e :: rest)
  (hFresh : ¬info.Marked s.ids e.cell)

include hExplored hQueue hFresh

theorem Explored.gap_iff : info.Gap s.ids e.cell ↔ info.Gap ids e.cell := by
  have hKept := hExplored.kept e.cell (hExplored.inside e (by simp [hQueue])) hFresh
  rw [LocateInfo.Gap, hKept, LocateInfo.Gap]

/-- A cell from which the fill goes on is reached. -/
theorem Explored.reach (hAllowed : ¬Refused info ids i j e.cell)
    (hRun : after (info.Gap s.ids) e.d e.cell < info.tol) :
    Reach Adj (Allowed info ids i j) (info.Gap ids) info.tol (i, j) e.cell
      (after (info.Gap s.ids) e.d e.cell) := by
  have hE : e ∈ s.queue := by simp [hQueue]
  have hAfter : after (info.Gap s.ids) e.d e.cell = after (info.Gap ids) e.d e.cell := by
    simp only [after, hExplored.gap_iff hQueue hFresh]
  rw [hAfter] at hRun ⊢
  rcases hExplored.offered e hE with ⟨hFirst, hZero⟩ | ⟨c, hAdj, hReach⟩
  · rw [hFirst, hZero] at hRun ⊢
    exact .start ⟨hFirst ▸ hExplored.inside e hE, hFirst ▸ hAllowed⟩ hRun
  · exact .step hReach hAdj ⟨hExplored.inside e hE, hAllowed⟩ hRun

include hTol

/-- Marking a cell adds it to the count if it matches. -/
theorem Explored.count_visit :
    (step info s).n = ((cells info).filter fun c =>
      info.Marked (step info s).ids c ∧ info.idAt ids c = info.matchId).card := by
  obtain ⟨-, hN, -⟩ := step_unmarked hTol hQueue hFresh
  have hE : info.Inside e.cell := hExplored.inside e (by simp [hQueue])
  have hMarked {c : Cell} (hC : info.Inside c) := marked_step_iff hExplored.inside hQueue hC
  rw [hN, hExplored.count, hExplored.kept e.cell hE hFresh]
  by_cases hMatch : info.idAt ids e.cell = info.matchId
  · have hNew : e.cell ∉ (cells info).filter fun c =>
        info.Marked s.ids c ∧ info.idAt ids c = info.matchId :=
      fun hMem => hFresh (Finset.mem_filter.mp hMem).2.1
    rw [if_pos hMatch, ← Finset.card_insert_of_notMem hNew]
    congr 1
    ext c
    simp only [Finset.mem_insert, Finset.mem_filter, mem_cells]
    constructor
    · rintro (rfl | ⟨hC, hBefore, hC'⟩)
      · exact ⟨hE, (hMarked hE).mpr (.inl rfl), hMatch⟩
      · exact ⟨hC, (hMarked hC).mpr (.inr hBefore), hC'⟩
    · rintro ⟨hC, hMark, hC'⟩
      exact ((hMarked hC).mp hMark).imp_right fun hBefore => ⟨hC, hBefore, hC'⟩
  · rw [if_neg hMatch, Nat.add_zero]
    congr 1
    ext c
    simp only [Finset.mem_filter, mem_cells]
    constructor
    · rintro ⟨hC, hBefore, hC'⟩
      exact ⟨hC, (hMarked hC).mpr (.inr hBefore), hC'⟩
    · rintro ⟨hC, hMark, hC'⟩
      rcases (hMarked hC).mp hMark with rfl | hBefore
      · exact absurd hC' hMatch
      · exact ⟨hC, hBefore, hC'⟩

/-- A cell which waited on the stack waits there still, or has been marked. -/
theorem Explored.waits_visit {c : Cell} (hInside : info.Inside c)
    (hC : info.Marked s.ids c ∨ ∃ e' ∈ s.queue, e'.cell = c) :
    info.Marked (step info s).ids c ∨ ∃ e' ∈ (step info s).queue, e'.cell = c := by
  obtain ⟨-, -, hNext⟩ := step_unmarked hTol hQueue hFresh
  rw [marked_step_iff hExplored.inside hQueue hInside]
  rcases hC with hC | ⟨e', hE', rfl⟩
  · exact .inl (.inr hC)
  · rw [hQueue] at hE'
    rcases List.mem_cons.mp hE' with rfl | hRest
    · exact .inl (.inl rfl)
    · refine .inr ⟨e', ?_, rfl⟩
      rw [hNext]
      exact List.mem_append_right _ hRest

/-- An unmarked cell is visited. -/
theorem Explored.visit (hStart : info.Inside (i, j))
    (hRefused : Refused info ids i j e.cell ↔ Refuses info s e.cell) :
    Explored info ids i j (step info s) := by
  obtain ⟨hIds, -, hNext⟩ := step_unmarked hTol hQueue hFresh
  have hE : info.Inside e.cell := hExplored.inside e (by simp [hQueue])
  have hWaits {c : Cell} (hC : info.Inside c) := hExplored.waits_visit hTol hQueue hFresh hC
  have hMarked {c : Cell} (hC : info.Inside c) := marked_step_iff hExplored.inside hQueue hC
  rw [refuses_iff hTol hQueue hFresh] at hRefused
  have hReach (hRun : after (info.Gap s.ids) e.d e.cell < info.tol) :=
    hExplored.reach hQueue hFresh (fun h => hRefused.mp h hRun) hRun
  refine ⟨hExplored.inside.step, ?kept, ?offered, ?reached, ?pending, hWaits hStart hExplored.first,
    hExplored.count_visit hTol hQueue hFresh⟩
  case kept =>
    intro c hC hUnmarked
    rw [hMarked hC, not_or] at hUnmarked
    rw [hIds, idAt_update hE hC hUnmarked.1]
    exact hExplored.kept c hC hUnmarked.2
  case offered =>
    intro e' hE'
    rw [hNext] at hE'
    rcases List.mem_append.mp hE' with hPushed | hRest
    · split at hPushed
      next hRun =>
        obtain ⟨dir, -, rfl⟩ := List.mem_map.mp hPushed
        exact .inr ⟨e.cell, ⟨dir, rfl⟩, hReach hRun⟩
      next => cases hPushed
    · exact hExplored.offered e' (hQueue ▸ List.mem_cons_of_mem e hRest)
  case reached =>
    intro c hC hMark
    rcases (hMarked hC).mp hMark with rfl | hBefore
    · by_cases hRun : after (info.Gap s.ids) e.d e.cell < info.tol
      · exact .inr ⟨_, hReach hRun⟩
      · exact .inl (hRefused.mpr hRun)
    · exact hExplored.reached c hC hBefore
  case pending =>
    intro c hC hMark
    rcases (hMarked hC).mp hMark with rfl | hBefore
    · by_cases hRun : after (info.Gap s.ids) e.d e.cell < info.tol
      · refine .inr fun dir hDir => ?_
        by_cases hBeside : info.Marked (step info s).ids (move e.cell dir)
        · exact .inl hBeside
        · refine .inr ⟨entryAt e.cell (after (info.Gap s.ids) e.d e.cell) dir, ?_, rfl⟩
          rw [hNext, if_pos hRun]
          exact List.mem_append_left _ (List.mem_map_of_mem (mem_fresh.mpr ⟨hDir, hBeside⟩))
      · exact .inl (hRefused.mpr hRun)
    · exact (hExplored.pending c hC hBefore).imp_right
        fun hBeside dir hDir => hWaits hDir (hBeside dir hDir)

end Visit

/-- A cell is unmarked in one visit only, so that visit decides whether it is refused. -/
theorem refused_iff_refuses (hStart : info.Inside (i, j)) {passes : ℕ}
    (hQueue : ((step info)^[passes] (start ids i j)).queue = e :: rest)
    (hFresh : ¬info.Marked ((step info)^[passes] (start ids i j)).ids e.cell) :
    Refused info ids i j e.cell ↔ Refuses info ((step info)^[passes] (start ids i j)) e.cell := by
  have hInside (passes : ℕ) : QueueInside info ((step info)^[passes] (start ids i j)) :=
    queueInside_run hStart passes
  have hVisited {e : Entry} {rest : List Entry} {passes passes' : ℕ} (hLater : passes < passes')
      (hTop : ((step info)^[passes] (start ids i j)).queue = e :: rest) :
      info.Marked ((step info)^[passes'] (start ids i j)).ids e.cell := by
    apply marked_run hStart (hInside passes e (by simp [hTop])) hLater
    rw [Nat.succ_eq_add_one, Function.iterate_succ_apply']
    exact (marked_step_iff (hInside passes) hTop (hInside passes e (by simp [hTop]))).mpr (.inl rfl)
  constructor
  · rintro ⟨passes', e', rest', hQueue', hCell, hFresh', hRefuses⟩
    rcases Nat.lt_trichotomy passes passes' with hBefore | rfl | hAfter
    · exact absurd (hVisited hBefore hQueue) hFresh'
    · exact ⟨e', rest', hQueue', hCell, hFresh', hRefuses⟩
    · exact absurd (hCell ▸ hVisited hAfter hQueue') hFresh
  · exact fun hRefuses => ⟨passes, hRefuses⟩

theorem explored_run (hTol : 1 ≤ info.tol) (hStart : info.Inside (i, j))
    (hUnmarked : ∀ c, info.Inside c → ¬info.Marked ids c) (passes : ℕ) :
    Explored info ids i j ((step info)^[passes] (start ids i j)) := by
  induction passes with
  | zero => exact .start hStart hUnmarked
  | succ passes ih =>
      rw [Function.iterate_succ_apply']
      cases hQueue : ((step info)^[passes] (start ids i j)).queue with
      | nil => rwa [step_of_nil hQueue]
      | cons e rest =>
          by_cases hMarked : info.Marked ((step info)^[passes] (start ids i j)).ids e.cell
          · rcases step_cases info hQueue with ⟨-, hStep⟩ | ⟨hFresh, -⟩ | ⟨hFresh, -⟩ | ⟨hFresh, -⟩
            · rw [hStep]
              exact ih.drop hQueue hMarked
            all_goals exact absurd hMarked hFresh
          · exact ih.visit hTol hQueue hMarked hStart (refused_iff_refuses hStart hQueue hMarked)

/-- When the stack is empty, the marked cells on which the fill went on are those which it
can reach so. -/
theorem Explored.marked_of_reach (hExplored : Explored info ids i j s) (hEmpty : s.queue = [])
    {c : Cell} {d : ℕ}
    (hReach : Reach Adj (Allowed info ids i j) (info.Gap ids) info.tol (i, j) c d) :
    info.Inside c ∧ info.Marked s.ids c ∧ ¬Refused info ids i j c := by
  have hWaits {c : Cell} (hC : info.Marked s.ids c ∨ ∃ e ∈ s.queue, e.cell = c) :
      info.Marked s.ids c := by
    rcases hC with hC | ⟨e, hE, -⟩
    · exact hC
    · rw [hEmpty] at hE
      cases hE
  induction hReach with
  | start hStart => exact ⟨hStart.1, hWaits hExplored.first, hStart.2⟩
  | step hReach hAdj hAllowed hTol ih =>
      obtain ⟨hInside, hMarked, hRefused⟩ := ih
      obtain ⟨dir, rfl⟩ := hAdj
      have hBeside := (hExplored.pending _ hInside hMarked).resolve_left hRefused
      exact ⟨hAllowed.1, hWaits (hBeside dir hAllowed.1), hAllowed.2⟩

/-- The matching cells at the end of such a path without refused cells. -/
def counted (info : LocateInfo) (ids : ℤ → ℤ) (i j : ℤ) : Set Cell :=
  {c | info.idAt ids c = info.matchId ∧
    ∃ path, Walk Adj (Allowed info ids i j) (info.Gap ids) info.tol (i, j) path ∧
      path.getLast? = some c}

theorem walk_allowed_iff {path : List Cell} :
    Walk Adj (Allowed info ids i j) (info.Gap ids) info.tol (i, j) path ↔
      Walk Adj info.Inside (info.Gap ids) info.tol (i, j) path ∧
        ∀ c ∈ path, ¬Refused info ids i j c := by
  constructor
  · intro hWalk
    exact ⟨⟨hWalk.head, hWalk.chain, fun c hC => (hWalk.allowed c hC).1, hWalk.noRun⟩,
      fun c hC => (hWalk.allowed c hC).2⟩
  · rintro ⟨hWalk, hRefused⟩
    exact ⟨hWalk.head, hWalk.chain, fun c hC => ⟨hWalk.allowed c hC, hRefused c hC⟩, hWalk.noRun⟩

theorem counted_subset_island : counted info ids i j ⊆ info.island ids (i, j) := by
  rintro c ⟨hMatch, path, hWalk, hLast⟩
  exact ⟨hMatch, path, (walk_allowed_iff.mp hWalk).1, hLast⟩

theorem island_subset_cells : info.island ids (i, j) ⊆ cells info := by
  rintro c ⟨-, path, hWalk, hLast⟩
  exact mem_cells.mpr (hWalk.allowed c (List.mem_of_getLast? hLast))

theorem not_refused_of_match (hTol : 1 ≤ info.tol) (hStart : info.Inside (i, j))
    (hUnmarked : ∀ c, info.Inside c → ¬info.Marked ids c) {c : Cell} (hC : info.Inside c)
    (hMatch : info.idAt ids c = info.matchId) : ¬Refused info ids i j c := by
  rintro ⟨passes, e, rest, -, -, hFresh, hGap, -⟩
  rw [(explored_run hTol hStart hUnmarked passes).kept c hC hFresh] at hGap
  exact hGap hMatch

/-- The fill counts these cells. -/
theorem filled_n (hTol : 1 ≤ info.tol) (hStart : info.Inside (i, j))
    (hUnmarked : ∀ c, info.Inside c → ¬info.Marked ids c) :
    (filled info ids i j).n = (counted info ids i j).ncard := by
  have hExplored : Explored info ids i j (filled info ids i j) :=
    explored_run hTol hStart hUnmarked (fillFuel info.r)
  have hEmpty : (filled info ids i j).queue = [] := queue_run_nil hStart
  rw [hExplored.count, ← Set.ncard_coe_finset]
  congr 1
  ext c
  simp only [Finset.coe_filter, mem_cells, counted, exists_walk_iff, Set.mem_ofPred_eq]
  constructor
  · rintro ⟨hC, hMarked, hMatch⟩
    exact ⟨hMatch, (hExplored.reached c hC hMarked).resolve_left
      (not_refused_of_match hTol hStart hUnmarked hC hMatch)⟩
  · rintro ⟨hMatch, d, hReach⟩
    obtain ⟨hC, hMarked, -⟩ := hExplored.marked_of_reach hEmpty hReach
    exact ⟨hC, hMarked, hMatch⟩

/-- When a fill meets its tolerance. -/
theorem meetsTolerance_iff (hTol : 1 ≤ info.tol) (hStart : info.Inside (i, j))
    (hUnmarked : ∀ c, info.Inside c → ¬info.Marked ids c) :
    MeetsTolerance info ids i j ↔ ∀ c ∈ info.island ids (i, j),
      ∃ path, Walk Adj info.Inside (info.Gap ids) info.tol (i, j) path ∧ path.getLast? = some c ∧
        ∀ c' ∈ path, ¬Refused info ids i j c' := by
  have hFinite : (info.island ids (i, j)).Finite := (cells info).finite_toSet.subset island_subset_cells
  rw [MeetsTolerance, floodFillGen_n, filled_n hTol hStart hUnmarked]
  constructor
  · intro hCount c hC
    have hSame : counted info ids i j = info.island ids (i, j) :=
      Set.eq_of_subset_of_ncard_le counted_subset_island hCount.ge hFinite
    obtain ⟨-, path, hWalk, hLast⟩ := hSame.ge hC
    obtain ⟨hInside, hRefused⟩ := walk_allowed_iff.mp hWalk
    exact ⟨path, hInside, hLast, hRefused⟩
  · intro hPaths
    congr 1
    apply Set.Subset.antisymm counted_subset_island
    intro c hC
    obtain ⟨path, hWalk, hLast, hRefused⟩ := hPaths c hC
    exact ⟨hC.1, path, walk_allowed_iff.mpr ⟨hWalk, hRefused⟩, hLast⟩

/-- Without tolerance no cell of a path is refused. -/
theorem meetsTolerance_one (hTol : info.tol = 1) (hStart : info.Inside (i, j))
    (hUnmarked : ∀ c, info.Inside c → ¬info.Marked ids c) : MeetsTolerance info ids i j := by
  rw [meetsTolerance_iff hTol.ge hStart hUnmarked]
  rintro c ⟨-, path, hWalk, hLast⟩
  refine ⟨path, hWalk, hLast, fun c' hC' => ?_⟩
  obtain ⟨x, hX, hMatch⟩ := hWalk.noRun [c'] ((List.singleton_infix_iff c' path).mpr hC') hTol.symm
  cases List.mem_singleton.mp hX
  exact not_refused_of_match hTol.ge hStart hUnmarked (hWalk.allowed c' hC') (not_not.mp hMatch)

/-- Two rows of `tol + 1` cells. The first column and the last cell of the upper row match.
A path along the upper row passes one gap too few to be refused, but the fill goes along the
lower row first, and from its end it comes back to the upper one with one gap too many. -/
def detour (tol : ℕ) : LocateInfo :=
  ⟨⟨true, fun _ x _ z => if x = 0 ∨ (x = tol ∧ z = 0) then 14 else 0⟩,
    ⟨4, 0, 0, tol + 1, 2, 64⟩, 14, tol⟩

section Detour

variable {tol : ℕ}

theorem detour_gap_iff {c : Cell} :
    (detour tol).Gap ids c ↔ c.1 ≠ 0 ∧ ¬(c.1 = tol ∧ c.2 = 0) := by
  simp [LocateInfo.Gap, LocateInfo.idAt, detour]

theorem detour_inside_iff {c : Cell} :
    (detour tol).Inside c ↔ 0 ≤ c.1 ∧ c.1 ≤ tol ∧ 0 ≤ c.2 ∧ c.2 ≤ 1 := by
  simp only [LocateInfo.Inside, InGrid, detour]
  omega

theorem detour_inside_start : (detour tol).Inside (0, 1) :=
  detour_inside_iff.mpr ⟨Int.le_refl 0, Int.natCast_nonneg tol, Int.zero_le_ofNat 1, Int.le_refl 1⟩

/-- The upper cells which wait on the stack when the fill has gone through `m` lower ones. -/
def waiting (m : ℕ) : List Entry := (List.range m).reverse.map fun x : ℕ => ⟨x, 0, x⟩

theorem waiting_succ (m : ℕ) : waiting (m + 1) = ⟨m, 0, m⟩ :: waiting m := by
  simp [waiting, List.range_succ]

/-- From a lower cell the fill can go on to the right and upwards. -/
theorem detour_fresh {m : ℕ} (hM : m + 1 ≤ tol)
    (hMarks : ∀ c, (detour tol).Inside c →
      ((detour tol).Marked ids c ↔ c.2 = 1 ∧ c.1 < (m + 1 : ℕ))) :
    fresh (detour tol) ids ((m : ℤ), 1) = [.right, .up] := by
  have hOpen (dir : Dir) : ((detour tol).Inside (move (m, 1) dir) ∧
      ¬(detour tol).Marked ids (move (m, 1) dir)) ↔ dir = .right ∨ dir = .up := by
    by_cases hInside : (detour tol).Inside (move (m, 1) dir)
    · rw [and_iff_right hInside, hMarks _ hInside]
      rw [detour_inside_iff] at hInside
      cases dir <;> simp only [move] at hInside ⊢ <;> grind
    · rw [iff_false_left fun hOpen => hInside hOpen.1]
      rw [detour_inside_iff] at hInside
      cases dir <;> simp only [move] at hInside ⊢ <;> grind
  simp only [fresh, hOpen]
  rfl

/-- The pass which visits the lower cell of column `m`. -/
theorem detour_step {m : ℕ} (hM : m ≤ tol) (hTol : 1 ≤ tol)
    (hQueue : s.queue = ⟨m, 1, m - 1⟩ :: waiting m)
    (hMarks : ∀ c, (detour tol).Inside c → ((detour tol).Marked s.ids c ↔ c.2 = 1 ∧ c.1 < m)) :
    (step (detour tol) s).queue = (if m < tol then
        pushed (detour tol) (step (detour tol) s).ids ((m : ℤ), 1) m else []) ++ waiting m ∧
      ∀ c, (detour tol).Inside c →
        ((detour tol).Marked (step (detour tol) s).ids c ↔ c.2 = 1 ∧ c.1 < (m + 1 : ℕ)) := by
  have hE : (detour tol).Inside ((⟨m, 1, m - 1⟩ : Entry).cell) :=
    detour_inside_iff.mpr ⟨Int.natCast_nonneg m, Int.ofNat_le.mpr hM, Int.zero_le_ofNat 1,
      Int.le_refl 1⟩
  have hFresh : ¬(detour tol).Marked s.ids ((⟨m, 1, m - 1⟩ : Entry).cell) := by
    rw [hMarks _ hE]
    simp [Entry.cell]
  obtain ⟨hIds, -, hNext⟩ := step_unmarked hTol hQueue hFresh
  have hAfter : after ((detour tol).Gap s.ids) (m - 1) ((m : ℤ), 1) = m := by
    simp only [after, detour_gap_iff]
    split_ifs <;> omega
  simp only [Entry.cell, hAfter] at hNext
  refine ⟨hNext, fun c hC => ?_⟩
  rw [hIds, marked_update hE hC, hMarks c hC]
  simp only [Entry.cell, Prod.ext_iff]
  omega

theorem detour_run {m : ℕ} (hM : m ≤ tol) :
    ((step (detour tol))^[m] (start (fun _ => -1) 0 1)).queue = ⟨m, 1, m - 1⟩ :: waiting m ∧
      ∀ c, (detour tol).Inside c →
        ((detour tol).Marked ((step (detour tol))^[m] (start (fun _ => -1) 0 1)).ids c ↔
          c.2 = 1 ∧ c.1 < m) := by
  induction m with
  | zero =>
      refine ⟨rfl, fun c hC => ⟨fun hMarked => ?_, fun hC' => ?_⟩⟩
      · exact absurd hMarked (LocateInfo.not_marked_memset _ c)
      · rw [detour_inside_iff] at hC
        omega
  | succ m ih =>
      obtain ⟨hQueue, hMarks⟩ := ih (Nat.le_of_succ_le hM)
      rw [Function.iterate_succ_apply']
      obtain ⟨hNext, hMarks'⟩ := detour_step (Nat.le_of_succ_le hM) (by omega) hQueue hMarks
      refine ⟨?_, hMarks'⟩
      rw [hNext, if_pos (Nat.lt_of_succ_le hM), pushed, detour_fresh hM hMarks', waiting_succ]
      simp [entryAt, move]

/-- The last lower cell is refused. -/
theorem detour_refused_lower (hTol : 2 ≤ tol) :
    Refused (detour tol) (fun _ => -1) 0 1 ((tol : ℤ), 1) := by
  obtain ⟨hQueue, hMarks⟩ := detour_run (Nat.le_refl tol)
  have hInside : (detour tol).Inside ((tol : ℤ), 1) :=
    detour_inside_iff.mpr ⟨Int.natCast_nonneg tol, Int.le_refl _, Int.zero_le_ofNat 1, Int.le_refl 1⟩
  refine ⟨tol, _, _, hQueue, rfl, ?_, ?_, ?_⟩
  · rw [hMarks _ hInside]
    simp
  · exact detour_gap_iff.mpr ⟨by simp only; omega, by simp⟩
  · simp only [detour]
    omega

/-- The fill comes back to the last gap of the upper row, and refuses it. -/
theorem detour_refused_upper (hTol : 2 ≤ tol) :
    Refused (detour tol) (fun _ => -1) 0 1 ((tol : ℤ) - 1, 0) := by
  obtain ⟨m, rfl⟩ : ∃ m, tol = m + 1 := ⟨tol - 1, by omega⟩
  obtain ⟨hQueue, hMarks⟩ := detour_run (Nat.le_refl (m + 1))
  obtain ⟨hNext, hMarks'⟩ := detour_step (Nat.le_refl (m + 1)) (by omega) hQueue hMarks
  rw [if_neg (Nat.lt_irrefl _), List.nil_append, waiting_succ] at hNext
  rw [← Function.iterate_succ_apply' (step (detour (m + 1)))] at hNext hMarks'
  have hInside : (detour (m + 1)).Inside (((m + 1 : ℕ) : ℤ) - 1, 0) :=
    detour_inside_iff.mpr ⟨by simp only; omega, by simp only; omega, Int.le_refl 0,
      Int.zero_le_ofNat 1⟩
  refine ⟨m + 1 + 1, _, _, hNext, by simp [Entry.cell], ?_, ?_, ?_⟩
  · rw [hMarks' _ hInside]
    simp
  · exact detour_gap_iff.mpr ⟨by simp only; omega, by simp only; omega⟩
  · simp [detour]

/-- The last upper cell ends a path with less than `tol` gaps. -/
theorem detour_mem_island (hTol : 2 ≤ tol) :
    ((tol : ℤ), 0) ∈ (detour tol).island (fun _ => -1) (0, 1) := by
  have hMatch {c : Cell} (hC : c.1 = 0 ∨ c.1 = tol ∧ c.2 = 0) :
      ¬(detour tol).Gap (fun _ => -1) c := by
    rw [detour_gap_iff]
    omega
  have hUpper (m : ℕ) (hM : m < tol) : ∃ d ≤ m,
      Reach Adj (detour tol).Inside ((detour tol).Gap fun _ => -1) tol (0, 1) ((m : ℤ), 0) d := by
    induction m with
    | zero =>
        have hFirst : Reach Adj (detour tol).Inside ((detour tol).Gap fun _ => -1) tol (0, 1) (0, 1)
            (after ((detour tol).Gap fun _ => -1) 0 (0, 1)) :=
          .start detour_inside_start (by rw [after_of_not_gap (hMatch (.inl rfl))]; omega)
        have hAfter (d : ℕ) : after ((detour tol).Gap fun _ => -1) d (0, 0) = 0 :=
          after_of_not_gap (hMatch (.inl rfl))
        refine ⟨_, (hAfter _).le, .step hFirst ⟨.up, rfl⟩ ?_ ((hAfter _).trans_lt hM)⟩
        exact detour_inside_iff.mpr ⟨Int.le_refl 0, Int.natCast_nonneg tol, Int.le_refl 0,
          Int.zero_le_ofNat 1⟩
    | succ m ih =>
        obtain ⟨d, hD, hReach⟩ := ih (by omega)
        have hAfter : after ((detour tol).Gap fun _ => -1) d (((m + 1 : ℕ) : ℤ), 0) ≤ d + 1 :=
          after_le d _
        refine ⟨_, hAfter.trans (by omega), .step hReach ⟨.right, by simp [move]⟩ ?_ (by omega)⟩
        exact detour_inside_iff.mpr ⟨by simp only; omega, by simp only; omega, Int.le_refl 0,
          Int.zero_le_ofNat 1⟩
  obtain ⟨d, -, hReach⟩ := hUpper (tol - 1) (by omega)
  have hLast : ¬(detour tol).Gap (fun _ => -1) ((tol : ℤ), 0) := hMatch (.inr ⟨rfl, rfl⟩)
  refine ⟨not_not.mp hLast, exists_walk_iff.mpr ⟨_, .step hReach ⟨.right, ?_⟩ ?_ ?_⟩⟩
  · exact Prod.ext (by simp only [move]; omega) rfl
  · exact detour_inside_iff.mpr ⟨Int.natCast_nonneg tol, Int.le_refl _, Int.le_refl 0,
      Int.zero_le_ofNat 1⟩
  · exact (after_of_not_gap hLast).trans_lt (Nat.lt_of_succ_lt hTol)

/-- Both cells from which it can be reached are refused. -/
theorem not_meetsTolerance_detour (hTol : 2 ≤ tol) :
    ¬MeetsTolerance (detour tol) (fun _ => -1) 0 1 := by
  rw [meetsTolerance_iff (Nat.le_of_succ_le hTol) detour_inside_start
    fun c _ => LocateInfo.not_marked_memset _ c]
  intro hPaths
  obtain ⟨path, hWalk, hLast, hRefused⟩ := hPaths _ (detour_mem_island hTol)
  obtain ⟨d, hReach⟩ := exists_walk_iff.mp ⟨path, walk_allowed_iff.mpr ⟨hWalk, hRefused⟩, hLast⟩
  generalize hCell : ((tol : ℤ), (0 : ℤ)) = c at hReach
  cases hReach with
  | start => simp at hCell
  | @step x _ d hReach hAdj hAllowed hRun =>
      obtain ⟨hInside, hFree⟩ := hReach.isAllowed
      obtain ⟨dir, hMove⟩ := hAdj
      rw [detour_inside_iff] at hInside
      subst hCell
      cases dir with
      | up =>
          have hX : x = ((tol : ℤ), 1) := by
            simp only [move, Prod.ext_iff] at hMove ⊢
            omega
          exact hFree (hX ▸ detour_refused_lower hTol)
      | down | left =>
          simp only [move, Prod.ext_iff] at hMove
          omega
      | right =>
          have hX : x = ((tol : ℤ) - 1, 0) := by
            simp only [move, Prod.ext_iff] at hMove ⊢
            omega
          exact hFree (hX ▸ detour_refused_upper hTol)

end Detour

/-- On all maps at once the fill meets a tolerance exactly when there is none. -/
theorem meetsTolerance_all_iff {tol : ℕ} (hTol : 1 ≤ tol) :
    (∀ (info : LocateInfo) (ids : ℤ → ℤ) (i j : ℤ), info.tol = tol → info.Inside (i, j) →
      (∀ c, info.Inside c → ¬info.Marked ids c) → MeetsTolerance info ids i j) ↔ tol = 1 := by
  refine ⟨fun hMeets => ?_, fun hOne info ids i j hInfo => meetsTolerance_one (hInfo.trans hOne)⟩
  by_contra hMore
  exact not_meetsTolerance_detour (by omega)
    (hMeets (detour tol) (fun _ => -1) 0 1 rfl detour_inside_start
      fun c _ => LocateInfo.not_marked_memset _ c)

/-! Which cells the fill refuses. -/

/-- What waits on the stack, with the paths by which the fill has come there. -/
structure Follows (info : LocateInfo) (ids : ℤ → ℤ) (i j : ℤ) (s : Fill) (paths : List (List Dir)) :
    Prop where
  queue : List.Forall₂ (fun e path => e.cell = finish move (i, j) path ∧
    e.d = trailing (info.Gap ids) (visits move (i, j) path).dropLast) s.queue paths
  ordered : Ordered move info.Inside (i, j) (fun walk => info.tol ≤ trailing (info.Gap ids) walk)
    {c | Refused info ids i j c} ⟨{c | info.Inside c ∧ info.Marked s.ids c}, paths⟩

theorem follows_start (hStart : info.Inside (i, j))
    (hUnmarked : ∀ c, info.Inside c → ¬info.Marked ids c) :
    Follows info ids i j (start ids i j) [[]] where
  queue := .cons ⟨rfl, rfl⟩ .nil
  ordered := by
    have hNone : {c | info.Inside c ∧ info.Marked (start ids i j).ids c} = ∅ :=
      Set.eq_empty_of_forall_notMem fun c hC => hUnmarked c hC.1 hC.2
    rw [hNone]
    exact ordered_start hStart

theorem trailing_visits (path : List Dir) :
    trailing (info.Gap ids) (visits move (i, j) path) =
      after (info.Gap ids) (trailing (info.Gap ids) (visits move (i, j) path).dropLast)
        (finish move (i, j) path) := by
  conv_lhs => rw [visits_eq]
  exact trailing_concat _ _

/-- The neighbours which a visit puts on the stack, with their paths. -/
theorem forall₂_pushed {marks : ℤ → ℤ} {c : Cell} {path : List Dir}
    (hCell : c = finish move (i, j) path) :
    List.Forall₂ (fun e path => e.cell = finish move (i, j) path ∧
        e.d = trailing (info.Gap ids) (visits move (i, j) path).dropLast)
      (pushed info marks c (trailing (info.Gap ids) (visits move (i, j) path)))
      ((fresh info marks c).map fun dir => path ++ [dir]) := by
  rw [pushed, List.forall₂_map_left_iff, List.forall₂_map_right_iff, List.forall₂_same]
  intro dir _
  rw [finish_concat, visits_concat, List.dropLast_concat, ← hCell]
  exact ⟨rfl, rfl⟩

theorem fresh_pairwise (marks : ℤ → ℤ) (c : Cell) : (fresh info marks c).Pairwise (· < ·) := by
  have hOrder : takeOrder.Pairwise (· < ·) := by decide
  exact hOrder.sublist List.filter_sublist

/-- A visit of the fill is one of the search. -/
theorem Follows.visit {path : List Dir} {paths : List (List Dir)} (hTol : 1 ≤ info.tol)
    (hExplored : Explored info ids i j s) (hFollows : Follows info ids i j s (path :: paths))
    (hQueue : s.queue = e :: rest) (hFresh : ¬info.Marked s.ids e.cell)
    (hRefused : Refused info ids i j e.cell ↔ Refuses info s e.cell) :
    ∃ paths', Follows info ids i j (step info s) paths' := by
  obtain ⟨hEntries, hOrdered⟩ := hFollows
  rw [hQueue] at hEntries
  obtain ⟨⟨hCell, hD⟩, hRest⟩ := List.forall₂_cons.mp hEntries
  obtain ⟨hIds, -, hNext⟩ := step_unmarked hTol hQueue hFresh
  have hE : info.Inside e.cell := hExplored.inside e (by simp [hQueue])
  have hAfter : after (info.Gap s.ids) e.d e.cell =
      trailing (info.Gap ids) (visits move (i, j) path) := by
    rw [trailing_visits, ← hCell, ← hD]
    simp only [after, hExplored.gap_iff hQueue hFresh]
  rw [refuses_iff hTol hQueue hFresh, hAfter, not_lt] at hRefused
  have hMarked : {c | info.Inside c ∧ info.Marked (step info s).ids c} =
      insert e.cell {c | info.Inside c ∧ info.Marked s.ids c} :=
    search_update hE (step info s) hIds
  let dirs := if trailing (info.Gap ids) (visits move (i, j) path) < info.tol then
    fresh info (step info s).ids e.cell else []
  refine ⟨dirs.map (fun dir => path ++ [dir]) ++ paths, ?_, ?_⟩
  · rw [hNext, hAfter]
    refine List.rel_append ?_ hRest
    simp only [dirs]
    split_ifs
    · exact forall₂_pushed hCell
    · exact .nil
  · rw [hMarked, hCell]
    refine hOrdered.visit ?_ ?_ ?_ fun dir => ?_
    · rw [← hCell]
      exact fun hMem => hFresh hMem.2
    · rw [← hCell]
      exact hRefused
    · simp only [dirs]
      split_ifs
      · exact fresh_pairwise _ _
      · exact .nil
    · rw [← hCell, ← hMarked]
      simp only [dirs, Set.mem_ofPred_eq, hRefused, not_le, not_and]
      split_ifs with hGoesOn
      · rw [mem_fresh]
        grind
      · simp [hGoesOn]

theorem Follows.drop {path : List Dir} {paths : List (List Dir)}
    (hFollows : Follows info ids i j s (path :: paths)) (hQueue : s.queue = e :: rest)
    (hE : info.Inside e.cell) (hMarked : info.Marked s.ids e.cell) :
    Follows info ids i j { s with queue := rest } paths := by
  obtain ⟨hEntries, hOrdered⟩ := hFollows
  rw [hQueue] at hEntries
  obtain ⟨⟨hCell, -⟩, hRest⟩ := List.forall₂_cons.mp hEntries
  refine ⟨hRest, hOrdered.drop ?_⟩
  rw [← hCell]
  exact ⟨hE, hMarked⟩

theorem exists_follows_run (hTol : 1 ≤ info.tol) (hStart : info.Inside (i, j))
    (hUnmarked : ∀ c, info.Inside c → ¬info.Marked ids c) (passes : ℕ) :
    ∃ paths, Follows info ids i j ((step info)^[passes] (start ids i j)) paths := by
  induction passes with
  | zero => exact ⟨_, follows_start hStart hUnmarked⟩
  | succ passes ih =>
      obtain ⟨paths, hFollows⟩ := ih
      rw [Function.iterate_succ_apply']
      cases hQueue : ((step info)^[passes] (start ids i j)).queue with
      | nil =>
          rw [step_of_nil hQueue]
          exact ⟨paths, hFollows⟩
      | cons e rest =>
          have hEntries := hFollows.queue
          rw [hQueue] at hEntries
          cases hEntries with
          | @cons _ path _ paths _ _ =>
              have hExplored := explored_run hTol hStart hUnmarked passes
              have hE := hExplored.inside e (by simp [hQueue])
              by_cases hMarked :
                  info.Marked ((step info)^[passes] (start ids i j)).ids e.cell
              · rcases step_shape info hQueue with ⟨-, hStep⟩ | ⟨hFresh, -⟩
                · rw [hStep]
                  exact ⟨paths, hFollows.drop hQueue hE hMarked⟩
                · exact absurd hMarked hFresh
              · exact hFollows.visit hTol hExplored hQueue hMarked
                  (refused_iff_refuses hStart hQueue hMarked)

/-- The pass which refuses a cell marks it. -/
theorem Refused.marked_filled {c : Cell} (hStart : info.Inside (i, j))
    (hRefused : Refused info ids i j c) :
    info.Inside c ∧ info.Marked (filled info ids i j).ids c := by
  obtain ⟨passes, e, rest, hQueue, rfl, -⟩ := hRefused
  have hInside : QueueInside info ((step info)^[passes] (start ids i j)) :=
    queueInside_run hStart passes
  have hE := hInside e (by simp [hQueue])
  have hEarly : passes < fillFuel info.r := by
    by_contra hLate
    obtain ⟨more, rfl⟩ := Nat.exists_eq_add_of_le' (not_lt.mp hLate)
    have hEmpty : ((step info)^[fillFuel info.r] (start ids i j)).queue = [] := queue_run_nil hStart
    rw [Function.iterate_add_apply, Function.iterate_fixed (step_of_nil hEmpty), hEmpty] at hQueue
    cases hQueue
  refine ⟨hE, marked_run hStart hE hEarly ?_⟩
  rw [Nat.succ_eq_add_one, Function.iterate_succ_apply']
  exact (marked_step_iff hInside hQueue hE).mpr (.inl rfl)

/-- The cells which the passes refuse are those of the condition. -/
theorem refused_iff (hTol : 1 ≤ info.tol) (hStart : info.Inside (i, j))
    (hUnmarked : ∀ c, info.Inside c → ¬info.Marked ids c) {refused : Set Cell} :
    info.Refused ids (i, j) refused ↔ refused = {c | Refused info ids i j c} := by
  obtain ⟨paths, hEntries, hOrdered⟩ :=
    exists_follows_run hTol hStart hUnmarked (fillFuel info.r)
  have hEmpty : ((step info)^[fillFuel info.r] (start ids i j)).queue = [] := queue_run_nil hStart
  rw [hEmpty, List.forall₂_nil_left_iff] at hEntries
  have hSettled : info.Refused ids (i, j) {c | Refused info ids i j c} :=
    hOrdered.settled hEntries fun c hC => hC.marked_filled hStart
  have hFinite : {c | info.Inside c}.Finite :=
    (cells info).finite_toSet.subset fun c hC => mem_cells.mpr hC
  constructor
  · exact fun hRefused => hRefused.unique hFinite hSettled
  · rintro rfl
    exact hSettled

/-- Where no path ends with so many gaps, no cell is refused. -/
theorem refused_empty (hShort : ∀ path, Open move info.Inside (i, j) ∅ path →
    trailing (info.Gap ids) (visits move (i, j) path) < info.tol) : info.Refused ids (i, j) ∅ := by
  intro c
  constructor
  · exact fun hC => absurd hC (Set.notMem_empty c)
  · rintro ⟨path, hFirst, hRefuses⟩
    exact absurd (hShort path hFirst.1.1) (not_lt.mpr hRefuses)

/-- There is one set of refused cells, and the fill meets its tolerance exactly when every cell it
should count is at the end of a path without them. -/
theorem tolerance_met_iff (info : LocateInfo) (ids : ℤ → ℤ) (i j : ℤ) (hTol : 1 ≤ info.tol)
    (hStart : info.Inside (i, j)) (hUnmarked : ∀ c, info.Inside c → ¬info.Marked ids c) :
    (∃! refused, info.Refused ids (i, j) refused) ∧
      ∀ refused, info.Refused ids (i, j) refused →
        (MeetsTolerance info ids i j ↔ ∀ c ∈ info.island ids (i, j),
          ∃ path, Walk Adj info.Inside (info.Gap ids) info.tol (i, j) path ∧
            path.getLast? = some c ∧ ∀ c' ∈ path, c' ∉ refused) := by
  constructor
  · refine ⟨{c | Refused info ids i j c}, (refused_iff hTol hStart hUnmarked).mpr rfl, ?_⟩
    exact fun refused hRefused => (refused_iff hTol hStart hUnmarked).mp hRefused
  · intro refused hRefused
    cases (refused_iff hTol hStart hUnmarked).mp hRefused
    exact meetsTolerance_iff hTol hStart hUnmarked

/-- The smallest such map: three by two cells, of which the fill counts two. -/
theorem detour_two_missed :
    (detour 2).Inside (0, 1) ∧ (∀ c, (detour 2).Inside c → ¬(detour 2).Marked (fun _ => -1) c) ∧
      (floodFillGen (detour 2) (fun _ => false) (fun _ => -1) 0 1).n = 2 ∧
      ¬MeetsTolerance (detour 2) (fun _ => -1) 0 1 :=
  ⟨detour_inside_start, fun c _ => LocateInfo.not_marked_memset _ c, by decide +kernel,
    not_meetsTolerance_detour (Nat.le_refl 2)⟩

/-- On the square of matching cells nothing is refused. On the smaller detour some cells are, and
the last upper cell is the end of no path without them. -/
theorem tolerance_met_iff_two :
    MeetsTolerance square (fun _ => -1) 1 1 ∧
      ∃ refused, (detour 2).Refused (fun _ => -1) (0, 1) refused ∧
        ¬∀ c ∈ (detour 2).island (fun _ => -1) (0, 1),
          ∃ path, Walk Adj (detour 2).Inside ((detour 2).Gap fun _ => -1) 2 (0, 1) path ∧
            path.getLast? = some c ∧ ∀ c' ∈ path, c' ∉ refused := by
  constructor
  · obtain ⟨-, hMeets⟩ := tolerance_met_iff square (fun _ => -1) 1 1 (by decide) (by decide)
      fun c _ => LocateInfo.not_marked_memset _ c
    have hNone : square.Refused (fun _ => -1) (1, 1) ∅ := by
      apply refused_empty
      intro path _
      have hMatch : ¬square.Gap (fun _ => -1) (finish move (1, 1) path) := not_not_intro rfl
      rw [trailing_visits, after_of_not_gap hMatch]
      decide
    refine (hMeets ∅ hNone).mpr ?_
    rintro c ⟨-, path, hWalk, hLast⟩
    exact ⟨path, hWalk, hLast, fun c' _ => Set.notMem_empty c'⟩
  · obtain ⟨⟨refused, hRefused, -⟩, hMeets⟩ := tolerance_met_iff (detour 2) (fun _ => -1) 0 1
      (by decide) detour_inside_start fun c _ => LocateInfo.not_marked_memset _ c
    exact ⟨refused, hRefused, fun hPaths => not_meetsTolerance_detour (Nat.le_refl 2)
      ((hMeets refused hRefused).mpr hPaths)⟩

end Fill

end Commission
