import Commission.Cpu.FloodFill

/-! The arrays of the flood fill: `queue` and `ids` have `sx * sz` elements each, and no
access lies outside them. -/
namespace Commission.Fill

open GridSearch

/-- An access to one of the arrays. -/
inductive Access where
  | queue (k : ℕ)
  | ids (k : ℤ)

def Access.InBounds (r : Range) : Access → Prop
  | .queue k => k < r.sx * r.sz
  | .ids k => 0 ≤ k ∧ k < (r.sx * r.sz : ℕ)

variable (info : LocateInfo)

/-- The accesses of one pass of the loop over `next`; the last one is `queue[qn++]`. -/
def pushAccesses (s : Fill) (e : Entry) : List Access :=
  if e.i < 0 ∨ info.r.sx ≤ e.i ∨ e.j < 0 ∨ info.r.sz ≤ e.j then []
  else if s.ids (info.r.index e.i e.j) = intMax then [.ids (info.r.index e.i e.j)]
  else [.ids (info.r.index e.i e.j), .queue s.queue.length]

def nextAccesses : Fill → List Entry → List Access
  | _, [] => []
  | s, e :: rest => pushAccesses info s e ++ nextAccesses (push info s e) rest

/-- The accesses of one pass of the loop. -/
def accesses (s : Fill) : List Access :=
  match s.queue with
  | [] => []
  | e :: rest =>
      let (s', entries) := visit info { s with queue := rest } e
      .queue rest.length :: .ids (info.r.index e.i e.j) :: nextAccesses info s' entries

/-- The states of one pass: before it, and before and after each neighbour. -/
def moments (s : Fill) : List Fill :=
  match s.queue with
  | [] => [s]
  | e :: rest =>
      let (s', entries) := visit info { s with queue := rest } e
      s :: entries.scanl (push info) s'

/-- The fill as a search of the grid, without the counts. -/
def search (s : Fill) : Search :=
  ⟨{c | info.Inside c ∧ info.Marked s.ids c}, s.queue.map Entry.cell⟩

variable {info} {s : Fill} {e : Entry} {rest entries : List Entry}

theorem search_update (hE : info.Inside e.cell) (s' : Fill)
    (hIds : s'.ids = Function.update s.ids (info.r.index e.i e.j) intMax) :
    (search info s').marked = insert e.cell (search info s).marked := by
  ext c
  simp only [search, Set.mem_ofPred_eq, Set.mem_insert_iff, hIds]
  constructor
  · rintro ⟨hC, hMarked⟩
    exact ((marked_update hE hC).mp hMarked).imp_right fun h => ⟨hC, h⟩
  · rintro (rfl | ⟨hC, hMarked⟩)
    · exact ⟨hE, (marked_update hE hE).mpr (.inl rfl)⟩
    · exact ⟨hC, (marked_update hE hC).mpr (.inr hMarked)⟩

/-- Every pass of the fill is a step of the search. -/
theorem search_step (hInside : QueueInside info s) (hQueue : s.queue = e :: rest) :
    Step info.r.sx info.r.sz (search info s) (search info (step info s)) := by
  have hE := hInside e (by simp [hQueue])
  have hFrom : search info s = ⟨(search info s).marked, e.cell :: rest.map Entry.cell⟩ := by
    simp [search, hQueue]
  rcases step_shape info hQueue with ⟨hMarked, hStep⟩ | ⟨hFresh, hIds, dirs, d, hDirs, hStep⟩
  · have hTo : search info (step info s) =
        ⟨(search info s).marked, rest.map Entry.cell⟩ := by
      simp [search, hStep]
    rw [hFrom, hTo]
    exact .drop ⟨hE, hMarked⟩
  · have hTo : search info (step info s) = ⟨insert e.cell (search info s).marked,
        dirs.map (move e.cell) ++ rest.map Entry.cell⟩ := by
      rw [← search_update hE _ hIds]
      simp [search, hStep, Entry.cell, entryAt, Function.comp_def]
    rw [hFrom, hTo]
    refine .visit dirs (fun hMem => hFresh hMem.2) (hDirs.trans List.filter_sublist) ?_
    intro dir hDir
    obtain ⟨hNext, hUnmarked⟩ := mem_fresh.mp (hDirs.subset hDir)
    rw [← search_update hE _ hIds]
    exact ⟨hNext, fun hMem => hUnmarked hMem.2⟩

theorem framed_run {ids : ℤ → ℤ} {i j : ℤ} (hStart : info.Inside (i, j)) (passes : ℕ) :
    Framed info.r.sx info.r.sz (search info ((step info)^[passes] (start ids i j))) := by
  induction passes with
  | zero => exact .inl ⟨(i, j), hStart, rfl⟩
  | succ passes ih =>
      rw [Function.iterate_succ_apply']
      cases hQueue : ((step info)^[passes] (start ids i j)).queue with
      | nil =>
          rw [step_of_nil hQueue]
          exact ih
      | cons e rest => exact ih.step (search_step (queueInside_run hStart passes) hQueue)

theorem length_queue_run_le {ids : ℤ → ℤ} {i j : ℤ} (hStart : info.Inside (i, j)) (passes : ℕ) :
    ((step info)^[passes] (start ids i j)).queue.length ≤ info.r.sx * info.r.sz := by
  have hHeight : 1 ≤ info.r.sz := by
    have hFirst := hStart.2.2.1
    have hLast := hStart.2.2.2
    omega
  have hLength : (search info ((step info)^[passes] (start ids i j))).stack.length ≤
      info.r.sx * info.r.sz := (framed_run hStart passes).length_stack_le hHeight
  rwa [search, List.length_map] at hLength

/-- Looking at more neighbours never takes an entry from the stack. -/
theorem length_queue_le_foldl (entries : List Entry) (s : Fill) :
    s.queue.length ≤ (entries.foldl (push info) s).queue.length := by
  rw [foldl_push]
  simp

/-- A neighbour is tested against the grid before its mark is read, and `queue[qn++]` is the
last element of a stack which is short enough. -/
theorem pushAccesses_inBounds (hLength : (push info s e).queue.length ≤ info.r.sx * info.r.sz) :
    ∀ access ∈ pushAccesses info s e, access.InBounds info.r := by
  intro access hAccess
  by_cases hOutside : e.i < 0 ∨ info.r.sx ≤ e.i ∨ e.j < 0 ∨ info.r.sz ≤ e.j
  · rw [pushAccesses, if_pos hOutside] at hAccess
    cases hAccess
  · have hIds : (Access.ids (info.r.index e.i e.j)).InBounds info.r := by
      have hInside : InGrid info.r.sx info.r.sz (e.i, e.j) := by
        simp only [InGrid]
        omega
      exact Range.index_bounds hInside
    rw [pushAccesses, if_neg hOutside] at hAccess
    rw [push, if_neg hOutside] at hLength
    by_cases hMarked : s.ids (info.r.index e.i e.j) = intMax
    · rw [if_pos hMarked] at hAccess
      cases List.mem_singleton.mp hAccess
      exact hIds
    · rw [if_neg hMarked] at hAccess hLength
      rcases List.mem_cons.mp hAccess with rfl | hQueue
      · exact hIds
      · cases List.mem_singleton.mp hQueue
        exact hLength

theorem nextAccesses_inBounds {s : Fill}
    (hLength : (entries.foldl (push info) s).queue.length ≤ info.r.sx * info.r.sz) :
    ∀ access ∈ nextAccesses info s entries, access.InBounds info.r := by
  induction entries generalizing s with
  | nil =>
      intro access hAccess
      cases hAccess
  | cons e rest ih =>
      intro access hAccess
      rcases List.mem_append.mp hAccess with hFirst | hRest
      · exact pushAccesses_inBounds ((length_queue_le_foldl rest _).trans hLength) access hFirst
      · exact ih hLength access hRest

theorem length_queue_scanl_le {s t : Fill}
    (hLength : (entries.foldl (push info) s).queue.length ≤ info.r.sx * info.r.sz)
    (hT : t ∈ entries.scanl (push info) s) : t.queue.length ≤ info.r.sx * info.r.sz := by
  induction entries generalizing s with
  | nil =>
      rw [List.scanl_nil] at hT
      cases List.mem_singleton.mp hT
      exact hLength
  | cons e rest ih =>
      rw [List.scanl_cons] at hT
      rcases List.mem_cons.mp hT with rfl | hRest
      · exact (length_queue_le_foldl (e :: rest) t).trans hLength
      · exact ih hLength hRest

theorem pass_in_bounds (hInside : QueueInside info s)
    (hBefore : s.queue.length ≤ info.r.sx * info.r.sz)
    (hAfter : (step info s).queue.length ≤ info.r.sx * info.r.sz) :
    (∀ t ∈ moments info s, t.queue.length ≤ info.r.sx * info.r.sz) ∧
      ∀ access ∈ accesses info s, access.InBounds info.r := by
  cases hQueue : s.queue with
  | nil => simp [moments, accesses, hQueue]
  | cons e rest =>
      have hE : info.Inside e.cell := hInside e (by simp [hQueue])
      have hRest : rest.length < info.r.sx * info.r.sz := by
        rwa [hQueue] at hBefore
      simp only [step, hQueue] at hAfter
      simp only [moments, accesses, hQueue]
      constructor
      · intro t hT
        rcases List.mem_cons.mp hT with rfl | hT
        · exact hBefore
        · exact length_queue_scanl_le hAfter hT
      · intro access hAccess
        rcases List.mem_cons.mp hAccess with rfl | hAccess
        · exact hRest
        · rcases List.mem_cons.mp hAccess with rfl | hAccess
          · exact Range.index_bounds hE
          · exact nextAccesses_inBounds hAfter access hAccess

/-- At every moment of a fill the stack fits into its allocation, and every access to it and
to the marks is in bounds, whatever is marked beforehand. -/
theorem queue_in_bounds (info : LocateInfo) (ids : ℤ → ℤ) (i j : ℤ) (hStart : info.Inside (i, j))
    (passes : ℕ) :
    (∀ t ∈ moments info ((step info)^[passes] (start ids i j)),
      t.queue.length ≤ info.r.sx * info.r.sz) ∧
      ∀ access ∈ accesses info ((step info)^[passes] (start ids i j)),
        access.InBounds info.r := by
  apply pass_in_bounds (queueInside_run hStart passes) (length_queue_run_le hStart passes)
  rw [← Function.iterate_succ_apply' (step info)]
  exact length_queue_run_le hStart (passes + 1)

/-- A square of three by three cells, all of which match. -/
def square : LocateInfo := ⟨⟨true, fun _ _ _ _ => 14⟩, ⟨4, 0, 0, 3, 3, 64⟩, 14, 2⟩

/-- After eight passes one of its corners lies on the stack twice. -/
theorem queue_in_bounds_square :
    square.Inside (1, 1) ∧
      ((step square)^[8] (start (fun _ => -1) 1 1)).queue.map Entry.cell =
        [(2, 0), (2, 0), (0, 1), (1, 2), (1, 0)] ∧
      (∀ t ∈ moments square ((step square)^[8] (start (fun _ => -1) 1 1)),
        t.queue.length ≤ square.r.sx * square.r.sz) ∧
      ∀ access ∈ accesses square ((step square)^[8] (start (fun _ => -1) 1 1)),
        access.InBounds square.r :=
  ⟨by decide, by decide +kernel, queue_in_bounds square (fun _ => -1) 1 1 (by decide) 8⟩

end Commission.Fill
