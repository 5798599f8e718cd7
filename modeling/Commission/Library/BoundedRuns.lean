import Mathlib.Data.List.Chain
import Mathlib.Data.List.DropRight

/-! Walks in a graph which may pass some gaps, as long as there are fewer than a given
number of them in a row. -/
namespace BoundedRuns

variable {α : Type*} (adj : α → α → Prop) (allowed : α → Prop) (gap : α → Prop) (tol : ℕ) (start : α)

/-- A walk from the start over allowed elements, on which no `tol` consecutive elements are
gaps. -/
structure Walk (path : List α) : Prop where
  head : path.head? = some start
  chain : path.IsChain adj
  allowed : ∀ x ∈ path, allowed x
  noRun : ∀ part, part <:+: path → part.length = tol → ∃ x ∈ part, ¬gap x

variable [DecidablePred gap]

/-- The number of gaps in a row after an element, from that before it. -/
def after (d : ℕ) (x : α) : ℕ := if gap x then d + 1 else 0

/-- The ends of such walks, with the gaps in a row up to them. -/
inductive Reach : α → ℕ → Prop where
  | start (hStart : allowed start) (hTol : after gap 0 start < tol) :
      Reach start (after gap 0 start)
  | step {x y : α} {d : ℕ} (hReach : Reach x d) (hAdj : adj x y) (hAllowed : allowed y)
      (hTol : after gap d y < tol) : Reach y (after gap d y)

/-- The number of gaps in a row at the end of a list. -/
def trailing (path : List α) : ℕ := (path.rtakeWhile fun x => gap x).length

variable {adj allowed gap tol start} {path : List α}

theorem after_of_not_gap {d : ℕ} {x : α} (hGap : ¬gap x) : after gap d x = 0 := if_neg hGap

theorem after_le (d : ℕ) (x : α) : after gap d x ≤ d + 1 := by
  rw [after]
  split_ifs <;> omega

theorem Reach.isAllowed {x : α} {d : ℕ} (hReach : Reach adj allowed gap tol start x d) : allowed x := by
  cases hReach with
  | start hStart => exact hStart
  | step hReach hAdj hAllowed => exact hAllowed

theorem trailing_concat (path : List α) (x : α) :
    trailing gap (path ++ [x]) = after gap (trailing gap path) x := by
  rw [trailing, List.rtakeWhile_concat, after]
  by_cases hGap : gap x
  · simp [hGap, trailing]
  · simp [hGap]

/-- A suffix of gaps is not longer than the run at the end. -/
theorem length_le_trailing {part : List α} (hPart : part <:+ path) (hGap : ∀ x ∈ part, gap x) :
    part.length ≤ trailing gap path := by
  induction path using List.reverseRecOn generalizing part with
  | nil => simp [List.suffix_nil.mp hPart]
  | append_singleton path x ih =>
      rcases List.suffix_concat_iff.mp hPart with rfl | ⟨front, rfl, hFront⟩
      · simp
      · have hLength := ih hFront fun y hY => hGap y (List.mem_append_left _ hY)
        rw [trailing_concat, after, if_pos (hGap x (by simp)), List.length_append]
        exact Nat.add_le_add_right hLength 1

/-- A walk has no run at its end either. -/
theorem Walk.trailing_lt (hWalk : Walk adj allowed gap tol start path) :
    trailing gap path < tol := by
  by_contra hLong
  have hSuffix : path.rtakeWhile (fun x => gap x) <:+ path := List.rtakeWhile_suffix _ path
  set run := path.rtakeWhile (fun x => gap x) with hRun
  have hPart : (run.drop (run.length - tol)) <:+ path := (List.drop_suffix _ _).trans hSuffix
  have hLength : (run.drop (run.length - tol)).length = tol := by
    rw [trailing, ← hRun] at hLong
    rw [List.length_drop]
    omega
  obtain ⟨x, hX, hGap⟩ := hWalk.noRun _ hPart.isInfix hLength
  have hMem : x ∈ path.rtakeWhile (fun x => gap x) := (List.drop_suffix _ _).subset hX
  exact hGap (by simpa using List.mem_rtakeWhile_imp hMem)

theorem noRun_concat {y : α}
    (hPath : ∀ part, part <:+: path → part.length = tol → ∃ x ∈ part, ¬gap x)
    (hTol : after gap (trailing gap path) y < tol) :
    ∀ part, part <:+: path ++ [y] → part.length = tol → ∃ x ∈ part, ¬gap x := by
  intro part hPart hLength
  rcases List.infix_concat_iff.mp hPart with hSuffix | hInfix
  · by_contra hGap
    push Not at hGap
    have hLong := length_le_trailing hSuffix hGap
    rw [trailing_concat] at hLong
    omega
  · exact hPath part hInfix hLength

theorem walk_singleton (hStart : allowed start) (hTol : after gap 0 start < tol) :
    Walk adj allowed gap tol start [start] where
  head := rfl
  chain := List.isChain_singleton _
  allowed := by simpa
  noRun := by
    change ∀ part, part <:+: [] ++ [start] → _
    refine noRun_concat ?_ hTol
    intro part hPart hLength
    rw [List.infix_nil.mp hPart, List.length_nil] at hLength
    omega

/-- A walk and one more element. -/
theorem Walk.concat {x y : α} (hWalk : Walk adj allowed gap tol start path)
    (hLast : path.getLast? = some x) (hAdj : adj x y) (hAllowed : allowed y)
    (hTol : after gap (trailing gap path) y < tol) :
    Walk adj allowed gap tol start (path ++ [y]) where
  head := by rw [List.head?_append, hWalk.head, Option.some_or]
  chain := by
    apply hWalk.chain.append (List.isChain_singleton _)
    intro x' hX' y' hY'
    cases hLast.symm.trans hX'
    cases hY'
    exact hAdj
  allowed z hZ := by
    rcases List.mem_append.mp hZ with hZ | hZ
    · exact hWalk.allowed z hZ
    · cases List.mem_singleton.mp hZ
      exact hAllowed
  noRun := noRun_concat hWalk.noRun hTol

theorem Reach.exists_walk {x : α} {d : ℕ} (hReach : Reach adj allowed gap tol start x d) :
    ∃ path, Walk adj allowed gap tol start path ∧ path.getLast? = some x ∧
      trailing gap path = d := by
  induction hReach with
  | start hStart hTol => exact ⟨[start], walk_singleton hStart hTol, rfl, trailing_concat [] start⟩
  | @step x y d hReach hAdj hAllowed hTol ih =>
      obtain ⟨path, hWalk, hLast, rfl⟩ := ih
      exact ⟨path ++ [y], hWalk.concat hLast hAdj hAllowed hTol, List.getLast?_concat,
        trailing_concat path y⟩

omit [DecidablePred gap] in
theorem Walk.of_concat {y : α} (hWalk : Walk adj allowed gap tol start (path ++ [y]))
    (hPath : path ≠ []) : Walk adj allowed gap tol start path where
  head := by
    have hHead := hWalk.head
    rwa [List.head?_append_of_ne_nil _ hPath] at hHead
  chain := hWalk.chain.left_of_append
  allowed x hX := hWalk.allowed x (List.mem_append_left _ hX)
  noRun part hPart := hWalk.noRun part (hPart.trans (List.prefix_append path [y]).isInfix)

theorem Walk.reach (hWalk : Walk adj allowed gap tol start path) {x : α}
    (hLast : path.getLast? = some x) : Reach adj allowed gap tol start x (trailing gap path) := by
  induction path using List.reverseRecOn generalizing x with
  | nil => cases hLast
  | append_singleton path y ih =>
      have hTol := hWalk.trailing_lt
      have hAllowed : allowed y := hWalk.allowed y (by simp)
      rw [List.getLast?_concat, Option.some_inj] at hLast
      subst hLast
      rw [trailing_concat] at hTol ⊢
      cases hEnd : path.getLast? with
      | none =>
          rw [List.getLast?_eq_none_iff] at hEnd
          subst hEnd
          have hHead : y = start := Option.some_inj.mp hWalk.head
          subst hHead
          exact .start hAllowed hTol
      | some x =>
          have hPath : path ≠ [] := by
            rintro rfl
            cases hEnd
          have hAdj : adj x y := (List.isChain_append.mp hWalk.chain).2.2 x hEnd y rfl
          exact .step (ih (hWalk.of_concat hPath) hEnd) hAdj hAllowed hTol

/-- What walks reach, step by step. -/
theorem exists_walk_iff {x : α} :
    (∃ path, Walk adj allowed gap tol start path ∧ path.getLast? = some x) ↔
      ∃ d, Reach adj allowed gap tol start x d := by
  constructor
  · rintro ⟨path, hWalk, hLast⟩
    exact ⟨_, hWalk.reach hLast⟩
  · rintro ⟨d, hReach⟩
    obtain ⟨path, hWalk, hLast, -⟩ := hReach.exists_walk
    exact ⟨path, hWalk, hLast⟩

end BoundedRuns
