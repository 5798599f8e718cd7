import Mathlib.Data.List.Basic
import Mathlib.Order.Lattice

/-! The first nearest element of a list, found element by element, or group by group where a
group is left out if its bound tells that nothing in it is nearer. -/
namespace NearestSearch

variable {ι κ D : Type*} [LinearOrder D] (dist : ι → D)

/-- The nearer one of the best element so far and another, the former if they are equally near. -/
def nearer (best : ι × D) (i : ι) : ι × D :=
  if dist i < best.2 then (i, dist i) else best

def scan (best : ι × D) (l : List ι) : ι × D := l.foldl (nearer dist) best

variable {dist} {best : ι × D} {l : List ι}

theorem scan_append (first second : List ι) :
    scan dist best (first ++ second) = scan dist (scan dist best first) second :=
  List.foldl_append

theorem scan_of_far (hFar : ∀ i ∈ l, best.2 ≤ dist i) : scan dist best l = best := by
  induction l with
  | nil => rfl
  | cons i rest ih =>
      have hFirst : nearer dist best i = best := if_neg (not_lt.mpr (hFar i List.mem_cons_self))
      rw [scan, List.foldl_cons, hFirst]
      exact ih fun j hRest => hFar j (List.mem_cons_of_mem i hRest)

theorem scan_singleton {i : ι} (hNear : dist i < best.2) : scan dist best [i] = (i, dist i) := by
  rw [scan, List.foldl_cons, List.foldl_nil, nearer, if_pos hNear]

/-- Of the nearest elements of a list, the one which comes first. -/
def FirstNearest (dist : ι → D) (l : List ι) (found : ι) : Prop :=
  ∃ before after, l = before ++ found :: after ∧ (∀ i ∈ before, dist found < dist i) ∧
    ∀ i ∈ after, dist found ≤ dist i

namespace FirstNearest

variable {found : ι}

theorem cons_self {i : ι} (hRest : ∀ j ∈ l, dist i ≤ dist j) : FirstNearest dist (i :: l) i :=
  ⟨[], l, rfl, List.forall_mem_nil _, hRest⟩

theorem cons {i : ι} (hLess : dist found < dist i) (hRest : FirstNearest dist l found) :
    FirstNearest dist (i :: l) found := by
  obtain ⟨before, after, rfl, hBefore, hAfter⟩ := hRest
  exact ⟨i :: before, after, rfl, List.forall_mem_cons.mpr ⟨hLess, hBefore⟩, hAfter⟩

theorem mem (hFound : FirstNearest dist l found) : found ∈ l := by
  obtain ⟨before, after, rfl, -⟩ := hFound
  exact List.mem_append_right before List.mem_cons_self

theorem le (hFound : FirstNearest dist l found) : ∀ i ∈ l, dist found ≤ dist i := by
  obtain ⟨before, after, rfl, hBefore, hAfter⟩ := hFound
  intro i hMem
  rcases List.mem_append.mp hMem with hHere | hHere
  · exact (hBefore i hHere).le
  · rcases List.mem_cons.mp hHere with rfl | hHere
    · exact le_rfl
    · exact hAfter i hHere

/-- If nothing in the second part is nearer than some element of the first, it is found in the
first. -/
theorem mem_left {first second : List ι} (hFound : FirstNearest dist (first ++ second) found)
    (hFirst : ∃ i ∈ first, ∀ j ∈ second, dist i ≤ dist j) : found ∈ first := by
  obtain ⟨i, hMem, hSecond⟩ := hFirst
  obtain ⟨before, after, hSplit, hBefore, -⟩ := id hFound
  rcases List.append_eq_append_iff.mp hSplit with ⟨between, rfl, hRest⟩ | ⟨between, rfl, hRest⟩
  · have hLater : found ∈ second := hRest ▸ List.mem_append_right between List.mem_cons_self
    exact absurd (hBefore i (List.mem_append_left between hMem)) (not_lt.mpr (hSecond found hLater))
  · cases between with
    | nil =>
        have hLater : found ∈ second := by
          rw [← List.nil_append second, ← hRest]
          exact List.mem_cons_self
        rw [List.append_nil] at hMem
        exact absurd (hBefore i hMem) (not_lt.mpr (hSecond found hLater))
    | cons head between =>
        rw [List.cons_append, List.cons.injEq] at hRest
        rw [hRest.1]
        exact List.mem_append_right before List.mem_cons_self

theorem scan_eq (hFound : FirstNearest dist l found) (hNear : dist found < best.2) :
    scan dist best l = (found, dist found) := by
  obtain ⟨before, after, rfl, hBefore, hAfter⟩ := hFound
  have hLess : dist found < (scan dist best before).2 := by
    clear hAfter
    induction before generalizing best with
    | nil => exact hNear
    | cons i rest ih =>
        have hRest := (List.forall_mem_cons.mp hBefore).2
        rw [scan, List.foldl_cons, ← scan, nearer]
        split_ifs
        · exact ih (hBefore i List.mem_cons_self) hRest
        · exact ih hNear hRest
  rw [scan_append, ← List.singleton_append, scan_append, scan_singleton hLess]
  exact scan_of_far hAfter

end FirstNearest

/-- A scan ends with the first one of the nearest elements. -/
theorem scan_of_near (hNear : ∃ i ∈ l, dist i < best.2) :
    ∃ found, FirstNearest dist l found ∧ dist found < best.2 ∧
      scan dist best l = (found, dist found) := by
  induction l generalizing best with
  | nil =>
      obtain ⟨i, hMem, -⟩ := hNear
      cases hMem
  | cons i rest ih =>
      rw [scan, List.foldl_cons, ← scan, nearer]
      split_ifs with hFirst
      · by_cases hLater : ∃ j ∈ rest, dist j < (i, dist i).2
        · obtain ⟨found, hFound, hLess, hScan⟩ := ih hLater
          exact ⟨found, hFound.cons hLess, hLess.trans hFirst, hScan⟩
        · have hFar : ∀ j ∈ rest, dist i ≤ dist j :=
            fun j hMem => not_lt.mp fun hLess => hLater ⟨j, hMem, hLess⟩
          exact ⟨i, .cons_self hFar, hFirst, scan_of_far hFar⟩
      · have hLater : ∃ j ∈ rest, dist j < best.2 := by
          obtain ⟨j, hMem, hLess⟩ := hNear
          rcases List.mem_cons.mp hMem with rfl | hRest
          · exact absurd hLess hFirst
          · exact ⟨j, hRest, hLess⟩
        obtain ⟨found, hFound, hLess, hScan⟩ := ih hLater
        exact ⟨found, hFound.cons (hLess.trans_le (not_lt.mp hFirst)), hLess, hScan⟩

/-- A scan comes no farther away. -/
theorem scan_snd_le : (scan dist best l).2 ≤ best.2 := by
  by_cases hNear : ∃ i ∈ l, dist i < best.2
  · obtain ⟨found, -, hLess, hScan⟩ := scan_of_near hNear
    rw [hScan]
    exact hLess.le
  · rw [scan_of_far fun i hMem => not_lt.mp fun hLess => hNear ⟨i, hMem, hLess⟩]

section Groups

/-- Either the distance is that of the best element so far, or all elements are nearer. -/
def Known (dist : ι → D) (best : ι × D) (l : List ι) : Prop :=
  best.2 ≤ dist best.1 ∨ ∀ i ∈ l, dist i < best.2

theorem Known.scan (hKnown : Known dist best l) (hSome : l ≠ []) :
    (scan dist best l).2 ≤ dist (scan dist best l).1 := by
  by_cases hNear : ∃ i ∈ l, dist i < best.2
  · obtain ⟨found, -, -, hScan⟩ := scan_of_near hNear
    rw [hScan]
  · have hFar : ∀ i ∈ l, best.2 ≤ dist i :=
      fun i hMem => not_lt.mp fun hLess => hNear ⟨i, hMem, hLess⟩
    rw [scan_of_far hFar]
    obtain ⟨i, hMem⟩ := List.exists_mem_of_ne_nil l hSome
    exact hKnown.resolve_right fun hAll => hNear ⟨i, hMem, hAll i hMem⟩

/-- A group is searched only if its bound is nearer than the best element so far. -/
def visit (dist : ι → D) (bound : D) (found : ι) (best : ι × D) : ι × D :=
  if bound < best.2 then if dist found < best.2 then (found, dist found) else best else best

theorem visit_eq_scan {bound : D} {found : ι} (hBound : ∀ i ∈ l, bound ≤ dist i)
    (hSome : l ≠ []) (hKnown : Known dist best l)
    (hFound : bound < best.2 → found = (scan dist best l).1) :
    visit dist bound found best = scan dist best l := by
  rw [visit]
  split_ifs with hVisit hNearer
  · rw [hFound hVisit] at hNearer ⊢
    by_cases hNear : ∃ i ∈ l, dist i < best.2
    · obtain ⟨found, -, -, hScan⟩ := scan_of_near hNear
      rw [hScan]
    · have hFar : ∀ i ∈ l, best.2 ≤ dist i :=
        fun i hMem => not_lt.mp fun hLess => hNear ⟨i, hMem, hLess⟩
      rw [scan_of_far hFar] at hNearer ⊢
      have hSelf := hKnown.scan hSome
      rw [scan_of_far hFar] at hSelf
      exact absurd hNearer (not_lt.mpr hSelf)
  · rw [hFound hVisit] at hNearer
    by_contra hOther
    have hNear : ∃ i ∈ l, dist i < best.2 := by
      by_contra hNone
      exact hOther (scan_of_far fun i hMem => not_lt.mp fun hLess => hNone ⟨i, hMem, hLess⟩).symm
    obtain ⟨found, -, hLess, hScan⟩ := scan_of_near hNear
    rw [hScan] at hNearer
    exact hNearer hLess
  · exact (scan_of_far fun i hMem => (not_lt.mp hVisit).trans (hBound i hMem)).symm

/-- The groups one after the other: what was left out would not have been found. -/
theorem foldl_visit {groups : List κ} {members : κ → List ι} {bound : κ → D}
    {found : κ → ι × D → ι} (hSome : ∀ group ∈ groups, members group ≠ [])
    (hBound : ∀ group ∈ groups, ∀ i ∈ members group, bound group ≤ dist i)
    (hFound : ∀ group ∈ groups, ∀ next : ι × D, next.2 ≤ best.2 → Known dist next (members group) →
      bound group < next.2 → found group next = (scan dist next (members group)).1)
    (hKnown : Known dist best (groups.flatMap members)) :
    groups.foldl (fun best group => visit dist (bound group) (found group best) best) best =
      scan dist best (groups.flatMap members) := by
  induction groups generalizing best with
  | nil => rfl
  | cons group rest ih =>
      have hFirst := List.mem_cons_self (a := group) (l := rest)
      have hHere : Known dist best (members group) :=
        hKnown.imp_right fun hAll i hMem => hAll i (List.mem_append_left _ hMem)
      rw [List.foldl_cons, List.flatMap_cons, scan_append,
        visit_eq_scan (hBound group hFirst) (hSome group hFirst) hHere
          (hFound group hFirst best le_rfl hHere)]
      refine ih (fun g hMem => hSome g (List.mem_cons_of_mem _ hMem))
        (fun g hMem => hBound g (List.mem_cons_of_mem _ hMem))
        (fun g hMem next hNext => hFound g (List.mem_cons_of_mem _ hMem) next (hNext.trans scan_snd_le))
        ?_
      exact .inl (hHere.scan (hSome group hFirst))

end Groups

end NearestSearch
