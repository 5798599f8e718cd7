import Mathlib.Data.List.Lex
import Mathlib.Data.List.Infix
import Mathlib.Data.Set.Finite.Lemmas
import Mathlib.Data.Set.Finite.List
import Mathlib.Order.Bounds.Basic

/-! Depth-first search which goes no further from some elements. Which those are depends on the
path by which the search comes to an element, and that is the first one in the lexicographic order
of the directions taken. -/
namespace DepthFirst

variable {α δ : Type*}

section Path

variable (move : α → δ → α) (start : α)

/-- The element at the end of a path, which is given by the directions taken. -/
def finish (path : List δ) : α := path.foldl move start

/-- The elements along a path. -/
def visits (path : List δ) : List α := path.scanl move start

variable {move start} {path : List δ}

@[simp] theorem finish_nil : finish move start [] = start := rfl

@[simp] theorem visits_nil : visits move start [] = [start] := rfl

@[simp] theorem finish_concat (path : List δ) (d : δ) :
    finish move start (path ++ [d]) = move (finish move start path) d := by
  simp [finish]

theorem visits_concat (path : List δ) (d : δ) :
    visits move start (path ++ [d]) =
      visits move start path ++ [move (finish move start path) d] := by
  induction path generalizing start with
  | nil => rfl
  | cons first rest ih =>
      simp only [visits, finish, List.cons_append, List.scanl_cons, List.foldl_cons] at ih ⊢
      rw [ih]

theorem length_visits (path : List δ) : (visits move start path).length = path.length + 1 :=
  List.length_scanl ..

theorem visits_eq (path : List δ) :
    visits move start path = (visits move start path).dropLast ++ [finish move start path] := by
  induction path using List.reverseRecOn with
  | nil => rfl
  | append_singleton path d _ => rw [visits_concat, List.dropLast_concat, finish_concat]

theorem finish_mem (path : List δ) : finish move start path ∈ visits move start path := by
  rw [visits_eq]
  simp

/-- The elements before the last one are the ends of shorter paths. -/
theorem mem_dropLast_visits {x : α} :
    x ∈ (visits move start path).dropLast ↔
      ∃ front d rest, path = front ++ d :: rest ∧ finish move start front = x := by
  induction path using List.reverseRecOn with
  | nil => simp
  | append_singleton path d ih =>
      rw [visits_concat, List.dropLast_concat, visits_eq, List.mem_append, ih,
        List.mem_singleton]
      constructor
      · rintro (⟨front, d', rest, rfl, rfl⟩ | rfl)
        · exact ⟨front, d', rest ++ [d], by simp, rfl⟩
        · exact ⟨path, d, [], rfl, rfl⟩
      · rintro ⟨front, d', rest, hPath, rfl⟩
        cases rest using List.reverseRecOn with
        | nil =>
            obtain ⟨rfl, -⟩ := List.append_inj' hPath rfl
            exact .inr rfl
        | append_singleton rest d'' =>
            rw [← List.cons_append, ← List.append_assoc] at hPath
            obtain ⟨rfl, -⟩ := List.append_inj' hPath rfl
            exact .inl ⟨front, d', rest, rfl, rfl⟩

end Path

section Open

variable (move : α → δ → α) (allowed : α → Prop) (start : α) (refused : Set α)

/-- A path over allowed elements which comes to none of them twice, and which goes on from no
refused one. -/
structure Open (path : List δ) : Prop where
  nodup : (visits move start path).Nodup
  allowed : ∀ x ∈ visits move start path, allowed x
  goesOn : ∀ x ∈ (visits move start path).dropLast, x ∉ refused

variable {move allowed start refused} {path : List δ}

theorem open_nil (hStart : allowed start) : Open move allowed start refused [] where
  nodup := List.nodup_singleton start
  allowed x hX := by
    cases List.mem_singleton.mp hX
    exact hStart
  goesOn x hX := by cases hX

theorem open_concat_iff {d : δ} :
    Open move allowed start refused (path ++ [d]) ↔
      Open move allowed start refused path ∧ finish move start path ∉ refused ∧
        allowed (move (finish move start path) d) ∧
        move (finish move start path) d ∉ visits move start path := by
  constructor
  · rintro ⟨hNodup, hAllowed, hGoesOn⟩
    rw [visits_concat] at hNodup hAllowed hGoesOn
    rw [List.dropLast_concat] at hGoesOn
    refine ⟨⟨hNodup.of_append_left, fun x hX => hAllowed x (List.mem_append_left _ hX),
      fun x hX => hGoesOn x (List.dropLast_subset _ hX)⟩, hGoesOn _ (finish_mem path),
      hAllowed _ (by simp), fun hMem => ?_⟩
    exact (List.disjoint_of_nodup_append hNodup) hMem (List.mem_singleton_self _)
  · rintro ⟨hOpen, hEnd, hAllowed, hNew⟩
    refine ⟨?_, ?_, ?_⟩
    · rw [visits_concat]
      refine hOpen.nodup.append (List.nodup_singleton _) ?_
      rw [List.disjoint_singleton]
      exact hNew
    · rw [visits_concat]
      intro x hX
      rcases List.mem_append.mp hX with hX | hX
      · exact hOpen.allowed x hX
      · cases List.mem_singleton.mp hX
        exact hAllowed
    · rw [visits_concat, List.dropLast_concat, visits_eq]
      intro x hX
      rcases List.mem_append.mp hX with hX | hX
      · exact hOpen.goesOn x hX
      · cases List.mem_singleton.mp hX
        exact hEnd

theorem Open.of_append {rest : List δ} (hOpen : Open move allowed start refused (path ++ rest)) :
    Open move allowed start refused path := by
  induction rest using List.reverseRecOn with
  | nil => rwa [List.append_nil] at hOpen
  | append_singleton rest d ih =>
      rw [← List.append_assoc] at hOpen
      exact ih (open_concat_iff.mp hOpen).1

/-- Two open paths to one element, one of which continues the other, are the same. -/
theorem Open.eq_of_prefix {front : List δ} (hOpen : Open move allowed start refused path)
    (hPrefix : front <+: path) (hSame : finish move start front = finish move start path) :
    front = path := by
  obtain ⟨rest, rfl⟩ := hPrefix
  cases rest with
  | nil => exact (List.append_nil front).symm
  | cons d rest =>
      have hBefore : finish move start front ∈
          (visits move start (front ++ d :: rest)).dropLast :=
        mem_dropLast_visits.mpr ⟨front, d, rest, rfl, rfl⟩
      have hNodup := hOpen.nodup
      rw [visits_eq] at hNodup
      exact absurd (List.mem_singleton.mpr hSame) (List.disjoint_of_nodup_append hNodup hBefore)

/-- In a finite space there are finitely many open paths. -/
theorem finite_open [Finite δ] (hFinite : {x | allowed x}.Finite) :
    {path | Open move allowed start refused path}.Finite := by
  classical
  refine (List.finite_length_le δ hFinite.toFinset.card).subset fun path hOpen => ?_
  have hSubset : (visits move start path).toFinset ⊆ hFinite.toFinset := by
    intro x hX
    exact hFinite.mem_toFinset.mpr (hOpen.allowed x (List.mem_toFinset.mp hX))
  have hLength : (visits move start path).length ≤ hFinite.toFinset.card := by
    rw [← List.toFinset_card_of_nodup hOpen.nodup]
    exact Finset.card_le_card hSubset
  rw [length_visits] at hLength
  exact Nat.le_of_succ_le hLength

end Open

section Settled

variable [LinearOrder δ] (move : α → δ → α) (allowed : α → Prop) (start : α)
  (refuses : List α → Prop) (refused : Set α)

/-- The first open path to an element. -/
def First (x : α) (path : List δ) : Prop :=
  IsLeast {path | Open move allowed start refused path ∧ finish move start path = x} path

/-- The refused elements are those to which the first open path is one that `refuses` tells to go
no further. Both sides speak of the refused elements; there is one solution. -/
def Settled : Prop :=
  ∀ x, x ∈ refused ↔
    ∃ path, First move allowed start refused x path ∧ refuses (visits move start path)

variable {move allowed start refuses refused} {path : List δ}

theorem First.unique {x : α} {path' : List δ} (hFirst : First move allowed start refused x path)
    (hFirst' : First move allowed start refused x path') : path = path' :=
  IsLeast.unique hFirst hFirst'

theorem exists_first [Finite δ] (hFinite : {x | allowed x}.Finite)
    (hOpen : Open move allowed start refused path) :
    ∃ first, First move allowed start refused (finish move start path) first := by
  obtain ⟨first, hFirst, hLeast⟩ := Set.exists_min_image
    {path' | Open move allowed start refused path' ∧
      finish move start path' = finish move start path} id
    ((finite_open hFinite).subset fun _ h => h.1) ⟨path, hOpen, rfl⟩
  exact ⟨first, hFirst, hLeast⟩

/-- What stands behind a shorter path does not matter, unless the other path continues it. -/
theorem append_lt_append {front front' : List δ} (hLess : front < front')
    (hParts : ¬front <+: front') (rest rest' : List δ) : front ++ rest < front' ++ rest' := by
  induction hLess with
  | nil => exact absurd (List.nil_prefix) hParts
  | cons _ ih => exact .cons (ih fun hPrefix => hParts (List.prefix_cons_inj _ |>.mpr hPrefix))
  | rel hFirst => exact .rel hFirst

theorem lt_append (path : List δ) (d : δ) (rest : List δ) : path < path ++ d :: rest := by
  have hLex := List.Lex.append_left (· < ·) (List.Lex.nil : List.Lex (· < ·) [] (d :: rest)) path
  rwa [List.append_nil] at hLex

/-- Where two sets of refused elements differ, the first open paths to some of the elements in
question show it. -/
theorem exists_first_of_ne {refused' : Set α} (hSettled : Settled move allowed start refuses refused)
    (hSettled' : Settled move allowed start refuses refused') {x : α}
    (hX : ¬(x ∈ refused ↔ x ∈ refused')) :
    ∃ path, First move allowed start refused x path ∨ First move allowed start refused' x path := by
  by_cases hMem : x ∈ refused
  · obtain ⟨path, hFirst, -⟩ := (hSettled x).mp hMem
    exact ⟨path, .inl hFirst⟩
  · have hMem' : x ∈ refused' := by
      by_contra hMem'
      exact hX ⟨fun h => absurd h hMem, fun h => absurd h hMem'⟩
    obtain ⟨path, hFirst, -⟩ := (hSettled' x).mp hMem'
    exact ⟨path, .inr hFirst⟩

/-- The first of all paths which show a difference is open for the other set as well, so both
decide alike at its end. -/
theorem Settled.decides_of_least [Finite δ] {refused' : Set α} (hFinite : {x | allowed x}.Finite)
    (hSettled : Settled move allowed start refuses refused)
    (hSettled' : Settled move allowed start refuses refused') {x : α}
    (hFirst : First move allowed start refused x path)
    (hLeast : ∀ y path', ¬(y ∈ refused ↔ y ∈ refused') →
      First move allowed start refused y path' ∨ First move allowed start refused' y path' →
      path ≤ path') : x ∈ refused ↔ x ∈ refused' := by
  by_contra hX
  obtain ⟨⟨hOpen, rfl⟩, hBelow⟩ := hFirst
  -- On the way to the end both sets agree: a difference there would show on a shorter path.
  have hOpen' : Open move allowed start refused' path := by
    refine ⟨hOpen.nodup, hOpen.allowed, fun y hY hRefused' => ?_⟩
    have hDiffers : ¬(y ∈ refused ↔ y ∈ refused') := fun h => hOpen.goesOn y hY (h.mpr hRefused')
    obtain ⟨front, d, rest, rfl, rfl⟩ := mem_dropLast_visits.mp hY
    obtain ⟨first, hFront⟩ := exists_first hFinite hOpen.of_append
    have hShorter : first ≤ front := hFront.2 ⟨hOpen.of_append, rfl⟩
    have hLonger := hLeast _ first hDiffers (.inl hFront)
    exact absurd (lt_append front d rest) (not_lt.mpr (hLonger.trans hShorter))
  obtain ⟨first, hFirst'⟩ := exists_first hFinite hOpen'
  have hSame : first = path :=
    le_antisymm (hFirst'.2 ⟨hOpen', rfl⟩) (hLeast _ first hX (.inr hFirst'))
  subst hSame
  refine hX ((hSettled _).trans (Iff.trans ?_ (hSettled' _).symm))
  constructor
  · rintro ⟨path', hPath', hRefuses⟩
    cases hPath'.unique ⟨⟨hOpen, rfl⟩, hBelow⟩
    exact ⟨first, hFirst', hRefuses⟩
  · rintro ⟨path', hPath', hRefuses⟩
    cases hPath'.unique hFirst'
    exact ⟨first, ⟨⟨hOpen, rfl⟩, hBelow⟩, hRefuses⟩

/-- In a finite space there is at most one solution. -/
theorem Settled.unique [Finite δ] {refused' : Set α} (hFinite : {x | allowed x}.Finite)
    (hSettled : Settled move allowed start refuses refused)
    (hSettled' : Settled move allowed start refuses refused') : refused = refused' := by
  by_contra hNe
  obtain ⟨x, hX⟩ : ∃ x, ¬(x ∈ refused ↔ x ∈ refused') := by
    by_contra hAll
    push Not at hAll
    exact hNe (Set.ext hAll)
  let showing : Set (List δ) := {path | ∃ x, ¬(x ∈ refused ↔ x ∈ refused') ∧
    (First move allowed start refused x path ∨ First move allowed start refused' x path)}
  have hShowing : showing.Finite := by
    have hOpens : ({path | Open move allowed start refused path} ∪
        {path | Open move allowed start refused' path}).Finite :=
      (finite_open hFinite).union (finite_open hFinite)
    refine hOpens.subset ?_
    rintro path ⟨x, -, hFirst | hFirst⟩
    · exact .inl hFirst.1.1
    · exact .inr hFirst.1.1
  obtain ⟨path, hPath⟩ := exists_first_of_ne hSettled hSettled' hX
  obtain ⟨least, ⟨y, hY, hFirst⟩, hLeast⟩ :=
    Set.exists_min_image showing id hShowing ⟨path, x, hX, hPath⟩
  rcases hFirst with hFirst | hFirst
  · exact hY (hSettled.decides_of_least hFinite hSettled' hFirst
      fun z path' hZ hPath' => hLeast path' ⟨z, hZ, hPath'⟩)
  · refine hY (Iff.symm (hSettled'.decides_of_least hFinite hSettled hFirst ?_))
    intro z path' hZ hPath'
    exact hLeast path' ⟨z, fun h => hZ h.symm, hPath'.symm⟩

end Settled

/-! The search itself, with a stack of paths. -/

/-- The marked elements, and the paths which wait, the next one in front. -/
structure Search (α δ : Type*) where
  marked : Set α
  stack : List (List δ)

section Search

variable [LinearOrder δ] (move : α → δ → α) (allowed : α → Prop) (start : α)
  (refuses : List α → Prop) (refused : Set α)

/-- A path to a marked element is dropped. Any other element is marked, and unless it is refused,
its unmarked neighbours follow on the stack. -/
inductive Step : Search α δ → Search α δ → Prop where
  | drop {marked : Set α} {path : List δ} {rest : List (List δ)}
      (hMarked : finish move start path ∈ marked) :
      Step ⟨marked, path :: rest⟩ ⟨marked, rest⟩
  | visit {marked : Set α} {path : List δ} {rest : List (List δ)} (dirs : List δ)
      (hFresh : finish move start path ∉ marked)
      (hDecides : finish move start path ∈ refused ↔ refuses (visits move start path))
      (hOrder : dirs.Pairwise (· < ·))
      (hNext : ∀ d, d ∈ dirs ↔ finish move start path ∉ refused ∧
        allowed (move (finish move start path) d) ∧
        move (finish move start path) d ∉ insert (finish move start path) marked) :
      Step ⟨marked, path :: rest⟩
        ⟨insert (finish move start path) marked, dirs.map (fun d => path ++ [d]) ++ rest⟩

/-- The search goes along the paths in their order. -/
structure Ordered (s : Search α δ) : Prop where
  opens : ∀ path ∈ s.stack, Open move allowed start refused path ∧
    ∀ x ∈ (visits move start path).dropLast, x ∈ s.marked
  sorted : s.stack.Pairwise fun path path' => path < path' ∧ ¬path <+: path'
  first : start ∈ s.marked ∨ [] ∈ s.stack
  /-- A marked element was reached by the first path, and its neighbours are marked or wait behind
  this path. -/
  reached : ∀ x ∈ s.marked, ∃ path, First move allowed start refused x path ∧
    (x ∈ refused ↔ refuses (visits move start path)) ∧
    (x ∉ refused → ∀ d, allowed (move x d) → move x d ∈ s.marked ∨ path ++ [d] ∈ s.stack)

variable {move allowed start refuses refused} {s s' : Search α δ}

theorem ordered_start (hStart : allowed start) :
    Ordered move allowed start refuses refused ⟨∅, [[]]⟩ where
  opens path hPath := by
    cases List.mem_singleton.mp hPath
    exact ⟨open_nil hStart, fun x hX => by cases hX⟩
  sorted := List.pairwise_singleton ..
  first := .inr (List.mem_singleton_self _)
  reached x hX := absurd hX (Set.notMem_empty x)

/-- Every open path to an unmarked element has a path on the stack before it. -/
theorem Ordered.exists_le (hOrdered : Ordered move allowed start refuses refused s)
    {path : List δ} (hOpen : Open move allowed start refused path)
    (hFresh : finish move start path ∉ s.marked) : ∃ first ∈ s.stack, first ≤ path := by
  induction path using List.reverseRecOn with
  | nil => exact ⟨[], hOrdered.first.resolve_left hFresh, le_refl _⟩
  | append_singleton path d ih =>
      obtain ⟨hFront, hGoesOn, hAllowed, -⟩ := open_concat_iff.mp hOpen
      by_cases hMarked : finish move start path ∈ s.marked
      · obtain ⟨first, hFirst, -, hNext⟩ := hOrdered.reached _ hMarked
        rw [finish_concat] at hFresh
        refine ⟨first ++ [d], (hNext hGoesOn d hAllowed).resolve_left hFresh, ?_⟩
        by_cases hSame : first = path
        · rw [hSame]
        · have hLess : first < path := lt_of_le_of_ne (hFirst.2 ⟨hFront, rfl⟩) hSame
          exact (append_lt_append hLess
            (fun hPrefix => hSame (hFront.eq_of_prefix hPrefix hFirst.1.2)) [d] [d]).le
      · obtain ⟨first, hFirst, hLe⟩ := ih hFront hMarked
        exact ⟨first, hFirst, hLe.trans (lt_append path d []).le⟩

section Visit

variable {marked : Set α} {path : List δ} {rest : List (List δ)}

/-- The path on top of the stack is the first one to its end. -/
theorem Ordered.first_top (hOrdered : Ordered move allowed start refuses refused
      ⟨marked, path :: rest⟩) (hFresh : finish move start path ∉ marked) :
    First move allowed start refused (finish move start path) path := by
  refine ⟨⟨(hOrdered.opens path (List.mem_cons_self ..)).1, rfl⟩, ?_⟩
  rintro path' ⟨hOpen, hEnd⟩
  obtain ⟨first, hFirst, hLe⟩ := hOrdered.exists_le hOpen (hEnd ▸ hFresh)
  rcases List.mem_cons.mp hFirst with rfl | hRest
  · exact hLe
  · exact ((List.pairwise_cons.mp hOrdered.sorted).1 first hRest).1.le.trans hLe

theorem Ordered.drop (hOrdered : Ordered move allowed start refuses refused
      ⟨marked, path :: rest⟩) (hMarked : finish move start path ∈ marked) :
    Ordered move allowed start refuses refused ⟨marked, rest⟩ where
  opens path' hPath' := hOrdered.opens path' (List.mem_cons_of_mem _ hPath')
  sorted := (List.pairwise_cons.mp hOrdered.sorted).2
  first := by
    rcases hOrdered.first with hFirst | hFirst
    · exact .inl hFirst
    · rcases List.mem_cons.mp hFirst with rfl | hRest
      · exact .inl hMarked
      · exact .inr hRest
  reached x hX := by
    obtain ⟨first, hFirst, hDecides, hNext⟩ := hOrdered.reached x hX
    refine ⟨first, hFirst, hDecides, fun hGoesOn d hAllowed => ?_⟩
    rcases hNext hGoesOn d hAllowed with hBeside | hWaits
    · exact .inl hBeside
    · rcases List.mem_cons.mp hWaits with rfl | hRest
      · rw [finish_concat, hFirst.1.2] at hMarked
        exact .inl hMarked
      · exact .inr hRest

variable {dirs : List δ}

theorem Ordered.sorted_visit (hOrdered : Ordered move allowed start refuses refused
      ⟨marked, path :: rest⟩) (hOrder : dirs.Pairwise (· < ·)) :
    (dirs.map (fun d => path ++ [d]) ++ rest).Pairwise
      fun path path' => path < path' ∧ ¬path <+: path' := by
  obtain ⟨hTop, hRest⟩ := List.pairwise_cons.mp hOrdered.sorted
  refine List.pairwise_append.mpr ⟨List.pairwise_map.mpr (hOrder.imp ?_), hRest, ?_⟩
  · intro d d' hLess
    refine ⟨List.Lex.append_left _ (.rel hLess) path, fun hPrefix => ?_⟩
    have hSame := hPrefix.eq_of_length (by simp)
    exact hLess.ne (List.singleton_inj.mp (List.append_cancel_left hSame))
  · intro path' hPath' path'' hPath''
    obtain ⟨d, -, rfl⟩ := List.mem_map.mp hPath'
    obtain ⟨hLess, hParts⟩ := hTop path'' hPath''
    refine ⟨?_, fun hPrefix => hParts ((List.prefix_append path [d]).trans hPrefix)⟩
    have hAppend := append_lt_append hLess hParts [d] []
    rwa [List.append_nil] at hAppend

theorem Ordered.visit (hOrdered : Ordered move allowed start refuses refused
      ⟨marked, path :: rest⟩) (hFresh : finish move start path ∉ marked)
    (hDecides : finish move start path ∈ refused ↔ refuses (visits move start path))
    (hOrder : dirs.Pairwise (· < ·))
    (hNext : ∀ d, d ∈ dirs ↔ finish move start path ∉ refused ∧
      allowed (move (finish move start path) d) ∧
      move (finish move start path) d ∉ insert (finish move start path) marked) :
    Ordered move allowed start refuses refused
      ⟨insert (finish move start path) marked, dirs.map (fun d => path ++ [d]) ++ rest⟩ := by
  refine ⟨?opens, hOrdered.sorted_visit hOrder, ?first, ?reached⟩
  case opens =>
    intro path' hPath'
    rcases List.mem_append.mp hPath' with hNew | hRest
    · obtain ⟨d, hD, rfl⟩ := List.mem_map.mp hNew
      obtain ⟨hOpen, hBefore⟩ := hOrdered.opens path (List.mem_cons_self ..)
      obtain ⟨hGoesOn, hAllowed, hBeside⟩ := (hNext d).mp hD
      have hVisited : ∀ x ∈ visits move start path, x ∈ insert (finish move start path) marked := by
        intro x hX
        rw [visits_eq] at hX
        rcases List.mem_append.mp hX with hX | hX
        · exact .inr (hBefore x hX)
        · exact .inl (List.mem_singleton.mp hX)
      refine ⟨open_concat_iff.mpr ⟨hOpen, hGoesOn, hAllowed, fun hMem => ?_⟩, ?_⟩
      · exact hBeside (hVisited _ hMem)
      · rwa [visits_concat, List.dropLast_concat]
    · obtain ⟨hOpen, hBefore⟩ := hOrdered.opens path' (List.mem_cons_of_mem _ hRest)
      exact ⟨hOpen, fun x hX => .inr (hBefore x hX)⟩
  case first =>
    rcases hOrdered.first with hFirst | hFirst
    · exact .inl (.inr hFirst)
    · rcases List.mem_cons.mp hFirst with rfl | hRest
      · exact .inl (.inl rfl)
      · exact .inr (List.mem_append_right _ hRest)
  case reached =>
    rintro x (rfl | hX)
    · refine ⟨path, hOrdered.first_top hFresh, hDecides, fun hGoesOn d hAllowed => ?_⟩
      by_cases hBeside : move (finish move start path) d ∈
          insert (finish move start path) marked
      · exact .inl hBeside
      · have hD : d ∈ dirs := (hNext d).mpr ⟨hGoesOn, hAllowed, hBeside⟩
        exact .inr (List.mem_append_left _ (List.mem_map_of_mem hD))
    · obtain ⟨first, hFirst, hDecides', hNext'⟩ := hOrdered.reached x hX
      refine ⟨first, hFirst, hDecides', fun hGoesOn d hAllowed => ?_⟩
      rcases hNext' hGoesOn d hAllowed with hBeside | hWaits
      · exact .inl (.inr hBeside)
      · rcases List.mem_cons.mp hWaits with rfl | hRest
        · refine .inl (.inl ?_)
          rw [finish_concat, hFirst.1.2]
        · exact .inr (List.mem_append_right _ hRest)

end Visit

theorem Ordered.step (hOrdered : Ordered move allowed start refuses refused s)
    (hStep : Step move allowed start refuses refused s s') :
    Ordered move allowed start refuses refused s' := by
  cases hStep with
  | drop hMarked => exact hOrdered.drop hMarked
  | visit dirs hFresh hDecides hOrder hNext => exact hOrdered.visit hFresh hDecides hOrder hNext

/-- When nothing waits any more, the elements which the search has refused are the settled ones. -/
theorem Ordered.settled (hOrdered : Ordered move allowed start refuses refused s)
    (hEmpty : s.stack = []) (hRefused : refused ⊆ s.marked) :
    Settled move allowed start refuses refused := by
  intro x
  constructor
  · intro hX
    obtain ⟨path, hFirst, hDecides, -⟩ := hOrdered.reached x (hRefused hX)
    exact ⟨path, hFirst, hDecides.mp hX⟩
  · rintro ⟨path, hFirst, hRefuses⟩
    have hMarked : x ∈ s.marked := by
      by_contra hFresh
      obtain ⟨first, hWaits, -⟩ := hOrdered.exists_le hFirst.1.1 (hFirst.1.2 ▸ hFresh)
      rw [hEmpty] at hWaits
      cases hWaits
    obtain ⟨path', hFirst', hDecides, -⟩ := hOrdered.reached x hMarked
    rw [hDecides, hFirst'.unique hFirst]
    exact hRefuses

end Search

end DepthFirst
