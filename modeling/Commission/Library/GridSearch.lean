import Mathlib.Data.Finset.Card
import Mathlib.Data.Finset.Prod
import Mathlib.Data.Finset.Sum
import Mathlib.Data.List.Pairwise
import Mathlib.Data.Set.Insert
import Mathlib.Logic.Relation

/-! Depth-first search of a rectangular grid with a stack of cells. A cell is marked when
it is taken from the stack, so it can lie on the stack several times; that the stack never
holds more entries than the grid has cells is due to the order of the four neighbours. -/
namespace GridSearch

/-- A cell by column and row; rows are counted downwards. -/
abbrev Cell := ℤ × ℤ

inductive Dir where
  | up
  | down
  | left
  | right
  deriving DecidableEq

def move (c : Cell) : Dir → Cell
  | .up => (c.1, c.2 - 1)
  | .down => (c.1, c.2 + 1)
  | .left => (c.1 - 1, c.2)
  | .right => (c.1 + 1, c.2)

def InGrid (width height : ℕ) (c : Cell) : Prop :=
  0 ≤ c.1 ∧ c.1 < width ∧ 0 ≤ c.2 ∧ c.2 < height

instance (width height : ℕ) : DecidablePred (InGrid width height) :=
  fun c => inferInstanceAs (Decidable (0 ≤ c.1 ∧ c.1 < width ∧ 0 ≤ c.2 ∧ c.2 < height))

/-- The cells of a grid. -/
def gridCells (width height : ℕ) : Finset Cell :=
  (Finset.range width ×ˢ Finset.range height).image fun place => ((place.1 : ℤ), (place.2 : ℤ))

theorem mem_gridCells {width height : ℕ} {c : Cell} :
    c ∈ gridCells width height ↔ InGrid width height c := by
  simp only [gridCells, Finset.mem_image, Finset.mem_product, Finset.mem_range, Prod.exists]
  constructor
  · rintro ⟨i, j, ⟨hI, hJ⟩, rfl⟩
    exact ⟨Int.natCast_nonneg i, Int.ofNat_lt.mpr hI, Int.natCast_nonneg j, Int.ofNat_lt.mpr hJ⟩
  · rintro ⟨hI, hI', hJ, hJ'⟩
    refine ⟨c.1.toNat, c.2.toNat, ⟨by omega, by omega⟩, ?_⟩
    exact Prod.ext (Int.toNat_of_nonneg hI) (Int.toNat_of_nonneg hJ)

theorem card_gridCells (width height : ℕ) : (gridCells width height).card = width * height := by
  rw [gridCells, Finset.card_image_of_injective, Finset.card_product, Finset.card_range,
    Finset.card_range]
  intro place place' hSame
  simp only [Prod.mk.injEq, Int.natCast_inj] at hSame
  exact Prod.ext hSame.1 hSame.2

/-- The neighbours of a cell in the order in which they leave the stack. -/
def takeOrder : List Dir := [.right, .left, .down, .up]

structure Search where
  marked : Set Cell
  stack : List Cell

/-- A marked cell is dropped. Any other cell is marked, and some of its neighbours which
are not go on the stack; that there are none covers a cell which the search refuses. -/
inductive Step (width height : ℕ) : Search → Search → Prop where
  | drop {marked : Set Cell} {c : Cell} {rest : List Cell} (hMarked : c ∈ marked) :
      Step width height ⟨marked, c :: rest⟩ ⟨marked, rest⟩
  | visit {marked : Set Cell} {c : Cell} {rest : List Cell} (dirs : List Dir)
      (hFresh : c ∉ marked) (hOrder : dirs.Sublist takeOrder)
      (hNext : ∀ d ∈ dirs, InGrid width height (move c d) ∧ move c d ∉ insert c marked) :
      Step width height ⟨marked, c :: rest⟩ ⟨insert c marked, dirs.map (move c) ++ rest⟩

/-- The part of the stack which one visited cell has put there: the directions which are
still on it, and the direction by which the cell itself was reached. -/
structure Frame where
  cell : Cell
  via : Option Dir
  left : List Dir

namespace Frame

/-- Every entry of the stack is charged to a cell of all rows but the last one, or to one
of two extra slots. -/
def slot (f : Frame) : Dir → Cell ⊕ Bool
  | .up => .inl (move f.cell .up)
  | .down => .inl f.cell
  | .left =>
      match f.via with
      | some .down => .inl (move f.cell .up)
      | some .up => .inl f.cell
      | none => .inr false
      | _ => .inr true
  | .right => .inr true

def entries (f : Frame) : List Cell := f.left.map (move f.cell)

def slots (f : Frame) : List (Cell ⊕ Bool) := f.left.map f.slot

end Frame

/-- The direction back. -/
def Dir.back : Dir → Dir
  | .up => .down
  | .down => .up
  | .left => .right
  | .right => .left

@[simp] theorem move_move_back (c : Cell) (d : Dir) : move (move c d) d.back = c := by
  cases d <;> simp [move, Dir.back]

@[simp] theorem move_inj {c c' : Cell} (d : Dir) : move c d = move c' d ↔ c = c' := by
  cases d <;> simp [move, Prod.ext_iff]

/-- What a frame satisfies alone. -/
structure Frame.Sound (width height : ℕ) (marked : Set Cell) (f : Frame) : Prop where
  inGrid : InGrid width height f.cell
  visited : f.cell ∈ marked
  order : f.left.Sublist takeOrder
  next : ∀ d ∈ f.left, InGrid width height (move f.cell d)
  parent : ∀ d ∈ f.via, move f.cell d.back ∈ marked ∧ InGrid width height (move f.cell d.back) ∧
    d.back ∉ f.left

/-- What holds between a frame `g` and any frame `f` below it. -/
structure Frame.Over (g f : Frame) : Prop where
  cell : g.cell ≠ f.cell
  next : ∀ d ∈ g.left, move g.cell d ≠ f.cell
  /-- The parent has only those directions left which come after the one taken. -/
  later : ∀ d ∈ g.via, g.cell = move f.cell d → ∀ d' ∈ f.left, [d, d'].Sublist takeOrder
  parent : ∀ d ∈ f.via, g.cell ≠ move f.cell d.back
  via : g.via ≠ none
  noRight : .right ∉ f.left
  noLeft : f.via = some .left → .left ∉ f.left

/-- The stack is made of frames. -/
structure Chain (width height : ℕ) (s : Search) (frames : List Frame) : Prop where
  stack : s.stack = frames.flatMap Frame.entries
  sound : ∀ f ∈ frames, f.Sound width height s.marked
  nested : frames.Pairwise Frame.Over

variable {width height : ℕ} {marked : Set Cell} {f g : Frame}

theorem Frame.slot_eq_inl {d : Dir} {c : Cell} (hSlot : f.slot d = .inl c) :
    (c = move f.cell .up ∧ (d = .up ∨ d = .left ∧ f.via = some .down)) ∨
      (c = f.cell ∧ (d = .down ∨ d = .left ∧ f.via = some .up)) := by
  obtain ⟨cell, via, dirs⟩ := f
  rcases via with _ | _ | _ | _ | _ <;> cases d <;> simp_all [Frame.slot]

theorem Frame.slot_eq_inr {d : Dir} {top : Bool} (hSlot : f.slot d = .inr top) :
    (top = false ∧ d = .left ∧ f.via = none) ∨
      (top = true ∧ (d = .right ∨ d = .left ∧ (f.via = some .left ∨ f.via = some .right))) := by
  obtain ⟨cell, via, dirs⟩ := f
  rcases via with _ | _ | _ | _ | _ <;> cases d <;> simp_all [Frame.slot]

theorem move_up_ne (c : Cell) : move c .up ≠ c := by
  simp [move, Prod.ext_iff]

theorem Frame.Sound.back_notMem (hSound : f.Sound width height marked) {d : Dir}
    (hVia : f.via = some d) : d.back ∉ f.left :=
  (hSound.parent d hVia).2.2

/-- Two entries of one frame have different slots: only the way back could share one, and
that is not on the stack. -/
theorem Frame.Sound.slot_injOn (hSound : f.Sound width height marked) {d d' : Dir}
    (hD : d ∈ f.left) (hD' : d' ∈ f.left) (hSlot : f.slot d = f.slot d') : d = d' := by
  have hBack {e : Dir} (hVia : f.via = some e) := hSound.back_notMem hVia
  cases hAt : f.slot d with
  | inl c =>
      rcases Frame.slot_eq_inl hAt with ⟨rfl, hUp⟩ | ⟨rfl, hDown⟩ <;>
        rcases Frame.slot_eq_inl (hSlot ▸ hAt) with ⟨hC, hUp'⟩ | ⟨hC, hDown'⟩
      · grind [Dir.back]
      · exact absurd hC (move_up_ne _)
      · exact absurd hC.symm (move_up_ne _)
      · grind [Dir.back]
  | inr top =>
      have hFirst := Frame.slot_eq_inr hAt
      have hSecond := Frame.slot_eq_inr (hSlot ▸ hAt)
      grind [Dir.back]

/-- Entries of two frames have different slots. -/
theorem Frame.Over.slot_ne (hOver : g.Over f) (hSound : f.Sound width height marked) {d d' : Dir}
    (hD : d ∈ g.left) (hD' : d' ∈ f.left) : g.slot d ≠ f.slot d' := by
  intro hSlot
  cases hAt : g.slot d with
  | inl c =>
      rcases Frame.slot_eq_inl hAt with ⟨rfl, hUp⟩ | ⟨rfl, hDown⟩ <;>
        rcases Frame.slot_eq_inl (hSlot ▸ hAt) with ⟨hC, hUp'⟩ | ⟨hC, hDown'⟩
      · exact hOver.cell ((move_inj .up).mp hC)
      · -- the cell of `f` lies above that of `g`
        rcases hUp with rfl | ⟨rfl, hVia⟩
        · exact hOver.next .up hD hC
        · have hLater := hOver.later .down hVia (by rw [← hC]; simp [move]) d' hD'
          rcases hDown' with rfl | ⟨rfl, -⟩ <;> revert hLater <;> decide
      · -- the cell of `g` lies above that of `f`
        rcases hUp' with rfl | ⟨rfl, hVia'⟩
        · rcases hDown with rfl | ⟨rfl, hVia⟩
          · exact hOver.next .down hD (by rw [hC]; simp [move])
          · have hLater := hOver.later .up hVia hC .up hD'
            revert hLater
            decide
        · exact hOver.parent .down hVia' hC
      · exact hOver.cell hC
  | inr top =>
      rcases Frame.slot_eq_inr (hSlot ▸ hAt) with ⟨rfl, -, hVia⟩ | ⟨rfl, rfl | ⟨rfl, hVia | hVia⟩⟩
      · rcases Frame.slot_eq_inr hAt with ⟨-, -, hNone⟩ | ⟨hTop, -⟩
        · exact hOver.via hNone
        · cases hTop
      · exact hOver.noRight hD'
      · exact hOver.noLeft hVia hD'
      · exact hSound.back_notMem hVia hD'

/-- The slots: all rows but the last one, and two more where a row has neighbours in it. -/
def slotSet (width height : ℕ) : Finset (Cell ⊕ Bool) :=
  (gridCells width (height - 1)).disjSum (if 2 ≤ width then Finset.univ else ∅)

theorem card_slotSet_le (hHeight : 1 ≤ height) :
    (slotSet width height).card ≤ width * height := by
  obtain ⟨rows, rfl⟩ : ∃ rows, height = rows + 1 := ⟨height - 1, by omega⟩
  rw [slotSet, Finset.card_disjSum, card_gridCells, Nat.add_sub_cancel, Nat.mul_succ]
  apply Nat.add_le_add_left
  split
  · simpa
  · simp

theorem Frame.Sound.slot_mem (hSound : f.Sound width height marked) {d : Dir} (hD : d ∈ f.left) :
    f.slot d ∈ slotSet width height := by
  have hCell := hSound.inGrid
  have hNext := hSound.next d hD
  cases hAt : f.slot d with
  | inl c =>
      simp only [slotSet, Finset.inl_mem_disjSum, mem_gridCells]
      rcases Frame.slot_eq_inl hAt with ⟨rfl, rfl | ⟨rfl, hVia⟩⟩ | ⟨rfl, rfl | ⟨rfl, hVia⟩⟩
      · simp only [InGrid, move] at hCell hNext ⊢
        omega
      · have hParent := (hSound.parent _ hVia).2.1
        simp only [InGrid, move, Dir.back] at hCell hParent ⊢
        omega
      · simp only [InGrid, move] at hCell hNext ⊢
        omega
      · have hParent := (hSound.parent _ hVia).2.1
        simp only [InGrid, move, Dir.back] at hCell hParent ⊢
        omega
  | inr top =>
      have hWide : 2 ≤ width := by
        rcases Frame.slot_eq_inr hAt with ⟨-, rfl, -⟩ | ⟨-, rfl | ⟨rfl, -⟩⟩ <;>
          simp only [InGrid, move] at hCell hNext <;> omega
      simp [slotSet, hWide]

theorem Frame.Sound.nodup_slots (hSound : f.Sound width height marked) : f.slots.Nodup := by
  have hOrder : takeOrder.Nodup := by decide
  exact (hSound.order.nodup hOrder).map_on fun d hD d' hD' => hSound.slot_injOn hD hD'

variable {s s' : Search} {frames : List Frame}

theorem Chain.nodup_slots (hChain : Chain width height s frames) :
    (frames.flatMap Frame.slots).Nodup := by
  rw [List.nodup_flatMap]
  refine ⟨fun f hF => (hChain.sound f hF).nodup_slots, ?_⟩
  refine hChain.nested.imp_of_mem fun {g f} hG hF hOver => ?_
  intro slot hSlotG hSlotF
  obtain ⟨d, hD, rfl⟩ := List.mem_map.mp hSlotG
  obtain ⟨d', hD', hSame⟩ := List.mem_map.mp hSlotF
  exact hOver.slot_ne (hChain.sound f hF) hD hD' hSame.symm

theorem Chain.length_stack_le (hChain : Chain width height s frames) (hHeight : 1 ≤ height) :
    s.stack.length ≤ width * height := by
  have hLength : s.stack.length = (frames.flatMap Frame.slots).length := by
    simp [hChain.stack, List.length_flatMap, Frame.entries, Frame.slots]
  have hSubset : (frames.flatMap Frame.slots).toFinset ⊆ slotSet width height := by
    intro slot hSlot
    obtain ⟨f, hF, hSlotF⟩ := List.mem_flatMap.mp (List.mem_toFinset.mp hSlot)
    obtain ⟨d, hD, rfl⟩ := List.mem_map.mp hSlotF
    exact (hChain.sound f hF).slot_mem hD
  calc s.stack.length
      = (frames.flatMap Frame.slots).toFinset.card := by
        rw [hLength, List.toFinset_card_of_nodup hChain.nodup_slots]
    _ ≤ (slotSet width height).card := Finset.card_le_card hSubset
    _ ≤ width * height := card_slotSet_le hHeight

theorem Frame.Sound.mono {marked' : Set Cell} {ds : List Dir} (hSound : f.Sound width height marked)
    (hLeft : ds.Sublist f.left) (hMarked : marked ⊆ marked') :
    Frame.Sound width height marked' { f with left := ds } where
  inGrid := hSound.inGrid
  visited := hMarked hSound.visited
  order := hLeft.trans hSound.order
  next d hD := hSound.next d (hLeft.subset hD)
  parent d hVia := by
    obtain ⟨hParent, hInGrid, hBack⟩ := hSound.parent d hVia
    exact ⟨hMarked hParent, hInGrid, fun hMem => hBack (hLeft.subset hMem)⟩

theorem Frame.Over.pop {d : Dir} {ds : List Dir} (hOver : g.Over f) (hLeft : g.left = d :: ds) :
    Frame.Over { g with left := ds } f where
  cell := hOver.cell
  next d' hD' := hOver.next d' (hLeft ▸ List.mem_cons_of_mem d hD')
  later := hOver.later
  parent := hOver.parent
  via := hOver.via
  noRight := hOver.noRight
  noLeft := hOver.noLeft

/-- Taking the next entry of the topmost frame. -/
theorem Chain.pop {marked' : Set Cell} {f : Frame} {fs : List Frame} {d : Dir} {ds : List Dir}
    (hChain : Chain width height s (f :: fs)) (hLeft : f.left = d :: ds)
    (hMarked : s.marked ⊆ marked') :
    Chain width height ⟨marked', ds.map (move f.cell) ++ fs.flatMap Frame.entries⟩
      ({ f with left := ds } :: fs) where
  stack := rfl
  sound := by
    intro g hG
    rcases List.mem_cons.mp hG with rfl | hG
    · exact (hChain.sound f List.mem_cons_self).mono (hLeft ▸ List.sublist_cons_self d ds) hMarked
    · exact (hChain.sound g (List.mem_cons_of_mem f hG)).mono (List.Sublist.refl _) hMarked
  nested := by
    obtain ⟨hTop, hRest⟩ := List.pairwise_cons.mp hChain.nested
    exact List.pairwise_cons.mpr ⟨fun g hG => (hTop g hG).pop hLeft, hRest⟩

/-- The frames above the one whose entry is next have nothing left. -/
theorem Chain.top {c : Cell} {rest : List Cell} (hChain : Chain width height s frames)
    (hStack : s.stack = c :: rest) :
    ∃ (f : Frame) (fs : List Frame) (d : Dir) (ds : List Dir), Chain width height s (f :: fs) ∧
      f.left = d :: ds ∧ c = move f.cell d ∧
      rest = ds.map (move f.cell) ++ fs.flatMap Frame.entries := by
  induction frames with
  | nil =>
      rw [hChain.stack] at hStack
      cases hStack
  | cons f fs ih =>
      cases hLeft : f.left with
      | nil =>
          refine ih ⟨?_, fun g hG => hChain.sound g (List.mem_cons_of_mem f hG),
            (List.pairwise_cons.mp hChain.nested).2⟩
          rw [hChain.stack, List.flatMap_cons, Frame.entries, hLeft]
          rfl
      | cons d ds =>
          refine ⟨f, fs, d, ds, hChain, hLeft, ?_⟩
          rw [hChain.stack, List.flatMap_cons, Frame.entries, hLeft, List.map_cons,
            List.cons_append, List.cons.injEq] at hStack
          exact ⟨hStack.1.symm, hStack.2.symm⟩

section Visit

variable {fs : List Frame} {d : Dir} {ds dirs : List Dir}

theorem Frame.Sound.visit (hSound : f.Sound width height marked) (hLeft : f.left = d :: ds)
    (hOrder : dirs.Sublist takeOrder)
    (hNext : ∀ d' ∈ dirs, InGrid width height (move (move f.cell d) d') ∧
      move (move f.cell d) d' ∉ insert (move f.cell d) marked) :
    Frame.Sound width height (insert (move f.cell d) marked) ⟨move f.cell d, some d, dirs⟩ where
  inGrid := hSound.next d (by simp [hLeft])
  visited := Set.mem_insert _ _
  order := hOrder
  next d' hD' := (hNext d' hD').1
  parent := by
    rintro d' ⟨⟩
    rw [move_move_back]
    refine ⟨Set.mem_insert_of_mem _ hSound.visited, hSound.inGrid, fun hBack => ?_⟩
    refine (hNext _ hBack).2 (Set.mem_insert_of_mem _ ?_)
    rw [move_move_back]
    exact hSound.visited

/-- The frame of a cell lies over that of the cell from which it was reached. -/
theorem Frame.Sound.over_visit (hSound : f.Sound width height marked) (hLeft : f.left = d :: ds)
    (hFresh : move f.cell d ∉ marked)
    (hNext : ∀ d' ∈ dirs, move (move f.cell d) d' ∉ insert (move f.cell d) marked) :
    Frame.Over ⟨move f.cell d, some d, dirs⟩ { f with left := ds } where
  cell := (ne_of_mem_of_not_mem hSound.visited hFresh).symm
  next d' hD' :=
    (ne_of_mem_of_not_mem (Set.mem_insert_of_mem _ hSound.visited) (hNext d' hD')).symm
  later := by
    rintro d' ⟨⟩ - e hE
    exact ((List.singleton_sublist.mpr hE).cons_cons d).trans (hLeft ▸ hSound.order)
  parent e hVia := (ne_of_mem_of_not_mem (hSound.parent e hVia).1 hFresh).symm
  via := Option.some_ne_none d
  noRight hRight := by
    have hLater := ((List.singleton_sublist.mpr hRight).cons_cons d).trans (hLeft ▸ hSound.order)
    revert hLater
    cases d <;> decide
  noLeft hVia hMem := by
    have hLater := ((List.singleton_sublist.mpr hMem).cons_cons d).trans (hLeft ▸ hSound.order)
    have hRight : d = .right := by
      revert hLater
      cases d <;> decide
    exact hSound.back_notMem hVia (by simp [hLeft, hRight, Dir.back])

/-- It lies over those below as well. -/
theorem Frame.Over.over_visit {h : Frame} (hOver : f.Over h) (hSound : h.Sound width height marked)
    (hFresh : move f.cell d ∉ marked)
    (hNext : ∀ d' ∈ dirs, move (move f.cell d) d' ∉ insert (move f.cell d) marked) :
    Frame.Over ⟨move f.cell d, some d, dirs⟩ h where
  cell := (ne_of_mem_of_not_mem hSound.visited hFresh).symm
  next d' hD' :=
    (ne_of_mem_of_not_mem (Set.mem_insert_of_mem _ hSound.visited) (hNext d' hD')).symm
  later := by
    rintro d' ⟨⟩ hCell
    exact absurd ((move_inj d).mp hCell) hOver.cell
  parent e hVia := (ne_of_mem_of_not_mem (hSound.parent e hVia).1 hFresh).symm
  via := Option.some_ne_none d
  noRight := hOver.noRight
  noLeft := hOver.noLeft

/-- Visiting the next cell puts a frame on the chain. -/
theorem Chain.visit (hChain : Chain width height s (f :: fs)) (hLeft : f.left = d :: ds)
    (hFresh : move f.cell d ∉ s.marked) (hOrder : dirs.Sublist takeOrder)
    (hNext : ∀ d' ∈ dirs, InGrid width height (move (move f.cell d) d') ∧
      move (move f.cell d) d' ∉ insert (move f.cell d) s.marked) :
    Chain width height ⟨insert (move f.cell d) s.marked,
      dirs.map (move (move f.cell d)) ++ (ds.map (move f.cell) ++ fs.flatMap Frame.entries)⟩
      (⟨move f.cell d, some d, dirs⟩ :: { f with left := ds } :: fs) := by
  have hSound := hChain.sound f List.mem_cons_self
  have hFreshNext := fun d' hD' => (hNext d' hD').2
  have hPop := hChain.pop hLeft (Set.subset_insert (move f.cell d) s.marked)
  refine ⟨rfl, ?_, List.pairwise_cons.mpr ⟨?_, hPop.nested⟩⟩
  · intro g hG
    rcases List.mem_cons.mp hG with rfl | hG
    · exact hSound.visit hLeft hOrder hNext
    · exact hPop.sound g hG
  · intro g hG
    rcases List.mem_cons.mp hG with rfl | hG
    · exact hSound.over_visit hLeft hFresh hFreshNext
    · exact ((List.pairwise_cons.mp hChain.nested).1 g hG).over_visit
        (hChain.sound g (List.mem_cons_of_mem f hG)) hFresh hFreshNext

end Visit

/-- The search has only its first cell, or a chain of frames. -/
def Framed (width height : ℕ) (s : Search) : Prop :=
  (∃ c, InGrid width height c ∧ s.stack = [c]) ∨ ∃ frames, Chain width height s frames

theorem Framed.step (hFramed : Framed width height s) (hStep : Step width height s s') :
    Framed width height s' := by
  right
  rcases hFramed with ⟨c, hInGrid, hStack⟩ | ⟨frames, hChain⟩
  · cases hStep with
    | drop hMarked =>
        cases hStack
        exact ⟨[], rfl, by simp, List.Pairwise.nil⟩
    | visit dirs hFresh hOrder hNext =>
        cases hStack
        refine ⟨[⟨c, none, dirs⟩], by simp [Frame.entries], ?_, List.pairwise_singleton _ _⟩
        intro f hF
        cases List.mem_singleton.mp hF
        exact ⟨hInGrid, Set.mem_insert _ _, hOrder, fun d hD => (hNext d hD).1, by simp⟩
  · cases hStep with
    | drop hMarked =>
        obtain ⟨f, fs, d, ds, hTop, hLeft, -, rfl⟩ := hChain.top rfl
        exact ⟨_, hTop.pop hLeft subset_rfl⟩
    | visit dirs hFresh hOrder hNext =>
        obtain ⟨f, fs, d, ds, hTop, hLeft, rfl, rfl⟩ := hChain.top rfl
        exact ⟨_, hTop.visit hLeft hFresh hOrder hNext⟩

/-- The stack has at most as many entries as the grid has cells. -/
theorem Framed.length_stack_le (hFramed : Framed width height s) (hHeight : 1 ≤ height) :
    s.stack.length ≤ width * height := by
  rcases hFramed with ⟨c, hInGrid, hStack⟩ | ⟨frames, hChain⟩
  · rw [hStack]
    apply Nat.mul_pos _ hHeight
    have hFirst := hInGrid.1
    have hLast := hInGrid.2.1
    omega
  · exact hChain.length_stack_le hHeight

end GridSearch
