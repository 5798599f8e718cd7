import Commission.Library.InPlaceAppend

/-! A launch seen through views of its records: what it leaves in its buffer is
what a function on the viewed inputs gives, whatever the order of the steps. -/
namespace AtomicAppend

open ThreadPool

variable {Mem ρ κ ω σ τ : Type*}

/-- Every item of every input, in the order of the inputs. -/
def image (items : List κ) (f : σ → κ → Option τ) (inputs : List σ) : List τ :=
  inputs.flatMap fun input => items.filterMap (f input)

theorem length_image_le (items : List κ) (f : σ → κ → Option τ) (inputs : List σ) :
    (image items f inputs).length ≤ inputs.length * items.length := by
  induction inputs with
  | nil => exact Nat.zero_le _
  | cons input inputs ih =>
      have hHere : (items.filterMap (f input)).length ≤ items.length := List.length_filterMap_le _ _
      rw [image, List.flatMap_cons, List.length_append, List.length_cons, Nat.succ_mul, Nat.add_comm]
      exact Nat.add_le_add ih hHere

theorem image_perm (items : List κ) (f : σ → κ → Option τ) {inputs inputs' : List σ}
    (hPerm : inputs.Perm inputs') : (image items f inputs).Perm (image items f inputs') :=
  hPerm.flatMap_right _

theorem mem_image {items : List κ} {f : σ → κ → Option τ} {inputs : List σ} {out : τ} :
    out ∈ image items f inputs ↔ ∃ input ∈ inputs, ∃ item ∈ items, f input item = some out := by
  simp only [image, List.mem_flatMap, List.mem_filterMap]

theorem image_subset (items : List κ) (f : σ → κ → Option τ) {inputs inputs' : List σ}
    (hSubset : inputs ⊆ inputs') : image items f inputs ⊆ image items f inputs' := by
  intro out hOut
  obtain ⟨input, hInput, hRest⟩ := mem_image.mp hOut
  exact mem_image.mpr ⟨input, hSubset hInput, hRest⟩

/-- A single item for each input. -/
theorem image_singleton (item : κ) (f : σ → κ → Option τ) (inputs : List σ) :
    image [item] f inputs = inputs.filterMap fun input => f input item := by
  induction inputs with
  | nil => rfl
  | cons input inputs ih =>
      rw [image, List.flatMap_cons, ← image, ih]
      cases hTest : f input item with
      | none => simp [hTest]
      | some out => simp [hTest]

/-- Seen through the views, the tests of a launch for `n` inputs are `f`. -/
def Shows (K : Kernel Mem ρ κ ω) (n : ℕ) (items : List κ) (m : Mem) (viewIn : ρ → σ)
    (viewOut : ω → τ) (f : σ → κ → Option τ) : Prop :=
  ∀ i < n, ∀ item ∈ items,
    (K.test m (K.fetch m i) item).map viewOut = f (viewIn (K.fetch m i)) item

section Shows

variable {K : Kernel Mem ρ κ ω} {n : ℕ} {items : List κ} {m : Mem} {viewIn : ρ → σ}
  {viewOut : ω → τ} {f : σ → κ → Option τ}

/-- The accepted items of one input. -/
theorem map_accepted_input (viewOut : ω → τ) (g : κ → Option τ) (i : ℕ)
    (hTest : ∀ item ∈ items, (K.test m (K.fetch m i) item).map viewOut = g item) :
    ((items.map fun item => (i, item)).filterMap (K.accept m)).map (fun kept => viewOut kept.2) =
      items.filterMap g := by
  rw [List.filterMap_map, List.map_filterMap]
  apply List.filterMap_congr
  intro item hItem
  rw [← hTest item hItem, Function.comp_apply, Kernel.accept, Option.map_map]
  rfl

theorem Shows.map_accepted (hShows : Shows K n items m viewIn viewOut f) :
    ((List.range n ×ˢ items).filterMap (K.accept m)).map (fun kept => viewOut kept.2) =
      image items f ((List.range n).map fun i => viewIn (K.fetch m i)) := by
  have hInput : ∀ i ∈ List.range n,
      ((items.map fun item => (i, item)).filterMap (K.accept m)).map (fun kept => viewOut kept.2) =
        items.filterMap (f (viewIn (K.fetch m i))) :=
    fun i hi => map_accepted_input viewOut _ i (hShows i (List.mem_range.mp hi))
  change ((List.flatMap (fun i => items.map fun item => (i, item)) (List.range n)).filterMap
    (K.accept m)).map (fun kept => viewOut kept.2) = _
  rw [image, List.filterMap_flatMap, List.map_flatMap, List.flatMap_map]
  exact List.flatMap_congr hInput

variable {schedule : List ℕ} {pool : Pool Mem (Cursor ρ κ ω) (Obs κ ω)}

/-- What a run which reads its original inputs has reserved. -/
theorem Shows.map_reserved (hShows : Shows K n items m viewIn viewOut f) (hFits : K.Fits n)
    (hStable : K.Stable) (hTotal : K.total n = Multiset.range n ×ˢ (items : Multiset κ))
    (hReads : Interleaving.Along (K.program n).advance (K.ReadsOriginal n m)
      ((K.program n).start m) schedule)
    (hRun : (K.program n).run ((K.program n).start m) schedule = some pool)
    (hFinished : (K.program n).Finished pool) :
    ((reserved pool.log).map fun kept => viewOut kept.2).Perm
      (image items f ((List.range n).map fun i => viewIn (K.fetch m i))) := by
  have hWork := run_workInv hFits hStable hReads hRun
  have hReserved : (reserved pool.log).Perm ((List.range n ×ˢ items).filterMap (K.accept m)) := by
    have hEq := hWork.reserved_eq hFinished
    rw [hTotal, ← Multiset.coe_range, Multiset.coe_product, Multiset.filterMap_coe] at hEq
    exact Multiset.coe_eq_coe.mp hEq
  rw [← hShows.map_accepted]
  exact hReserved.map _

/-- Every slot which the counter has passed holds an element of the image. -/
theorem Shows.mem_image (hShows : Shows K n items m viewIn viewOut f) (hFits : K.Fits n)
    (hStable : K.Stable) (hTotal : K.total n = Multiset.range n ×ˢ (items : Multiset κ))
    (hMax : K.output.maxLen < 2 ^ 32) (hLen : K.output.len m = 0)
    (hReads : Interleaving.Along (K.program n).advance (K.ReadsOriginal n m)
      ((K.program n).start m) schedule)
    (hRun : (K.program n).run ((K.program n).start m) schedule = some pool)
    (hFinished : (K.program n).Finished pool) (slot : ℕ) (hSlot : slot < K.output.maxLen)
    (hBelow : slot < K.output.len pool.mem) :
    viewOut (K.output.data pool.mem slot) ∈
      image items f ((List.range n).map fun i => viewIn (K.fetch m i)) := by
  have hSlots := run_slotInv hMax.le hLen hRun
  have hCounted : slot < (reserved pool.log).length :=
    hBelow.trans_le (hSlots.len ▸ Nat.mod_le _ _)
  obtain ⟨j, pair, -, hEntry⟩ := hSlots.data_eq hFinished hSlot hCounted
  apply (hShows.map_reserved hFits hStable hTotal hReads hRun hFinished).subset
  exact List.mem_map.mpr ⟨_, List.mem_of_getElem? hEntry, rfl⟩

/-- If there is room for all of it, the run leaves the image. -/
theorem Shows.perm_image (hShows : Shows K n items m viewIn viewOut f) (hFits : K.Fits n)
    (hStable : K.Stable) (hTotal : K.total n = Multiset.range n ×ˢ (items : Multiset κ))
    (hMax : K.output.maxLen < 2 ^ 32) (hLen : K.output.len m = 0)
    (hRoom : (image items f ((List.range n).map fun i => viewIn (K.fetch m i))).length ≤
      K.output.maxLen)
    (hReads : Interleaving.Along (K.program n).advance (K.ReadsOriginal n m)
      ((K.program n).start m) schedule)
    (hRun : (K.program n).run ((K.program n).start m) schedule = some pool)
    (hFinished : (K.program n).Finished pool) :
    ((List.range (K.output.len pool.mem)).map fun slot => viewOut (K.output.data pool.mem slot)).Perm
      (image items f ((List.range n).map fun i => viewIn (K.fetch m i))) := by
  have hSlots := run_slotInv hMax.le hLen hRun
  have hView := hShows.map_reserved hFits hStable hTotal hReads hRun hFinished
  have hFew : (reserved pool.log).length ≤ K.output.maxLen := by
    rw [← hView.length_eq, List.length_map] at hRoom
    exact hRoom
  have hData := congrArg (List.map viewOut) (hSlots.data_prefix hMax hFinished hFew)
  rw [List.map_map, List.map_map] at hData
  change List.map (viewOut ∘ K.output.data pool.mem) _ = _ at hData
  have hFront : ((List.range (K.output.len pool.mem)).map fun slot =>
      viewOut (K.output.data pool.mem slot)) =
      (reserved pool.log).map fun kept => viewOut kept.2 := hData
  rw [hFront]
  exact hView

end Shows

end AtomicAppend
