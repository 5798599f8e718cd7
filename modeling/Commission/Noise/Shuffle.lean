import Commission.Noise.Device
import Commission.Library.SwapChain

/-! The tables of `init_noise`: every table it leaves is a permutation of the bytes, and
every permutation stands for exactly one sequence of draws. -/
namespace Commission

open SwapChain

theorem swapEntries_eq (p : Fin 256 → UInt8) (i k : Fin 256) :
    swapEntries p i k = p ∘ Equiv.swap i k := by
  rw [Equiv.swap_comm, Equiv.comp_swap_eq_update]
  rfl

/-- The table which `init_noise` starts from, `noise.p[i] = i`. -/
def identityTable : Fin 256 → UInt8 := fun i => UInt8.ofNat i

theorem identityTable_bijective : Function.Bijective identityTable := by
  constructor
  · intro i k h
    have hNat : (UInt8.ofNat i).toNat = (UInt8.ofNat k).toNat := congrArg UInt8.toNat h
    rw [UInt8.toNat_ofNat_of_lt' i.isLt, UInt8.toNat_ofNat_of_lt' k.isLt] at hNat
    exact Fin.ext hNat
  · intro value
    exact ⟨⟨value.toNat, value.toNat_lt⟩, UInt8.ofNat_toNat⟩

/-- The shuffling loop with the draws `j_0, ..., j_255` given instead of drawn. -/
def chosenTable (choices : Choices 256) : Fin 256 → UInt8 :=
  (List.finRange 256).foldl (fun p i => swapEntries p i (target choices i)) identityTable

/-- The two indices which each turn of the loop reads and writes, as the `uint32_t`
values `i` and `i + j`. -/
def touchedIndices (fuel : ℕ) : List ℕ → XrsrRandom → Option (List (ℕ × ℕ))
  | [], _ => some []
  | i :: rest, random =>
      (random.nextInt fuel (256 - i)).bind fun draw =>
        (touchedIndices fuel rest draw.2).map fun later => (i, i + draw.1) :: later

theorem foldl_swapEntries (choices : Choices 256) (l : List (Fin 256)) (p : Fin 256 → UInt8) :
    l.foldl (fun p i => swapEntries p i (target choices i)) p = p ∘ turns choices l := by
  induction l generalizing p with
  | nil => rfl
  | cons i rest ih =>
      rw [List.foldl_cons, ih, swapEntries_eq, Function.comp_assoc]
      rfl

theorem chosenTable_eq (choices : Choices 256) :
    chosenTable choices = identityTable ∘ arrangement choices :=
  foldl_swapEntries choices _ _

/-- What the loop draws for the turns of a list are choices, and it leaves the table of
their exchanges. -/
theorem shuffle_eq_some {fuel : ℕ} {l : List (Fin 256)} (hNodup : l.Nodup)
    {p q : Fin 256 → UInt8} {random after : XrsrRandom}
    (h : shuffle fuel (l.map Fin.val) p random = some (q, after)) :
    ∃ choices : Choices 256, q = p ∘ turns choices l ∧
      touchedIndices fuel (l.map Fin.val) random =
        some (l.map fun i => (i.val, (target choices i).val)) := by
  induction l generalizing p random with
  | nil =>
      cases h
      exact ⟨fun i => ⟨0, by omega⟩, rfl, rfl⟩
  | cons i rest ih =>
      obtain ⟨hFresh, hRest⟩ := List.nodup_cons.mp hNodup
      rw [List.map_cons, shuffle] at h
      obtain ⟨draw, hDraw, hLater⟩ := Option.bind_eq_some_iff.mp h
      have hBelow : draw.1 < 256 - i.val := XrsrRandom.nextInt_lt (by omega) hDraw
      obtain ⟨choices, hTable, hIndices⟩ := ih hRest hLater
      -- the later choices, with the draw of this turn added
      let all : Choices 256 := Function.update choices i ⟨draw.1, hBelow⟩
      have hSame : ∀ k ∈ rest, choices k = all k := by
        intro k hk
        have hNe : k ≠ i := by
          rintro rfl
          exact hFresh hk
        exact (Function.update_of_ne hNe _ _).symm
      have hTarget : (target all i).val = i.val + draw.1 := by
        simp [target, all]
      have hIndex : Fin.ofNat 256 i.val = i := Fin.ofNat_val_eq_self i
      have hPartner : Fin.ofNat 256 (i.val + draw.1) = target all i := by
        rw [← hTarget]
        exact Fin.ofNat_val_eq_self _
      refine ⟨all, ?_, ?_⟩
      · rw [hTable, hIndex, hPartner, swapEntries_eq, turns_congr hSame, Function.comp_assoc]
        rfl
      · rw [List.map_cons, touchedIndices, hDraw, Option.bind_some, hIndices, Option.map_some,
          List.map_cons, hTarget]
        congr 2
        apply List.map_congr_left
        intro k hk
        rw [target_eq_iff.mpr (hSame k hk)]

/-- The state from which `init_noise` shuffles, after the draws of the offsets. -/
def afterOffsets (random : XrsrRandom) : XrsrRandom :=
  random.nextInternal.2.nextInternal.2.nextInternal.2

section Tables

variable {F : Type} [Arith F]

/-- The table of a noise is the one of choices which the loop draws. -/
theorem initNoise_eq_some {fuel : ℕ} {random : XrsrRandom} {noise : ImprovedNoise F}
    (h : initNoise fuel random = some noise) :
    ∃ choices : Choices 256, noise.p = chosenTable choices ∧
      touchedIndices fuel (List.range 256) (afterOffsets random) =
        some ((List.finRange 256).map fun i => (i.val, (target choices i).val)) := by
  obtain ⟨table, hShuffle, rfl⟩ := Option.map_eq_some_iff.mp h
  rw [← List.map_coe_finRange_eq_range] at hShuffle ⊢
  obtain ⟨choices, hTable, hIndices⟩ := shuffle_eq_some (List.nodup_finRange 256) hShuffle
  exact ⟨choices, hTable.trans (chosenTable_eq choices).symm, hIndices⟩

theorem chosenTable_bijective (choices : Choices 256) : Function.Bijective (chosenTable choices) := by
  rw [chosenTable_eq]
  exact identityTable_bijective.comp (arrangement choices).bijective

/-- Every permutation of the bytes is the table of exactly one choice sequence. -/
theorem bijOn_chosenTable :
    Set.BijOn chosenTable Set.univ {p : Fin 256 → UInt8 | Function.Bijective p} := by
  refine ⟨fun choices _ => chosenTable_bijective choices, ?_, ?_⟩
  · intro choices _ others _ h
    rw [chosenTable_eq, chosenTable_eq] at h
    exact arrangement_injective (Equiv.ext (congrFun (identityTable_bijective.1.comp_left h)))
  · intro p hp
    let table : Fin 256 ≃ UInt8 := Equiv.ofBijective identityTable identityTable_bijective
    obtain ⟨choices, hChoices⟩ :=
      arrangement_bijective.2 ((Equiv.ofBijective p hp).trans table.symm)
    refine ⟨choices, Set.mem_univ _, ?_⟩
    rw [chosenTable_eq, hChoices]
    funext i
    exact table.apply_symm_apply (p i)

/-- Whenever the draws of `init_noise` return, the table is a permutation of the bytes,
made with indices below 256 from the choices drawn; and the tables of all choice
sequences are the permutations, each one once. -/
theorem initNoise_shuffles :
    (∀ (fuel : ℕ) (random : XrsrRandom) (noise : ImprovedNoise F),
      initNoise fuel random = some noise →
      Function.Bijective noise.p ∧
      ∃ choices : Choices 256, noise.p = chosenTable choices ∧
        ∃ indices, touchedIndices fuel (List.range 256) (afterOffsets random) = some indices ∧
          indices = (List.finRange 256).map (fun i => (i.val, i.val + (choices i).val)) ∧
          ∀ index ∈ indices, index.1 < 256 ∧ index.2 < 256) ∧
    Set.BijOn chosenTable Set.univ {p : Fin 256 → UInt8 | Function.Bijective p} := by
  refine ⟨?_, bijOn_chosenTable⟩
  intro fuel random noise h
  obtain ⟨choices, hTable, hIndices⟩ := initNoise_eq_some h
  refine ⟨?_, choices, hTable, _, hIndices, rfl, ?_⟩
  · rw [hTable]
    exact chosenTable_bijective choices
  · intro index hIndex
    obtain ⟨i, -, rfl⟩ := List.mem_map.mp hIndex
    exact ⟨i.isLt, (target choices i).isLt⟩

theorem initNoise_shuffles_one_two :
    ∃ noise : ImprovedNoise ℚ, initNoise 64 ⟨1#64, 2#64⟩ = some noise ∧
      Function.Bijective noise.p := by
  have hReturns : (initNoise (F := ℚ) 64 ⟨1#64, 2#64⟩).isSome := by
    decide +kernel
  obtain ⟨noise, hNoise⟩ := Option.isSome_iff_exists.mp hReturns
  exact ⟨noise, hNoise, (initNoise_shuffles.1 64 ⟨1#64, 2#64⟩ noise hNoise).1⟩

end Tables

end Commission
