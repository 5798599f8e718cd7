import Commission.Cpu.ReportedIsland
import Commission.Cubiomes.BiomeTree

/-! Which climates are mushroom fields. The table of the newest version is only known by the
facts about it which decide that. -/
namespace Commission.Cubiomes

open NearestSearch

/-- The box of a leaf near the coast. Humidity, erosion and weirdness are arbitrary. -/
def coastBox (temperature continentalness depth : ℤ × ℤ) : ℕ → ℤ × ℤ
  | 0 => temperature
  | 2 => continentalness
  | 4 => depth
  | _ => (-10000, 10000)

namespace BiomeTree

def HasBox (bt : BiomeTree) (idx : ℕ) (box : ℕ → ℤ × ℤ) : Prop := ∀ i < 6, bt.range idx i = box i

instance (bt : BiomeTree) (idx : ℕ) (box : ℕ → ℤ × ℤ) : Decidable (bt.HasBox idx box) :=
  inferInstanceAs (Decidable (∀ i < 6, _))

/-- A leaf beside that of the mushroom fields at the surface, which lies at the surface too or
below it. -/
structure Beside (bt : BiomeTree) (leaf : ℕ) : Prop where
  inside : ∀ i ∈ [0, 1, 3, 5], -10000 ≤ (bt.range leaf i).1 ∧ (bt.range leaf i).2 ≤ 10000
  place : bt.range leaf 4 = (0, 0) ∧ -10500 ≤ (bt.range leaf 2).1 ∧ bt.biome leaf ≠ mushroomFields ∨
    2000 ≤ (bt.range leaf 4).1 ∧ -12000 ≤ (bt.range leaf 2).1 ∧
      (bt.biome leaf = mushroomFields → (bt.range leaf 2).2 ≤ -10500)

instance (bt : BiomeTree) (leaf : ℕ) : Decidable (bt.Beside leaf) :=
  decidable_of_iff ((∀ i ∈ [0, 1, 3, 5], _) ∧ _) ⟨fun h => ⟨h.1, h.2⟩, fun h => ⟨h.inside, h.place⟩⟩

/-- The leaves of `btree21wd`, where node 85 is the one of the mushroom fields at the surface:
those of the deep oceans with a temperature up to 2000 come before it, the others after it. -/
structure MushroomLeaves (bt : BiomeTree) (before : List ℕ) (field : ℕ) (after : List ℕ) :
    Prop where
  wellFormed : bt.WellFormed
  root : bt.HasBox 0 fun _ => (0, 0)
  rootBiome : bt.biome 0 ≠ mushroomFields
  leaves : bt.leaves bt.steps false 0 = before ++ field :: after
  fieldBox : bt.HasBox field (coastBox (-10000, 10000) (-12000, -10500) (0, 0))
  fieldBiome : bt.biome field = mushroomFields
  beside : ∀ leaf ∈ before ++ after, bt.Beside leaf
  cold : ∀ leaf ∈ before, bt.range leaf 4 = (0, 0) →
    (bt.range leaf 0).2 ≤ 2000 ∨ -10500 < (bt.range leaf 2).1
  coldOceans : ∀ temperature ∈ [(-10000, -4500), (-4500, -1500), (-1500, 2000)], ∃ leaf ∈ before,
    bt.HasBox leaf (coastBox temperature (-10500, -4550) (0, 0))
  warmOceans : ∀ temperature ∈ [(2000, 5500), (5500, 10000)], ∃ leaf ∈ after,
    bt.HasBox leaf (coastBox temperature (-10500, -4550) (0, 0))

variable {bt : BiomeTree} {v : ℕ → ℤ}

theorem boxDist_le_of_excess {a b : ℕ}
    (hLe : ∀ i < 6, excess (bt.range a i) (v i) ≤ excess (bt.range b i) (v i)) :
    boxDist v bt a ≤ boxDist v bt b :=
  Finset.sum_le_sum fun i hMem => Nat.pow_le_pow_left (hLe i (Finset.mem_range.mp hMem)) 2

theorem boxDist_lt_of_excess {a b : ℕ}
    (hLe : ∀ i < 6, excess (bt.range a i) (v i) ≤ excess (bt.range b i) (v i))
    (hLt : ∃ i < 6, excess (bt.range a i) (v i) < excess (bt.range b i) (v i)) :
    boxDist v bt a < boxDist v bt b := by
  obtain ⟨i, hi, hLess⟩ := hLt
  exact Finset.sum_lt_sum
    (fun i hMem => Nat.pow_le_pow_left (hLe i (Finset.mem_range.mp hMem)) 2)
    ⟨i, Finset.mem_range.mpr hi, Nat.pow_lt_pow_left hLess two_ne_zero⟩

end BiomeTree

/-- The climates of mushroom fields: `v 2` is the continentalness, `v 0` the temperature. -/
def MushroomClimate (v : ℕ → ℤ) : Prop := v 2 < -10500 ∨ v 2 = -10500 ∧ 2000 < v 0

section Leaves

open BiomeTree

variable {bt : BiomeTree} {before after : List ℕ} {field leaf : ℕ} {v : ℕ → ℤ}
  (hTable : bt.MushroomLeaves before field after)

include hTable

theorem field_mem : field ∈ bt.leaves bt.steps false 0 := by
  rw [hTable.leaves]
  exact List.mem_append_right before List.mem_cons_self

/-- The field is not farther than a leaf beside it, unless this is nearer in continentalness. -/
theorem excess_field_le (hDepth : v 4 < 1000) (hBeside : leaf ∈ before ++ after)
    (hInland : excess (-12000, -10500) (v 2) ≤ excess (bt.range leaf 2) (v 2)) :
    ∀ i < 6, excess (bt.range field i) (v i) ≤ excess (bt.range leaf i) (v i) := by
  obtain ⟨hInside, hPlace⟩ := hTable.beside leaf hBeside
  have hRange (i : ℕ) := hTable.wellFormed.ranges.range leaf i
  intro i hi
  rw [hTable.fieldBox i hi]
  interval_cases i
  · exact excess_mono (hRange 0) (hInside 0 (by decide)).1 (hInside 0 (by decide)).2
  · exact excess_mono (hRange 1) (hInside 1 (by decide)).1 (hInside 1 (by decide)).2
  · exact hInland
  · exact excess_mono (hRange 3) (hInside 3 (by decide)).1 (hInside 3 (by decide)).2
  · rcases hPlace with ⟨hSurface, -⟩ | ⟨hBelow, -⟩
    · rw [hSurface]
      exact le_rfl
    · have hOrdered := (hRange 4).2.1
      simp only [coastBox, excess]
      split_ifs <;> omega
  · exact excess_mono (hRange 5) (hInside 5 (by decide)).1 (hInside 5 (by decide)).2

/-- Leaves below the surface are farther still. -/
theorem field_lt_of_below (hDepth : v 4 < 1000) (hBeside : leaf ∈ before ++ after)
    (hInland : excess (-12000, -10500) (v 2) ≤ excess (bt.range leaf 2) (v 2))
    (hBelow : 2000 ≤ (bt.range leaf 4).1) : boxDist v bt field < boxDist v bt leaf := by
  refine boxDist_lt_of_excess (excess_field_le hTable hDepth hBeside hInland) ⟨4, by decide, ?_⟩
  have hOrdered := (hTable.wellFormed.ranges.range leaf 4).2.1
  rw [hTable.fieldBox 4 (by decide)]
  simp only [coastBox, excess]
  split_ifs <;> omega

theorem field_lt_of_offshore (hDepth : v 4 < 1000) (hOffshore : v 2 < -10500)
    (hBeside : leaf ∈ before ++ after) : boxDist v bt field < boxDist v bt leaf := by
  have hOrdered := (hTable.wellFormed.ranges.range leaf 2).2.1
  have hInland {low : ℤ} (hLow : low ≤ (bt.range leaf 2).1) (hWest : -12000 ≤ low) :
      excess (-12000, -10500) (v 2) ≤ excess (bt.range leaf 2) (v 2) := by
    simp only [excess]
    split_ifs <;> omega
  rcases (hTable.beside leaf hBeside).place with ⟨-, hCoast, -⟩ | ⟨hBelow, hWest, -⟩
  · refine boxDist_lt_of_excess (excess_field_le hTable hDepth hBeside (hInland hCoast (by decide)))
      ⟨2, by decide, ?_⟩
    rw [hTable.fieldBox 2 (by decide)]
    simp only [coastBox, excess]
    split_ifs <;> omega
  · exact field_lt_of_below hTable hDepth hBeside (hInland hWest le_rfl) hBelow

/-- On the edge the leaves before the field are those of colder climates. -/
theorem field_lt_of_warm (hDepth : v 4 < 1000) (hEdge : v 2 = -10500) (hWarm : 2000 < v 0)
    (hBefore : leaf ∈ before) : boxDist v bt field < boxDist v bt leaf := by
  have hBeside : leaf ∈ before ++ after := List.mem_append_left after hBefore
  have hNone : excess (-12000, -10500) (v 2) = 0 := by
    rw [hEdge]
    decide
  have hLe := excess_field_le hTable hDepth hBeside (hNone ▸ Nat.zero_le _)
  rcases (hTable.beside leaf hBeside).place with ⟨hSurface, -⟩ | ⟨hBelow, -⟩
  · rcases hTable.cold leaf hBefore hSurface with hCold | hInland
    · refine boxDist_lt_of_excess hLe ⟨0, by decide, ?_⟩
      rw [hTable.fieldBox 0 (by decide)]
      simp only [coastBox, excess]
      split_ifs <;> omega
    · refine boxDist_lt_of_excess hLe ⟨2, by decide, ?_⟩
      rw [hTable.fieldBox 2 (by decide)]
      simp only [coastBox, excess]
      split_ifs <;> omega
  · exact field_lt_of_below hTable hDepth hBeside (hNone ▸ Nat.zero_le _) hBelow

/-- The other leaf of mushroom fields is below the surface. -/
theorem field_lt_of_mushroom (hDepth : v 4 < 1000) (hBeside : leaf ∈ before ++ after)
    (hMushroom : bt.biome leaf = mushroomFields) : boxDist v bt field < boxDist v bt leaf := by
  have hRange := hTable.wellFormed.ranges.range leaf 2
  rcases (hTable.beside leaf hBeside).place with ⟨-, -, hOther⟩ | ⟨hBelow, hWest, hEast⟩
  · exact absurd hMushroom hOther
  · exact field_lt_of_below hTable hDepth hBeside (excess_mono hRange hWest (hEast hMushroom)) hBelow

/-- An ocean of the right temperature is as near as the field in all but continentalness. -/
theorem excess_ocean_le {temperature : ℤ × ℤ}
    (hBox : bt.HasBox leaf (coastBox temperature (-10500, -4550) (0, 0)))
    (hTemperature : excess temperature (v 0) = excess (-10000, 10000) (v 0))
    (hInland : -10500 ≤ v 2) :
    ∀ i < 6, excess (bt.range leaf i) (v i) ≤ excess (bt.range field i) (v i) := by
  intro i hi
  rw [hBox i hi, hTable.fieldBox i hi]
  interval_cases i
  · exact hTemperature.le
  · exact le_rfl
  · simp only [coastBox, excess]
    split_ifs <;> omega
  · exact le_rfl
  · exact le_rfl
  · exact le_rfl

theorem ocean_lt {temperature : ℤ × ℤ}
    (hBox : bt.HasBox leaf (coastBox temperature (-10500, -4550) (0, 0)))
    (hTemperature : excess temperature (v 0) = excess (-10000, 10000) (v 0))
    (hInland : -10500 < v 2) : boxDist v bt leaf < boxDist v bt field := by
  refine boxDist_lt_of_excess (excess_ocean_le hTable hBox hTemperature hInland.le) ⟨2, by decide, ?_⟩
  rw [hBox 2 (by decide), hTable.fieldBox 2 (by decide)]
  simp only [coastBox, excess]
  split_ifs <;> omega

end Leaves

section Oceans

theorem exists_cold {v : ℤ} (hCold : v ≤ 2000) :
    ∃ temperature ∈ [((-10000 : ℤ), (-4500 : ℤ)), (-4500, -1500), (-1500, 2000)],
      excess temperature v = excess (-10000, 10000) v := by
  by_cases hFrozen : v ≤ -4500
  · refine ⟨(-10000, -4500), by decide, ?_⟩
    simp only [excess]
    split_ifs <;> omega
  · by_cases hCool : v ≤ -1500
    · refine ⟨(-4500, -1500), by decide, ?_⟩
      simp only [excess]
      split_ifs <;> omega
    · refine ⟨(-1500, 2000), by decide, ?_⟩
      simp only [excess]
      split_ifs <;> omega

theorem exists_warm {v : ℤ} (hWarm : 2000 < v) :
    ∃ temperature ∈ [((2000 : ℤ), (5500 : ℤ)), (5500, 10000)],
      excess temperature v = excess (-10000, 10000) v := by
  by_cases hLukewarm : v ≤ 5500
  · refine ⟨(2000, 5500), by decide, ?_⟩
    simp only [excess]
    split_ifs <;> omega
  · refine ⟨(5500, 10000), by decide, ?_⟩
    simp only [excess]
    split_ifs <;> omega

end Oceans

section Climate

open BiomeTree

variable {bt : BiomeTree} {before after : List ℕ} {field idx : ℕ} {v : ℕ → ℤ}
  (hTable : bt.MushroomLeaves before field after)

include hTable

/-- The root is farther: its box is one point. -/
theorem field_lt_root (hClimate : MushroomClimate v) : boxDist v bt field < boxDist v bt 0 := by
  have hOffshore : v 2 ≤ -10500 := hClimate.elim le_of_lt fun hEdge => hEdge.1.le
  refine boxDist_lt_of_excess (fun i hi => ?_) ⟨2, by decide, ?_⟩
  · rw [hTable.fieldBox i hi, hTable.root i hi]
    interval_cases i <;> simp only [coastBox, excess] <;> split_ifs <;> omega
  · rw [hTable.fieldBox 2 (by decide), hTable.root 2 (by decide)]
    simp only [coastBox, excess]
    split_ifs <;> omega

variable (hDepth : v 4 < 1000)

include hDepth

theorem firstNearest_field (hClimate : MushroomClimate v) :
    FirstNearest (boxDist v bt) (bt.leaves bt.steps false 0) field := by
  refine ⟨before, after, hTable.leaves, ?_, ?_⟩
  · intro leaf hBefore
    rcases hClimate with hOffshore | ⟨hEdge, hWarm⟩
    · exact field_lt_of_offshore hTable hDepth hOffshore (List.mem_append_left after hBefore)
    · exact field_lt_of_warm hTable hDepth hEdge hWarm hBefore
  · intro leaf hAfter
    have hBeside : leaf ∈ before ++ after := List.mem_append_right before hAfter
    rcases hClimate with hOffshore | ⟨hEdge, -⟩
    · exact (field_lt_of_offshore hTable hDepth hOffshore hBeside).le
    · refine boxDist_le_of_excess (excess_field_le hTable hDepth hBeside ?_)
      rw [hEdge]
      exact Nat.zero_le _

theorem biome_ne_of_firstNearest (hOther : ¬MushroomClimate v)
    (hFirst : FirstNearest (boxDist v bt) (bt.leaves bt.steps false 0) idx) :
    bt.biome idx ≠ mushroomFields := by
  intro hMushroom
  -- Another leaf with this biome would be farther than the field.
  have hBeside : idx ∉ before ++ after := fun hMem =>
    absurd (field_lt_of_mushroom hTable hDepth hMem hMushroom)
      (not_lt.mpr (hFirst.le field (field_mem hTable)))
  rw [hTable.leaves] at hFirst
  obtain rfl : idx = field := by
    have hMem := hFirst.mem
    simp only [List.mem_append, List.mem_cons, not_or] at hMem hBeside
    tauto
  have hInland : -10500 ≤ v 2 := not_lt.mp fun hOffshore => hOther (.inl hOffshore)
  rcases hInland.lt_or_eq with hInland | hEdge
  · have hOcean : ∃ leaf ∈ before ++ after, boxDist v bt leaf < boxDist v bt idx := by
      rcases le_or_gt (v 0) 2000 with hCold | hWarm
      · obtain ⟨temperature, hMem, hTemperature⟩ := exists_cold hCold
        obtain ⟨leaf, hBefore, hBox⟩ := hTable.coldOceans temperature hMem
        exact ⟨leaf, List.mem_append_left after hBefore, ocean_lt hTable hBox hTemperature hInland⟩
      · obtain ⟨temperature, hMem, hTemperature⟩ := exists_warm hWarm
        obtain ⟨leaf, hAfter, hBox⟩ := hTable.warmOceans temperature hMem
        exact ⟨leaf, List.mem_append_right before hAfter, ocean_lt hTable hBox hTemperature hInland⟩
    obtain ⟨leaf, hLeaf, hLess⟩ := hOcean
    have hMem : leaf ∈ before ++ idx :: after :=
      ((List.sublist_cons_self idx after).append_left before).subset hLeaf
    exact absurd hLess (not_lt.mpr (hFirst.le leaf hMem))
  · have hCold : v 0 ≤ 2000 := not_lt.mp fun hWarm => hOther (.inr ⟨hEdge.symm, hWarm⟩)
    obtain ⟨temperature, hMem, hTemperature⟩ := exists_cold hCold
    obtain ⟨leaf, hBefore, hBox⟩ := hTable.coldOceans temperature hMem
    have hLe := boxDist_le_of_excess (excess_ocean_le hTable hBox hTemperature hEdge.le)
    have hEarlier : idx ∈ before := hFirst.mem_left ⟨leaf, hBefore, fun later hLater =>
      hLe.trans (hFirst.le later (List.mem_append_right before hLater))⟩
    exact hBeside (List.mem_append_left after hEarlier)

/-- The search finds mushroom fields in these climates alone, also if it starts with the root as
the node found before. -/
theorem biome_search_iff (hModerate : Moderate v) {dat : Option ℕ} (hDat : ∀ alt ∈ dat, alt = 0) :
    (climateToBiome bt (fun i => BitVec.ofInt 64 (v i)) dat).1 = mushroomFields ↔
      MushroomClimate v := by
  have hStart : (searchStart v bt dat).1 = 0 := by
    cases dat with
    | none => rfl
    | some alt => exact hDat alt rfl
  rw [climateToBiome_eq_scan hTable.wellFormed hModerate]
  constructor
  · intro hMushroom
    by_contra hOther
    by_cases hNear : ∃ leaf ∈ bt.leaves bt.steps false 0,
        boxDist v bt leaf < (searchStart v bt dat).2
    · obtain ⟨found, hFirst, -, hScan⟩ := scan_of_near hNear
      rw [hScan] at hMushroom
      exact biome_ne_of_firstNearest hTable hDepth hOther hFirst hMushroom
    · rw [scan_of_far fun leaf hLeaf => not_lt.mp fun hLess => hNear ⟨leaf, hLeaf, hLess⟩,
        hStart] at hMushroom
      exact hTable.rootBiome hMushroom
  · intro hClimate
    have hLess : boxDist v bt field < (searchStart v bt dat).2 := by
      cases dat with
      | none =>
          have hBound : 2 ^ 45 < 2 ^ 64 - 1 := by norm_num
          exact (boxDist_le hTable.wellFormed.ranges hModerate field).trans_lt hBound
      | some alt => exact hDat alt rfl ▸ field_lt_root hTable hClimate
    rw [(firstNearest_field hTable hDepth hClimate).scan_eq hLess]
    exact hTable.fieldBiome

end Climate

/-- Where `genBiomeNoise3D` samples a cell: in its middle. -/
def cellMiddle (r_scale i : ℤ) : ℤ :=
  let scale := if 4 < r_scale then r_scale / 4 else 1
  i * scale + scale / 2

/-- The biome map of a generator for the newest version at the scales from 4 on: `getBiomeAt`
makes a range of one cell. `sample` gives the climate which `sampleBiomeNoise` looks up. -/
def BiomeTree.biomeSource (bt : BiomeTree)
    (sample : (noShift : Bool) → (x y z : ℤ) → ℕ → BitVec 64) : BiomeSource where
  since118 := true
  getBiomeAt scale x y z :=
    let opt := decide (4 < scale)
    (climateToBiome bt (sample opt (cellMiddle scale x) y (cellMiddle scale z))
      (if opt then some 0 else none)).1

section Island

open GridSearch BoundedRuns

variable {bt : BiomeTree} {before after : List ℕ} {field : ℕ}
  {climate : (noShift : Bool) → (x y z : ℤ) → ℕ → ℤ} {g : Generator} {r : Range} {tol : ℕ}

theorem getBiomeAt_mushroomFields_iff (hTable : bt.MushroomLeaves before field after) {y : ℤ}
    (hModerate : ∀ noShift x z, Moderate (climate noShift x y z))
    (hDepth : ∀ noShift x z, climate noShift x y z 4 < 1000) (scale x z : ℤ) :
    (bt.biomeSource fun noShift x y z i => BitVec.ofInt 64 (climate noShift x y z i)).getBiomeAt
        scale x y z = mushroomFields ↔
      MushroomClimate (climate (4 < scale) (cellMiddle scale x) y (cellMiddle scale z)) := by
  have hDat : ∀ alt ∈ (if decide (4 < scale) then some 0 else none), alt = 0 := by
    intro alt hAlt
    split at hAlt
    · exact (Option.mem_some_iff.mp hAlt).symm
    · cases hAlt
  exact biome_search_iff hTable (hDepth _ _ _) (hModerate _ _ _) hDat

/-- Cells of a range with the climate of mushroom fields which hang together, with fewer than
`tol` cells of other climates in a row between them. -/
structure ClimateIsland (climate : Cell → ℕ → ℤ) (r : Range) (tol : ℕ) (cells : Finset Cell) :
    Prop where
  inside : ∀ c ∈ cells, InGrid r.sx r.sz c
  mushroom : ∀ c ∈ cells, MushroomClimate (climate c)
  joined : ∃ first, ∀ c ∈ cells, ∃ path, Walk Adj (InGrid r.sx r.sz)
    (fun c' => ¬MushroomClimate (climate c')) tol first path ∧ path.getLast? = some c

theorem climateIsland_of_island {climate : Cell → ℕ → ℤ} {cells : Finset Cell}
    (hBiome : ∀ c, g.getBiomeAt r.scale (r.x + c.1) r.y (r.z + c.2) = mushroomFields ↔
      MushroomClimate (climate c)) (hIsland : Island g r tol cells) :
    ClimateIsland climate r tol cells := by
  refine ⟨hIsland.inside, fun c hC => (hBiome c).mp (hIsland.mushroom c hC), ?_⟩
  simpa only [ne_eq, hBiome] using hIsland.joined

/-- What a test of the biome centres reports is an island of the climate: the number of its cells
gives the area. Mushroom fields are where that climate is. -/
theorem testBiomeCenters_climateIsland {x z : BitVec 32} {range minArea scale : ℤ} {res : PosArea}
    (hTable : bt.MushroomLeaves before field after)
    (hSource : g.toBiomeSource =
      bt.biomeSource fun noShift x y z i => BitVec.ofInt 64 (climate noShift x y z i))
    (hModerate : ∀ noShift x z, Moderate (climate noShift x (256 / scale) z))
    (hDepth : ∀ noShift x z, climate noShift x (256 / scale) z 4 < 1000) (hTol : 1 ≤ tol)
    (hRes : testBiomeCenters g x z range minArea scale tol = some res) :
    ∃ cells, ClimateIsland (fun c => climate (4 < scale)
        (cellMiddle scale ((makeRange x z range scale).x + c.1)) (256 / scale)
        (cellMiddle scale ((makeRange x z range scale).z + c.2)))
        (makeRange x z range scale) tol cells ∧
      minCells minArea scale ≤ cells.card ∧
      res.area = BitVec.ofInt 32 (cells.card * (scale * scale)) ∧
      ∀ x z, g.getBiomeAt scale x (256 / scale) z = mushroomFields ↔
        MushroomClimate (climate (4 < scale) (cellMiddle scale x) (256 / scale)
          (cellMiddle scale z)) := by
  have hVersion : g.since118 = true := congrArg BiomeSource.since118 hSource
  obtain ⟨cells, center, hIsland, hEnough, -, -, rfl⟩ :=
    testBiomeCenters_island hVersion hTol hRes
  have hBiome (x z : ℤ) : g.getBiomeAt scale x (256 / scale) z = mushroomFields ↔
      MushroomClimate (climate (4 < scale) (cellMiddle scale x) (256 / scale)
        (cellMiddle scale z)) := by
    rw [hSource]
    exact getBiomeAt_mushroomFields_iff hTable hModerate hDepth scale x z
  exact ⟨cells, climateIsland_of_island (fun c => hBiome _ _) hIsland, hEnough, rfl, hBiome⟩

/-- A climate far from any land, at every position. -/
def offshoreClimate (_ : Bool) (_ _ _ : ℤ) (i : ℕ) : ℤ := [0, 0, -11000].getD i 0

def offshoreGenerator : Generator where
  toBiomeSource :=
    coastTable.biomeSource fun noShift x y z i => BitVec.ofInt 64 (offshoreClimate noShift x y z i)
  climate _ _ _ := 0
  biomeParaLimits _ _ := (intMin, intMax)
  tileIds _ _ _ := 0

theorem coastTable_mushroomLeaves : coastTable.MushroomLeaves [2, 3, 4] 5 [6, 7, 9, 10] where
  wellFormed := coastTable_wellFormed
  root := by decide
  rootBiome := by decide
  leaves := by decide
  fieldBox := by decide
  fieldBiome := by decide
  beside := by decide
  cold := by decide
  coldOceans := by decide
  warmOceans := by decide

theorem testBiomeCenters_climateIsland_offshore :
    ∃ res cells, testBiomeCenters offshoreGenerator 0 0 12 16 4 2 = some res ∧
      ClimateIsland (fun _ => offshoreClimate false 0 64 0) (makeRange 0 0 12 4) 2 cells ∧
      res.area = BitVec.ofInt 32 (cells.card * (4 * 4)) := by
  have hModerate (noShift : Bool) (x z : ℤ) : Moderate (offshoreClimate noShift x (256 / 4) z) := by
    intro i hi
    interval_cases i <;> norm_num [offshoreClimate]
  have hDepth (noShift : Bool) (x z : ℤ) : offshoreClimate noShift x (256 / 4) z 4 < 1000 := by
    norm_num [offshoreClimate]
  have hFound : (testBiomeCenters offshoreGenerator 0 0 12 16 4 2).isSome = true := by
    decide +kernel
  obtain ⟨res, hRes⟩ := Option.isSome_iff_exists.mp hFound
  obtain ⟨cells, hIsland, -, hArea, -⟩ := testBiomeCenters_climateIsland coastTable_mushroomLeaves rfl
    hModerate hDepth (by decide) hRes
  exact ⟨res, cells, hRes, hIsland, hArea⟩

end Island

end Commission.Cubiomes
