import Commission.Library.NearestSearch
import Mathlib.Algebra.BigOperators.Group.Finset.Basic
import Mathlib.Algebra.Order.BigOperators.Group.Finset
import Mathlib.Tactic.IntervalCases
import Mathlib.Tactic.Linarith

/-! The tables which map a point of the six climate parameters to a biome, and the search for the
nearest box in them. -/
namespace Commission.Cubiomes

open NearestSearch

/-- `BiomeTree`. The steps end with 0. A node holds the indices of its six ranges in `param` in
its low bytes, and in its high 16 bits the index of its first child or, for a leaf, the biome. -/
structure BiomeTree where
  steps : List ℕ
  param : List (ℤ × ℤ)
  order : ℕ
  nodes : List (BitVec 64)

namespace BiomeTree

variable (bt : BiomeTree)

def len : ℕ := bt.nodes.length

def node (idx : ℕ) : BitVec 64 := bt.nodes.getD idx 0

/-- The range of one parameter in a node. -/
def range (idx i : ℕ) : ℤ × ℤ :=
  bt.param.getD ((bt.node idx >>> (8 * i)) &&& 0xFF).toNat (0, 0)

/-- The first child, `node >> 48` -/
def inner (idx : ℕ) : ℕ := (bt.node idx >>> 48).toNat

/-- `(node >> 48) & 0xFF` -/
def biome (idx : ℕ) : ℕ := ((bt.node idx >>> 48) &&& 0xFF).toNat

/-- The values of `inner` in the loop of `get_resulting_node`, an `uint16_t`. -/
def childrenFrom (step : ℕ) : ℕ → ℕ → List ℕ
  | 0, _ => []
  | n + 1, inner =>
      let next := (inner + step) % 2 ^ 16
      inner :: if bt.len ≤ next then [] else childrenFrom step n next

def children (step idx : ℕ) : List ℕ := bt.childrenFrom step bt.order (bt.inner idx)

end BiomeTree

/-- `get_np_dist` -/
def getNpDist (np : ℕ → BitVec 64) (bt : BiomeTree) (idx : ℕ) : BitVec 64 :=
  (List.range 6).foldl (fun ds i =>
    let a := np i - BitVec.ofInt 64 (bt.range idx i).2
    let b := BitVec.ofInt 64 (bt.range idx i).1 - np i
    let d := if 0 < a.toInt then a else if 0 < b.toInt then b else 0
    ds + d * d) 0

/-- `get_resulting_node` with the steps from `depth` on. While it skips steps whose children
would lie behind the table, it does not look for the end of the steps; nothing is read behind
them in a table where every leaf is at full depth. -/
def getResultingNode (np : ℕ → BitVec 64) (bt : BiomeTree) :
    List ℕ → Bool → ℕ → ℕ → BitVec 64 → ℕ
  | [], _, idx, _, _ => idx
  | step :: rest, skipping, idx, alt, ds =>
      if step = 0 ∧ skipping = false then idx
      else if bt.len ≤ idx + step then getResultingNode np bt rest true idx alt ds
      else
        ((bt.children step idx).foldl (fun best inner =>
          let dsInner := getNpDist np bt inner
          if dsInner < best.2 then
            let leaf2 := getResultingNode np bt rest false inner best.1 best.2
            let dsLeaf2 := if inner = leaf2 then dsInner else getNpDist np bt leaf2
            if dsLeaf2 < best.2 then (leaf2, dsLeaf2) else best
          else best) (alt, ds)).1

/-- `climateToBiome` with the table of the version. `dat` points to the node found before. -/
def climateToBiome (bt : BiomeTree) (np : ℕ → BitVec 64) : Option ℕ → ℕ × Option ℕ
  | some alt =>
      let idx := getResultingNode np bt bt.steps false 0 alt (getNpDist np bt alt)
      (bt.biome idx, some idx)
  | none => (bt.biome (getResultingNode np bt bt.steps false 0 0 (-1)), none)

section Distance

/-- How far a value is from a range. -/
def excess (range : ℤ × ℤ) (v : ℤ) : ℕ :=
  if 0 < v - range.2 then (v - range.2).toNat
  else if 0 < range.1 - v then (range.1 - v).toNat else 0

/-- The squared distance of a point from the box of a node. -/
def boxDist (v : ℕ → ℤ) (bt : BiomeTree) (idx : ℕ) : ℕ :=
  ∑ i ∈ Finset.range 6, excess (bt.range idx i) (v i) ^ 2

/-- The climate parameters of a position, far from the limits of 64 bits. -/
def Moderate (v : ℕ → ℤ) : Prop := ∀ i < 6, |v i| ≤ 2 ^ 20

def BiomeTree.ModerateRanges (bt : BiomeTree) : Prop :=
  ∀ range ∈ bt.param, -2 ^ 20 ≤ range.1 ∧ range.1 ≤ range.2 ∧ range.2 ≤ 2 ^ 20

instance (bt : BiomeTree) : Decidable bt.ModerateRanges :=
  inferInstanceAs (Decidable (∀ range ∈ bt.param, _))

variable {bt : BiomeTree} {v : ℕ → ℤ}

theorem BiomeTree.ModerateRanges.range (hRanges : bt.ModerateRanges) (idx i : ℕ) :
    -2 ^ 20 ≤ (bt.range idx i).1 ∧ (bt.range idx i).1 ≤ (bt.range idx i).2 ∧
      (bt.range idx i).2 ≤ 2 ^ 20 := by
  rw [BiomeTree.range, List.getD_eq_getElem?_getD]
  cases hParam : bt.param[((bt.node idx >>> (8 * i)) &&& 0xFF).toNat]? with
  | none => simp
  | some range => exact hRanges range (List.mem_of_getElem? hParam)

section Excess

variable {range : ℤ × ℤ} {value : ℤ}
  (hRange : -2 ^ 20 ≤ range.1 ∧ range.1 ≤ range.2 ∧ range.2 ≤ 2 ^ 20)

include hRange

theorem excess_le (hValue : |value| ≤ 2 ^ 20) : excess range value ≤ 2 ^ 21 := by
  obtain ⟨hLow, hHigh⟩ := abs_le.mp hValue
  rw [excess]
  split_ifs <;> omega

/-- A distance as the code computes it. -/
theorem excess_word (hValue : |value| ≤ 2 ^ 20) :
    (let a := BitVec.ofInt 64 value - BitVec.ofInt 64 range.2
     let b := BitVec.ofInt 64 range.1 - BitVec.ofInt 64 value
     if 0 < a.toInt then a else if 0 < b.toInt then b else 0) =
      BitVec.ofNat 64 (excess range value) := by
  obtain ⟨hLow, hHigh⟩ := abs_le.mp hValue
  have hExact {n : ℤ} (hn : -2 ^ 21 ≤ n ∧ n ≤ 2 ^ 21) : (BitVec.ofInt 64 n).toInt = n := by
    rw [BitVec.toInt_ofInt, Int.bmod_eq_of_le (by omega) (by omega)]
  have hSub (m n : ℤ) : BitVec.ofInt 64 m - BitVec.ofInt 64 n = BitVec.ofInt 64 (m - n) := by
    apply BitVec.eq_of_toInt_eq
    rw [BitVec.toInt_sub, BitVec.toInt_ofInt, BitVec.toInt_ofInt, BitVec.toInt_ofInt,
      Int.bmod_sub_bmod, Int.sub_bmod_bmod]
  have hWord {n : ℤ} (hn : 0 < n) : BitVec.ofInt 64 n = BitVec.ofNat 64 n.toNat := by
    conv_lhs => rw [← Int.toNat_of_nonneg hn.le]
    exact BitVec.ofInt_natCast _ _
  simp only [hSub]
  rw [hExact (by omega), hExact (by omega), excess]
  split_ifs with hAbove hBelow
  · exact hWord hAbove
  · exact hWord hBelow
  · rfl

theorem excess_mono {outer : ℤ × ℤ} (hLow : outer.1 ≤ range.1) (hHigh : range.2 ≤ outer.2) :
    excess outer value ≤ excess range value := by
  rw [excess, excess]
  split_ifs <;> omega

end Excess

theorem boxDist_le (hRanges : bt.ModerateRanges) (hModerate : Moderate v) (idx : ℕ) :
    boxDist v bt idx ≤ 2 ^ 45 := by
  have hEach : ∀ i ∈ Finset.range 6, excess (bt.range idx i) (v i) ^ 2 ≤ 2 ^ 42 := by
    intro i hMem
    have hExcess := excess_le (hRanges.range idx i) (hModerate i (Finset.mem_range.mp hMem))
    calc excess (bt.range idx i) (v i) ^ 2 ≤ (2 ^ 21) ^ 2 := Nat.pow_le_pow_left hExcess 2
      _ = 2 ^ 42 := by norm_num
  calc boxDist v bt idx ≤ (Finset.range 6).card • 2 ^ 42 := Finset.sum_le_card_nsmul _ _ _ hEach
    _ ≤ 2 ^ 45 := by norm_num

/-- No distance wraps. -/
theorem getNpDist_toNat (hRanges : bt.ModerateRanges) (hModerate : Moderate v) (idx : ℕ) :
    (getNpDist (fun i => BitVec.ofInt 64 (v i)) bt idx).toNat = boxDist v bt idx := by
  have hWord (i : ℕ) (hi : i < 6) := excess_word (hRanges.range idx i) (hModerate i hi)
  have hSum : getNpDist (fun i => BitVec.ofInt 64 (v i)) bt idx =
      BitVec.ofNat 64 (boxDist v bt idx) := by
    simp only [getNpDist, List.range, List.range.loop, List.foldl_cons, List.foldl_nil]
    simp only at hWord
    rw [hWord 0 (by decide), hWord 1 (by decide), hWord 2 (by decide), hWord 3 (by decide),
      hWord 4 (by decide), hWord 5 (by decide)]
    simp only [boxDist, Finset.sum_range_succ, Finset.sum_range_zero, pow_two, BitVec.ofNat_add,
      BitVec.ofNat_mul]
    rfl
  rw [hSum, BitVec.toNat_ofNat]
  exact Nat.mod_eq_of_lt ((boxDist_le hRanges hModerate idx).trans_lt (by norm_num))

end Distance

section Search

namespace BiomeTree

/-- The leaves below a node, in the order in which they are visited. -/
def leaves (bt : BiomeTree) : List ℕ → Bool → ℕ → List ℕ
  | [], _, idx => [idx]
  | step :: rest, skipping, idx =>
      if step = 0 ∧ skipping = false then [idx]
      else if bt.len ≤ idx + step then leaves bt rest true idx
      else (bt.children step idx).flatMap (leaves bt rest false)

/-- The box of a node contains that of another. -/
def Encloses (bt : BiomeTree) (outer idx : ℕ) : Prop :=
  ∀ i < 6, (bt.range outer i).1 ≤ (bt.range idx i).1 ∧ (bt.range idx i).2 ≤ (bt.range outer i).2

/-- The box of every node below the given one contains the boxes of its leaves. -/
def Nested (bt : BiomeTree) : List ℕ → Bool → ℕ → Prop
  | [], _, _ => True
  | step :: rest, skipping, idx =>
      if step = 0 ∧ skipping = false then True
      else if bt.len ≤ idx + step then Nested bt rest true idx
      else ∀ inner ∈ bt.children step idx,
        (∀ leaf ∈ leaves bt rest false inner, bt.Encloses inner leaf) ∧ Nested bt rest false inner

instance (bt : BiomeTree) (outer idx : ℕ) : Decidable (bt.Encloses outer idx) :=
  inferInstanceAs (Decidable (∀ i < 6, _))

instance decidableNested (bt : BiomeTree) :
    ∀ (steps : List ℕ) (skipping : Bool) (idx : ℕ), Decidable (bt.Nested steps skipping idx)
  | [], _, _ => isTrue trivial
  | step :: rest, skipping, idx =>
      haveI (inner : ℕ) := decidableNested bt rest false inner
      haveI := decidableNested bt rest true idx
      inferInstanceAs (Decidable (if step = 0 ∧ skipping = false then True
        else if bt.len ≤ idx + step then Nested bt rest true idx
        else ∀ inner ∈ bt.children step idx,
          (∀ leaf ∈ leaves bt rest false inner, bt.Encloses inner leaf) ∧
            Nested bt rest false inner))

/-- What the search relies on in a table. The box of the root is not looked at. -/
structure WellFormed (bt : BiomeTree) : Prop where
  order : 0 < bt.order
  ranges : bt.ModerateRanges
  nested : bt.Nested bt.steps false 0
  root : 0 ∉ bt.leaves bt.steps false 0

variable {bt : BiomeTree} {v : ℕ → ℤ}

theorem children_ne_nil (hOrder : 0 < bt.order) (step idx : ℕ) : bt.children step idx ≠ [] := by
  rw [children]
  obtain ⟨n, hOrder⟩ := Nat.exists_eq_succ_of_ne_zero hOrder.ne'
  rw [hOrder, childrenFrom]
  exact List.cons_ne_nil _ _

theorem leaves_ne_nil (hOrder : 0 < bt.order) (steps : List ℕ) (skipping : Bool) (idx : ℕ) :
    bt.leaves steps skipping idx ≠ [] := by
  induction steps generalizing skipping idx with
  | nil => exact List.cons_ne_nil _ _
  | cons step rest ih =>
      rw [leaves]
      split_ifs
      · exact List.cons_ne_nil _ _
      · exact ih true idx
      · obtain ⟨inner, hInner⟩ := List.exists_mem_of_ne_nil _ (children_ne_nil hOrder step idx)
        obtain ⟨leaf, hLeaf⟩ := List.exists_mem_of_ne_nil _ (ih false inner)
        exact List.ne_nil_of_mem (List.mem_flatMap.mpr ⟨inner, hInner, hLeaf⟩)

theorem Encloses.boxDist_le {outer idx : ℕ} (hRanges : bt.ModerateRanges)
    (hEncloses : bt.Encloses outer idx) : boxDist v bt outer ≤ boxDist v bt idx := by
  refine Finset.sum_le_sum fun i hMem => Nat.pow_le_pow_left ?_ 2
  obtain ⟨hLow, hHigh⟩ := hEncloses i (Finset.mem_range.mp hMem)
  exact excess_mono (hRanges.range idx i) hLow hHigh

end BiomeTree

variable {bt : BiomeTree} {v : ℕ → ℤ}

/-- One child of the loop of `get_resulting_node`, with the distances as numbers. -/
theorem visit_eq_step (hRanges : bt.ModerateRanges) (hModerate : Moderate v) (rest : List ℕ)
    (best : ℕ × BitVec 64) (inner : ℕ) :
    visit (boxDist v bt) (boxDist v bt inner)
        (getResultingNode (fun i => BitVec.ofInt 64 (v i)) bt rest false inner best.1
          (BitVec.ofNat 64 best.2.toNat)) (best.1, best.2.toNat) =
      Prod.map id BitVec.toNat
        (let dsInner := getNpDist (fun i => BitVec.ofInt 64 (v i)) bt inner
        if dsInner < best.2 then
          let leaf2 := getResultingNode (fun i => BitVec.ofInt 64 (v i)) bt rest false inner best.1
            best.2
          let dsLeaf2 := if inner = leaf2 then dsInner
            else getNpDist (fun i => BitVec.ofInt 64 (v i)) bt leaf2
          if dsLeaf2 < best.2 then (leaf2, dsLeaf2) else best
        else best) := by
  have hLeaf (leaf2 : ℕ) : (if inner = leaf2 then getNpDist (fun i => BitVec.ofInt 64 (v i)) bt inner
      else getNpDist (fun i => BitVec.ofInt 64 (v i)) bt leaf2) =
        getNpDist (fun i => BitVec.ofInt 64 (v i)) bt leaf2 := by
    split_ifs with hSame
    · rw [hSame]
    · rfl
  simp only [visit, hLeaf, BitVec.ofNat_toNat, BitVec.setWidth_eq, BitVec.lt_def,
    getNpDist_toNat hRanges hModerate]
  split_ifs with hInner hLess
  · simp only [Prod.map, id, getNpDist_toNat hRanges hModerate]
  · rfl
  · rfl

/-- The search below a node finds what a scan of all its leaves finds. -/
theorem getResultingNode_eq_scan (hOrder : 0 < bt.order) (hRanges : bt.ModerateRanges)
    (hModerate : Moderate v) {steps : List ℕ} {skipping : Bool} {idx alt : ℕ} {ds : BitVec 64}
    (hNested : bt.Nested steps skipping idx)
    (hKnown : Known (boxDist v bt) (alt, ds.toNat) (bt.leaves steps skipping idx))
    (hNear : idx ∈ bt.leaves steps skipping idx → boxDist v bt idx < ds.toNat) :
    getResultingNode (fun i => BitVec.ofInt 64 (v i)) bt steps skipping idx alt ds =
      (scan (boxDist v bt) (alt, ds.toNat) (bt.leaves steps skipping idx)).1 := by
  induction steps generalizing skipping idx alt ds with
  | nil =>
      rw [BiomeTree.leaves] at hNear ⊢
      rw [scan_singleton (hNear (List.mem_singleton_self idx)), getResultingNode]
  | cons step rest ih =>
      rw [BiomeTree.leaves] at hKnown hNear ⊢
      rw [BiomeTree.Nested] at hNested
      rw [getResultingNode]
      split_ifs at hKnown hNear hNested ⊢ with hEnd hSkip
      · rw [scan_singleton (hNear (List.mem_singleton_self idx))]
      · exact ih hNested hKnown hNear
      · have hFold : (bt.children step idx).foldl (fun best inner =>
            visit (boxDist v bt) (boxDist v bt inner)
              (getResultingNode (fun i => BitVec.ofInt 64 (v i)) bt rest false inner best.1
                (BitVec.ofNat 64 best.2)) best) (alt, ds.toNat) =
            scan (boxDist v bt) (alt, ds.toNat)
              ((bt.children step idx).flatMap (bt.leaves rest false)) := by
          refine foldl_visit (fun inner _ => BiomeTree.leaves_ne_nil hOrder rest false inner)
            (fun inner hInner leaf hLeaf => ((hNested inner hInner).1 leaf hLeaf).boxDist_le hRanges)
            ?_ hKnown
          intro inner hInner next hNext hHere hLess
          have hWord : (BitVec.ofNat 64 next.2).toNat = next.2 :=
            Nat.mod_eq_of_lt (hNext.trans_lt ds.isLt)
          rw [ih (hNested inner hInner).2 (by rwa [hWord]) (fun _ => hLess.trans_eq hWord.symm),
            hWord]
        rw [← hFold]
        exact congrArg Prod.fst (List.foldl_hom (Prod.map id BitVec.toNat)
          (visit_eq_step hRanges hModerate rest)).symm

/-- What the search of the whole table starts with. -/
def searchStart (v : ℕ → ℤ) (bt : BiomeTree) : Option ℕ → ℕ × ℕ
  | some alt => (alt, boxDist v bt alt)
  | none => (0, 2 ^ 64 - 1)

/-- The search of the whole table is a scan of its leaves. -/
theorem climateToBiome_eq_scan (hWell : bt.WellFormed) (hModerate : Moderate v) (dat : Option ℕ) :
    climateToBiome bt (fun i => BitVec.ofInt 64 (v i)) dat =
      let idx := (scan (boxDist v bt) (searchStart v bt dat) (bt.leaves bt.steps false 0)).1
      (bt.biome idx, dat.map fun _ => idx) := by
  have hSearch {alt : ℕ} {ds : BitVec 64}
      (hKnown : Known (boxDist v bt) (alt, ds.toNat) (bt.leaves bt.steps false 0)) :=
    getResultingNode_eq_scan hWell.order hWell.ranges hModerate hWell.nested hKnown
      fun hRoot => absurd hRoot hWell.root
  cases dat with
  | none =>
      have hLast : (-1 : BitVec 64).toNat = 2 ^ 64 - 1 := by decide
      rw [climateToBiome, hSearch, hLast]
      · rfl
      · refine .inr fun leaf _ => ?_
        exact (boxDist_le hWell.ranges hModerate leaf).trans_lt (by decide)
  | some alt =>
      have hDist := getNpDist_toNat hWell.ranges hModerate alt
      simp only [climateToBiome]
      rw [hSearch (.inl hDist.le), hDist]
      rfl

/-- The biome of a climate is that of the first of the nearest leaves of the table, but a node
found before is kept if no leaf is nearer. -/
theorem climateToBiome_nearest (hWell : bt.WellFormed) (hModerate : Moderate v)
    (dat : Option ℕ) :
    ∃ idx, climateToBiome bt (fun i => BitVec.ofInt 64 (v i)) dat =
        (bt.biome idx, dat.map fun _ => idx) ∧
      (FirstNearest (boxDist v bt) (bt.leaves bt.steps false 0) idx ∧
          (∀ alt ∈ dat, boxDist v bt idx < boxDist v bt alt) ∨
        dat = some idx ∧ ∀ leaf ∈ bt.leaves bt.steps false 0, boxDist v bt idx ≤ boxDist v bt leaf) := by
  refine ⟨_, climateToBiome_eq_scan hWell hModerate dat, ?_⟩
  by_cases hNear : ∃ leaf ∈ bt.leaves bt.steps false 0, boxDist v bt leaf < (searchStart v bt dat).2
  · obtain ⟨found, hFirst, hLess, hScan⟩ := scan_of_near hNear
    rw [hScan]
    refine .inl ⟨hFirst, fun alt hAlt => ?_⟩
    rw [Option.mem_def.mp hAlt] at hLess
    exact hLess
  · have hFar : ∀ leaf ∈ bt.leaves bt.steps false 0, (searchStart v bt dat).2 ≤ boxDist v bt leaf :=
      fun leaf hLeaf => not_lt.mp fun hLess => hNear ⟨leaf, hLeaf, hLess⟩
    rw [scan_of_far hFar]
    cases dat with
    | none =>
        obtain ⟨leaf, hLeaf⟩ := List.exists_mem_of_ne_nil _
          (BiomeTree.leaves_ne_nil hWell.order bt.steps false 0)
        have hBound : boxDist v bt leaf < 2 ^ 64 - 1 :=
          (boxDist_le hWell.ranges hModerate leaf).trans_lt (by decide)
        exact absurd hBound (not_lt.mpr (hFar leaf hLeaf))
    | some alt => exact .inr ⟨rfl, hFar⟩

/-- A table of two groups of leaves: the coasts at the surface, as `btree21wd` has them, and two
leaves below. -/
def coastTable : BiomeTree where
  steps := [7, 1, 0]
  param := [(-12000, -10500), (-10500, -4550), (-10000, -4500), (-4500, -1500), (-1500, 2000),
    (2000, 5500), (5500, 10000), (-10000, 10000), (0, 0), (10000, 10000), (-12000, -4550)]
  order := 6
  nodes := [0x0001080808080808, 0x00020708070A0707, 0xFF32070807010702, 0xFF18070807010704,
    0xFF31070807010703, 0xFF0E070807000707, 0xFF30070807010705, 0xFF2C070807010706,
    0x00090709070A0707, 0xFF32070907010702, 0xFF0E070907000707]

theorem coastTable_wellFormed : coastTable.WellFormed :=
  ⟨by decide, by decide, by decide, by decide⟩

/-- A warm climate on the edge, where the mushroom fields come before the ocean. -/
theorem climateToBiome_nearest_edge :
    (climateToBiome coastTable (fun i => BitVec.ofInt 64 ([3000, 0, -10500].getD i 0)) none).1 = 14 ∧
    ∃ idx, coastTable.biome idx = 14 ∧
      FirstNearest (boxDist (fun i => [3000, 0, -10500].getD i 0) coastTable)
        (coastTable.leaves coastTable.steps false 0) idx := by
  have hModerate : Moderate fun i => [3000, 0, -10500].getD i 0 := by
    intro i hi
    interval_cases i <;> norm_num
  have hBiome : (climateToBiome coastTable (fun i => BitVec.ofInt 64 ([3000, 0, -10500].getD i 0))
      none).1 = 14 := by
    decide +kernel
  refine ⟨hBiome, ?_⟩
  obtain ⟨idx, hIdx, ⟨hFirst, -⟩ | ⟨hSome, -⟩⟩ :=
    climateToBiome_nearest coastTable_wellFormed hModerate none
  · rw [hIdx] at hBiome
    exact ⟨idx, hBiome, hFirst⟩
  · cases hSome

end Search

end Commission.Cubiomes
