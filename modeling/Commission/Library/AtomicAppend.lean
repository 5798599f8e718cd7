import Commission.Library.Reduction
import Commission.Library.ThreadPool
import Commission.Library.StrideLoop
import Mathlib.Algebra.BigOperators.Intervals
import Mathlib.Data.Multiset.Bind
import Mathlib.Data.Multiset.Filter

/-! Kernels which test work items in a grid-stride loop and append what they
accept to a common buffer: a slot is reserved by an atomic increment of the
buffer's counter and written by a later step. -/
namespace AtomicAppend

open ThreadPool StrideLoop

/-- A buffer in memory with a 32-bit counter of its elements. -/
structure Output (Mem ω : Type*) where
  maxLen : ℕ
  len : Mem → ℕ
  setLen : Mem → ℕ → Mem
  data : Mem → ℕ → ω
  store : Mem → ℕ → ω → Mem
  len_setLen : ∀ m n, len (setLen m n) = n
  data_setLen : ∀ m n, data (setLen m n) = data m
  len_store : ∀ m slot out, len (store m slot out) = len m
  data_store : ∀ m slot out, data (store m slot out) = Function.update (data m) slot out

/-- A kernel: thread `t` runs its loop variable from `first t` in steps of
`stride`, and at each pass tests its own items of the input `lane t` further on. -/
structure Kernel (Mem ρ κ ω : Type*) where
  threads : ℕ
  stride : ℕ
  first : ℕ → ℕ
  lane : ℕ → ℕ
  items : ℕ → List κ
  fetch : Mem → ℕ → ρ
  test : Mem → ρ → κ → Option ω
  output : Output Mem ω

/-- Where a thread stands, with its loop variable: at the loop test, before the
next of the remaining items, before the increment for an accepted item, or
before the write to the slot it got. -/
inductive Cursor (ρ κ ω : Type*) where
  | loop (i : ℕ)
  | work (i : ℕ) (record : ρ) (items : List κ)
  | reserve (i : ℕ) (record : ρ) (item : κ) (items : List κ) (out : ω)
  | store (i : ℕ) (record : ρ) (item : κ) (items : List κ) (out : ω) (slot : ℕ)

/-- What a thread does: read an input, test an item of it, or reserve a slot. -/
inductive Obs (κ ω : Type*) where
  | read (index : ℕ)
  | test (index : ℕ) (item : κ)
  | reserve (index : ℕ) (item : κ) (out : ω)

variable {Mem ρ κ ω : Type*}

namespace Kernel

variable (K : Kernel Mem ρ κ ω)

/-- The loop increment, in 32-bit arithmetic. -/
def next (i : ℕ) : ℕ := (i + K.stride) % 2 ^ 32

/-- The input which thread `t` looks at. -/
def index (t i : ℕ) : ℕ := (i + K.lane t) % 2 ^ 32

/-- One step of thread `t` for `n` inputs. -/
def step (n t : ℕ) : Cursor ρ κ ω → Mem → Option (Cursor ρ κ ω × Mem)
  | .loop i, m =>
      if i < n then
        if K.index t i < n then some (.work i (K.fetch m (K.index t i)) (K.items t), m)
        else some (.loop (K.next i), m)
      else none
  | .work i _ [], m => some (.loop (K.next i), m)
  | .work i record (item :: items), m =>
      match K.test m record item with
      | none => some (.work i record items, m)
      | some out => some (.reserve i record item items out, m)
  | .reserve i record item items out, m =>
      some (.store i record item items out (K.output.len m),
        K.output.setLen m ((K.output.len m + 1) % 2 ^ 32))
  | .store i record _ items out slot, m =>
      some (.work i record items, if slot < K.output.maxLen then K.output.store m slot out else m)

def halted (n : ℕ) : Cursor ρ κ ω → Bool
  | .loop i => n ≤ i
  | _ => false

def observe (n t : ℕ) : Cursor ρ κ ω → Mem → List (Obs κ ω)
  | .loop i, _ => if i < n ∧ K.index t i < n then [.read (K.index t i)] else []
  | .work _ _ [], _ => []
  | .work i _ (item :: _), _ => [.test (K.index t i) item]
  | .reserve i _ item _ out, _ => [.reserve (K.index t i) item out]
  | .store .., _ => []

/-- The kernel launched for `n` inputs. -/
def program (n : ℕ) : Program Mem (Cursor ρ κ ω) (Obs κ ω) where
  threads := K.threads
  launch t := .loop (K.first t)
  step := K.step n
  halted := halted n
  observe := K.observe n

/-- The cases of a step. -/
inductive Moves (n t : ℕ) : Cursor ρ κ ω → Mem → Cursor ρ κ ω → Mem → Prop where
  | fetch {i m} (hLoop : i < n) (hIndex : K.index t i < n) :
      Moves n t (.loop i) m (.work i (K.fetch m (K.index t i)) (K.items t)) m
  | skip {i m} (hLoop : i < n) (hIndex : n ≤ K.index t i) :
      Moves n t (.loop i) m (.loop (K.next i)) m
  | pass {i record m} : Moves n t (.work i record []) m (.loop (K.next i)) m
  | reject {i record item items m} (hTest : K.test m record item = none) :
      Moves n t (.work i record (item :: items)) m (.work i record items) m
  | accept {i record item items out m} (hTest : K.test m record item = some out) :
      Moves n t (.work i record (item :: items)) m (.reserve i record item items out) m
  | reserve {i record item items out m} :
      Moves n t (.reserve i record item items out) m
        (.store i record item items out (K.output.len m))
        (K.output.setLen m ((K.output.len m + 1) % 2 ^ 32))
  | store {i record item items out slot m} (hSlot : slot < K.output.maxLen) :
      Moves n t (.store i record item items out slot) m (.work i record items)
        (K.output.store m slot out)
  | drop {i record item items out slot m} (hSlot : K.output.maxLen ≤ slot) :
      Moves n t (.store i record item items out slot) m (.work i record items) m

theorem moves_of_step {n t : ℕ} {c c' : Cursor ρ κ ω} {m m' : Mem}
    (hStep : K.step n t c m = some (c', m')) : K.Moves n t c m c' m' := by
  cases c with
  | loop i =>
      simp only [step] at hStep
      split at hStep
      · next hLoop =>
          split at hStep
          · next hIndex =>
              cases hStep
              exact .fetch hLoop hIndex
          · next hIndex =>
              cases hStep
              exact .skip hLoop (not_lt.mp hIndex)
      · cases hStep
  | work i record items =>
      cases items with
      | nil =>
          cases hStep
          exact .pass
      | cons item items =>
          simp only [step] at hStep
          split at hStep
          · next hTest =>
              cases hStep
              exact .reject hTest
          · next out hTest =>
              cases hStep
              exact .accept hTest
  | reserve i record item items out =>
      cases hStep
      exact .reserve
  | store i record item items out slot =>
      simp only [step] at hStep
      split at hStep
      · next hSlot =>
          cases hStep
          exact .store hSlot
      · next hSlot =>
          cases hStep
          exact .drop (not_lt.mp hSlot)

end Kernel

/-- The items tested so far, with the index of their input. -/
def tested (log : List (Obs κ ω)) : List (ℕ × κ) :=
  log.filterMap fun
    | .test index item => some (index, item)
    | _ => none

/-- The accepted items in the order of their increments. -/
def reserved (log : List (Obs κ ω)) : List ((ℕ × κ) × ω) :=
  log.filterMap fun
    | .reserve index item out => some ((index, item), out)
    | _ => none

theorem tested_append (log more : List (Obs κ ω)) :
    tested (log ++ more) = tested log ++ tested more :=
  List.filterMap_append ..

theorem reserved_append (log more : List (Obs κ ω)) :
    reserved (log ++ more) = reserved log ++ reserved more :=
  List.filterMap_append ..

theorem getElem?_append_of_eq_some {α : Type*} {l more : List α} {j : ℕ} {x : α}
    (hEntry : l[j]? = some x) : (l ++ more)[j]? = some x := by
  rw [List.getElem?_append_left (List.getElem?_eq_some_iff.mp hEntry).1]
  exact hEntry

section Slots

variable {K : Kernel Mem ρ κ ω} {n t : ℕ} {pool pool' : Pool Mem (Cursor ρ κ ω) (Obs κ ω)}

/-- How the counter and the slots follow from the order of the increments: the
`j`th one got slot `j` modulo `2^32`, and a slot below both lengths holds what
one of its increments was for, unless the first write to it is still to come. -/
structure SlotInv (K : Kernel Mem ρ κ ω) (pool : Pool Mem (Cursor ρ κ ω) (Obs κ ω)) : Prop where
  len : K.output.len pool.mem = (reserved pool.log).length % 2 ^ 32
  pending : ∀ t < K.threads, ∀ i record item items out slot,
    pool.locals t = .store i record item items out slot →
      ∃ j, j % 2 ^ 32 = slot ∧ (reserved pool.log)[j]? = some ((K.index t i, item), out)
  filled : ∀ slot < K.output.maxLen, slot < (reserved pool.log).length →
    (∃ j pair, j % 2 ^ 32 = slot ∧
      (reserved pool.log)[j]? = some (pair, K.output.data pool.mem slot)) ∨
    ∃ t < K.threads, ∃ i record item items out,
      pool.locals t = .store i record item items out slot

theorem slotInv_start (n : ℕ) {m : Mem} (hLen : K.output.len m = 0) :
    SlotInv K ((K.program n).start m) where
  len := hLen
  pending t _ i record item items out slot hStore := by cases hStore
  filled slot _ hSlot := absurd hSlot (Nat.not_lt_zero slot)

/-- A step which neither increments the counter nor writes a slot. -/
theorem SlotInv.quiet (hInv : SlotInv K pool) {c : Cursor ρ κ ω} {more : List (Obs κ ω)}
    (hLog : reserved more = [])
    (hNew : ∀ i record item items out slot, c ≠ .store i record item items out slot)
    (hOld : ∀ i record item items out slot, pool.locals t = .store i record item items out slot →
      K.output.maxLen ≤ slot) :
    SlotInv K ⟨Function.update pool.locals t c, pool.mem, pool.log ++ more⟩ := by
  have hReserved : reserved (pool.log ++ more) = reserved pool.log := by
    rw [reserved_append, hLog, List.append_nil]
  constructor
  · rw [hReserved]
    exact hInv.len
  · intro u hu i record item items out slot hStore
    rw [hReserved]
    by_cases hSame : u = t
    · subst hSame
      simp only [Function.update_self] at hStore
      exact absurd hStore (hNew _ _ _ _ _ _)
    · simp only [Function.update_of_ne hSame] at hStore
      exact hInv.pending u hu i record item items out slot hStore
  · intro slot hSlot hLength
    rw [hReserved] at hLength ⊢
    rcases hInv.filled slot hSlot hLength with hHeld | ⟨u, hu, i, record, item, items, out, hStore⟩
    · exact .inl hHeld
    · refine .inr ⟨u, hu, i, record, item, items, out, ?_⟩
      have hOther : u ≠ t := by
        rintro rfl
        exact absurd hSlot (not_lt.mpr (hOld _ _ _ _ _ _ hStore))
      simpa only [Function.update_of_ne hOther] using hStore

/-- The increment for an accepted item: the slot is the old number of increments. -/
theorem SlotInv.reserve (hMax : K.output.maxLen ≤ 2 ^ 32) (hInv : SlotInv K pool)
    (hThread : t < K.threads) {i : ℕ} {record : ρ} {item : κ} {items : List κ} {out : ω}
    (hAt : pool.locals t = .reserve i record item items out) :
    SlotInv K ⟨Function.update pool.locals t
        (.store i record item items out (K.output.len pool.mem)),
      K.output.setLen pool.mem ((K.output.len pool.mem + 1) % 2 ^ 32),
      pool.log ++ [.reserve (K.index t i) item out]⟩ := by
  have hReserved : reserved (pool.log ++ [.reserve (K.index t i) item out]) =
      reserved pool.log ++ [((K.index t i, item), out)] :=
    reserved_append ..
  constructor
  · rw [hReserved, K.output.len_setLen, hInv.len, List.length_append, List.length_singleton,
      Nat.mod_add_mod]
  · intro u hu i' record' item' items' out' slot hStore
    rw [hReserved]
    by_cases hSame : u = t
    · subst hSame
      simp only [Function.update_self] at hStore
      cases hStore
      exact ⟨(reserved pool.log).length, hInv.len.symm, by simp⟩
    · simp only [Function.update_of_ne hSame] at hStore
      obtain ⟨j, hj, hEntry⟩ := hInv.pending u hu i' record' item' items' out' slot hStore
      exact ⟨j, hj, getElem?_append_of_eq_some hEntry⟩
  · intro slot hSlot hLength
    rw [hReserved] at hLength ⊢
    rw [K.output.data_setLen]
    rcases Nat.lt_or_ge slot (reserved pool.log).length with hBefore | hHere
    · rcases hInv.filled slot hSlot hBefore with
        ⟨j, pair, hj, hEntry⟩ | ⟨u, hu, i', record', item', items', out', hStore⟩
      · exact .inl ⟨j, pair, hj, getElem?_append_of_eq_some hEntry⟩
      · refine .inr ⟨u, hu, i', record', item', items', out', ?_⟩
        have hOther : u ≠ t := by
          rintro rfl
          rw [hAt] at hStore
          cases hStore
        simpa only [Function.update_of_ne hOther] using hStore
    · right
      rw [List.length_append, List.length_singleton] at hLength
      have hSlotEq : K.output.len pool.mem = slot := by
        rw [hInv.len, Nat.mod_eq_of_lt (by omega)]
        omega
      refine ⟨t, hThread, i, record, item, items, out, ?_⟩
      simp only [Function.update_self, hSlotEq]

/-- The write to a slot of the buffer. -/
theorem SlotInv.store (hInv : SlotInv K pool) (hThread : t < K.threads) {i : ℕ} {record : ρ}
    {item : κ} {items : List κ} {out : ω} {slot : ℕ}
    (hAt : pool.locals t = .store i record item items out slot) :
    SlotInv K ⟨Function.update pool.locals t (.work i record items),
      K.output.store pool.mem slot out, pool.log⟩ := by
  obtain ⟨j, hj, hEntry⟩ := hInv.pending t hThread i record item items out slot hAt
  constructor
  · rw [K.output.len_store]
    exact hInv.len
  · intro u hu i' record' item' items' out' slot' hStore
    by_cases hSame : u = t
    · subst hSame
      simp at hStore
    · simp only [Function.update_of_ne hSame] at hStore
      exact hInv.pending u hu i' record' item' items' out' slot' hStore
  · intro slot' hSlot' hLength
    rw [K.output.data_store]
    by_cases hWritten : slot' = slot
    · subst hWritten
      left
      rw [Function.update_self]
      exact ⟨j, _, hj, hEntry⟩
    · rw [Function.update_of_ne hWritten]
      rcases hInv.filled slot' hSlot' hLength with
        hHeld | ⟨u, hu, i', record', item', items', out', hStore⟩
      · exact .inl hHeld
      · refine .inr ⟨u, hu, i', record', item', items', out', ?_⟩
        have hOther : u ≠ t := by
          rintro rfl
          rw [hAt] at hStore
          cases hStore
          exact hWritten rfl
        simpa only [Function.update_of_ne hOther] using hStore

theorem SlotInv.advance (hMax : K.output.maxLen ≤ 2 ^ 32) (hInv : SlotInv K pool)
    (hAdvance : (K.program n).advance pool t = some pool') : SlotInv K pool' := by
  obtain ⟨hThread, next, mem, hStep, rfl⟩ := advance_eq_some.mp hAdvance
  have hMoves := K.moves_of_step hStep
  change SlotInv K ⟨_, _, pool.log ++ K.observe n t (pool.locals t) pool.mem⟩
  generalize hc : pool.locals t = c at hMoves ⊢
  generalize hm : pool.mem = m at hMoves ⊢
  cases hMoves with
  | fetch hLoop hIndex =>
      rw [← hm]
      refine hInv.quiet ?_ (by simp) (by simp [hc])
      simp [Kernel.observe, hLoop, hIndex, reserved]
  | skip hLoop hIndex =>
      rw [← hm]
      refine hInv.quiet ?_ (by simp) (by simp [hc])
      simp [Kernel.observe, not_lt.mpr hIndex, reserved]
  | pass | reject hTest | accept hTest =>
      rw [← hm]
      exact hInv.quiet rfl (by simp) (by simp [hc])
  | drop hSlot =>
      rw [← hm]
      apply hInv.quiet rfl (by simp)
      rw [hc]
      rintro _ _ _ _ _ slot hStore
      cases hStore
      exact hSlot
  | reserve =>
      rw [← hm]
      exact hInv.reserve hMax hThread hc
  | store hSlot =>
      rw [← hm]
      change SlotInv K ⟨_, _, pool.log ++ []⟩
      rw [List.append_nil]
      exact hInv.store hThread hc

end Slots

section Work

namespace Kernel

variable (K : Kernel Mem ρ κ ω)

/-- The items of thread `t` for some inputs, one input after the other. -/
def pairs (t : ℕ) (indices : List ℕ) : List (ℕ × κ) :=
  indices.flatMap fun k => (K.items t).map fun item => (k, item)

/-- The items which a thread has still to test. -/
def remaining (n t : ℕ) : Cursor ρ κ ω → List (ℕ × κ)
  | .loop i => K.pairs t (visits n K.stride (K.lane t) i)
  | .work i _ items | .reserve i _ _ items _ | .store i _ _ items _ _ =>
      (items.map fun item => (i + K.lane t, item)) ++
        K.pairs t (visits n K.stride (K.lane t) (i + K.stride))

/-- All items of all threads. -/
def total (n : ℕ) : Multiset (ℕ × κ) :=
  ∑ t ∈ Finset.range K.threads, (K.pairs t (visits n K.stride (K.lane t) (K.first t)) : Multiset _)

/-- What the kernel should keep of an item, judged by the memory at its launch. -/
def accept (m : Mem) (pair : ℕ × κ) : Option ((ℕ × κ) × ω) :=
  (K.test m (K.fetch m pair.1) pair.2).map fun out => (pair, out)

/-- The accepted item of a thread which is about to increment the counter. -/
def accepting (t : ℕ) : Cursor ρ κ ω → Multiset ((ℕ × κ) × ω)
  | .reserve i _ item _ out => {((i + K.lane t, item), out)}
  | _ => 0

/-- A thread works on the original record of a valid index. -/
def Faithful (n : ℕ) (m : Mem) (t : ℕ) : Cursor ρ κ ω → Prop
  | .loop _ => True
  | .work i record _ => i + K.lane t < n ∧ record = K.fetch m (i + K.lane t)
  | .reserve i record item _ out | .store i record item _ out _ =>
      (i + K.lane t < n ∧ record = K.fetch m (i + K.lane t)) ∧ K.test m record item = some out

/-- The loop variables of a launch for `n` inputs do not wrap around. -/
structure Fits (n : ℕ) : Prop where
  bound : n + K.stride ≤ 2 ^ 32
  lane : ∀ t < K.threads, K.lane t < K.stride

/-- Nothing a kernel writes changes its tests. -/
structure Stable : Prop where
  test_setLen : ∀ m len, K.test (K.output.setLen m len) = K.test m
  test_store : ∀ m slot out, K.test (K.output.store m slot out) = K.test m

/-- Nor its inputs: they are in another buffer. -/
structure Separate : Prop extends Stable K where
  fetch_setLen : ∀ m len, K.fetch (K.output.setLen m len) = K.fetch m
  fetch_store : ∀ m slot out, K.fetch (K.output.store m slot out) = K.fetch m

/-- If the next step of thread `t` reads an input, it finds what was there at
the launch. -/
def ReadsOriginal (n : ℕ) (m : Mem) (pool : Pool Mem (Cursor ρ κ ω) (Obs κ ω)) (t : ℕ) : Prop :=
  ∀ i, pool.locals t = .loop i → i < n → K.index t i < n →
    K.fetch pool.mem (K.index t i) = K.fetch m (K.index t i)

variable {K} {n t : ℕ} {i : ℕ}

theorem Fits.index_eq (hFits : K.Fits n) (hThread : t < K.threads) (hLoop : i < n) :
    K.index t i = i + K.lane t := by
  have hBound := hFits.bound
  have hLane := hFits.lane t hThread
  exact Nat.mod_eq_of_lt (by omega)

theorem Fits.next_eq (hFits : K.Fits n) (hLoop : i < n) : K.next i = i + K.stride := by
  have hBound := hFits.bound
  exact Nat.mod_eq_of_lt (by omega)

theorem Fits.stride_pos (hFits : K.Fits n) (hThread : t < K.threads) : 0 < K.stride := by
  have hLane := hFits.lane t hThread
  omega

end Kernel

variable {K : Kernel Mem ρ κ ω} {n t : ℕ} {m₀ : Mem}

theorem remaining_moves (hFits : K.Fits n) (hThread : t < K.threads) {c c' : Cursor ρ κ ω}
    {m m' : Mem} (hFaithful : K.Faithful n m₀ t c) (hMoves : K.Moves n t c m c' m') :
    K.remaining n t c = tested (K.observe n t c m) ++ K.remaining n t c' := by
  have hStride := hFits.stride_pos hThread
  cases hMoves with
  | fetch hLoop hIndex =>
      have hObserve := hFits.index_eq hThread hLoop
      rw [hObserve] at hIndex
      simp [Kernel.remaining, Kernel.observe, tested, visits_of_lt hStride hLoop, hObserve, hIndex,
        hLoop, Kernel.pairs]
  | skip hLoop hIndex =>
      have hObserve := hFits.index_eq hThread hLoop
      rw [hObserve] at hIndex
      simp [Kernel.remaining, Kernel.observe, tested, visits_of_lt hStride hLoop, hObserve,
        not_lt.mpr hIndex, hFits.next_eq hLoop]
  | pass =>
      have hLoop := Nat.lt_of_le_of_lt (Nat.le_add_right _ _) hFaithful.1
      simp [Kernel.remaining, Kernel.observe, tested, hFits.next_eq hLoop]
  | reject hTest | accept hTest =>
      have hLoop := Nat.lt_of_le_of_lt (Nat.le_add_right _ _) hFaithful.1
      simp [Kernel.remaining, Kernel.observe, tested, hFits.index_eq hThread hLoop]
  | reserve | store hSlot | drop hSlot => rfl

theorem accepting_moves (hFits : K.Fits n) (hThread : t < K.threads) {c c' : Cursor ρ κ ω}
    {m m' : Mem} (hTests : K.test m = K.test m₀) (hFaithful : K.Faithful n m₀ t c)
    (hMoves : K.Moves n t c m c' m') :
    ((tested (K.observe n t c m)).filterMap (K.accept m₀) : Multiset ((ℕ × κ) × ω)) +
        K.accepting t c =
      (reserved (K.observe n t c m) : Multiset ((ℕ × κ) × ω)) + K.accepting t c' := by
  cases hMoves with
  | fetch hLoop hIndex => simp [Kernel.observe, hLoop, hIndex, tested, reserved, Kernel.accepting]
  | skip hLoop hIndex =>
      simp [Kernel.observe, not_lt.mpr hIndex, tested, reserved, Kernel.accepting]
  | pass => rfl
  | reject hTest | accept hTest =>
      obtain ⟨hIndex, rfl⟩ := hFaithful
      have hLoop := Nat.lt_of_le_of_lt (Nat.le_add_right _ _) hIndex
      rw [hTests] at hTest
      simp [Kernel.observe, tested, reserved, Kernel.accepting, hFits.index_eq hThread hLoop,
        Kernel.accept, hTest]
  | reserve =>
      have hLoop := Nat.lt_of_le_of_lt (Nat.le_add_right _ _) hFaithful.1.1
      simp [Kernel.observe, tested, reserved, Kernel.accepting, hFits.index_eq hThread hLoop]
  | store hSlot | drop hSlot => rfl

theorem faithful_moves (hFits : K.Fits n) (hThread : t < K.threads) {c c' : Cursor ρ κ ω}
    {m m' : Mem} (hTests : K.test m = K.test m₀) (hFaithful : K.Faithful n m₀ t c)
    (hRead : ∀ i, c = .loop i → i < n → K.index t i < n →
      K.fetch m (K.index t i) = K.fetch m₀ (K.index t i))
    (hMoves : K.Moves n t c m c' m') : K.Faithful n m₀ t c' := by
  cases hMoves with
  | fetch hLoop hIndex =>
      have hOriginal := hRead _ rfl hLoop hIndex
      rw [hFits.index_eq hThread hLoop] at hIndex hOriginal
      rw [hFits.index_eq hThread hLoop]
      exact ⟨hIndex, hOriginal⟩
  | skip hLoop hIndex => trivial
  | pass => trivial
  | reject hTest => exact hFaithful
  | accept hTest => exact ⟨hFaithful, by rw [← hTests]; exact hTest⟩
  | reserve => exact hFaithful
  | store hSlot | drop hSlot => exact hFaithful.1

theorem fetch_moves (hSeparate : K.Separate) {c c' : Cursor ρ κ ω} {m m' : Mem}
    (hMoves : K.Moves n t c m c' m') : K.fetch m' = K.fetch m := by
  cases hMoves with
  | reserve => exact hSeparate.fetch_setLen _ _
  | store hSlot => exact hSeparate.fetch_store _ _ _
  | fetch hLoop hIndex | skip hLoop hIndex => rfl
  | pass | reject hTest | accept hTest | drop hSlot => rfl

theorem test_moves (hStable : K.Stable) {c c' : Cursor ρ κ ω} {m m' : Mem}
    (hMoves : K.Moves n t c m c' m') : K.test m' = K.test m := by
  cases hMoves with
  | reserve => exact hStable.test_setLen _ _
  | store hSlot => exact hStable.test_store _ _ _
  | fetch hLoop hIndex | skip hLoop hIndex => rfl
  | pass | reject hTest | accept hTest | drop hSlot => rfl

/-- The state of the work: what was tested and what remains make up everything,
and what was accepted was counted or is about to be. -/
structure WorkInv (K : Kernel Mem ρ κ ω) (n : ℕ) (m₀ : Mem)
    (pool : Pool Mem (Cursor ρ κ ω) (Obs κ ω)) : Prop where
  tests : K.test pool.mem = K.test m₀
  faithful : ∀ t < K.threads, K.Faithful n m₀ t (pool.locals t)
  balance : (tested pool.log : Multiset (ℕ × κ)) +
    ∑ t ∈ Finset.range K.threads, (K.remaining n t (pool.locals t) : Multiset (ℕ × κ)) = K.total n
  accepts : ((tested pool.log).filterMap (K.accept m₀) : Multiset ((ℕ × κ) × ω)) =
    reserved pool.log + ∑ t ∈ Finset.range K.threads, K.accepting t (pool.locals t)

theorem workInv_start (n : ℕ) (m : Mem) : WorkInv K n m ((K.program n).start m) where
  tests := rfl
  faithful _ _ := trivial
  balance := zero_add _
  accepts := by
    have hNone : ∀ t ∈ Finset.range K.threads,
        K.accepting t (((K.program n).start m).locals t) = 0 := fun _ _ => rfl
    rw [Finset.sum_eq_zero hNone]
    rfl

theorem WorkInv.advance (hFits : K.Fits n) (hStable : K.Stable)
    {pool pool' : Pool Mem (Cursor ρ κ ω) (Obs κ ω)} (hInv : WorkInv K n m₀ pool)
    (hReads : K.ReadsOriginal n m₀ pool t)
    (hAdvance : (K.program n).advance pool t = some pool') : WorkInv K n m₀ pool' := by
  obtain ⟨hThread, next, mem, hStep, rfl⟩ := advance_eq_some.mp hAdvance
  have hThread : t < K.threads := hThread
  have hMoves := K.moves_of_step hStep
  have hFaithful := hInv.faithful t hThread
  have hObserve : (K.program n).observe t (pool.locals t) pool.mem =
      K.observe n t (pool.locals t) pool.mem := rfl
  constructor
  · exact (test_moves hStable hMoves).trans hInv.tests
  · intro u hu
    by_cases hSame : u = t
    · subst hSame
      simp only [Function.update_self]
      exact faithful_moves hFits hThread hInv.tests hFaithful hReads hMoves
    · simp only [Function.update_of_ne hSame]
      exact hInv.faithful u hu
  · have hRemaining := remaining_moves hFits hThread hFaithful hMoves
    have hSum := sum_locals_step hThread
      (fun u c => (K.remaining n u c : Multiset (ℕ × κ))) pool.locals next (a := 0)
      (b := (tested (K.observe n t (pool.locals t) pool.mem) : Multiset (ℕ × κ)))
      (by rw [zero_add, hRemaining, Multiset.coe_add])
    rw [zero_add] at hSum
    change (tested (pool.log ++ _) : Multiset (ℕ × κ)) + _ = _
    rw [hObserve, tested_append, ← Multiset.coe_add, add_assoc]
    exact (congrArg _ hSum.symm).trans hInv.balance
  · have hAccepting := accepting_moves hFits hThread hInv.tests hFaithful hMoves
    have hSum := sum_locals_step hThread K.accepting pool.locals next hAccepting
    change ((tested (pool.log ++ _)).filterMap (K.accept m₀) : Multiset ((ℕ × κ) × ω)) =
      (reserved (pool.log ++ _) : Multiset ((ℕ × κ) × ω)) + _
    rw [hObserve, tested_append, List.filterMap_append, ← Multiset.coe_add, hInv.accepts,
      reserved_append, ← Multiset.coe_add]
    calc
      _ = (reserved pool.log : Multiset ((ℕ × κ) × ω)) +
          ((tested (K.observe n t (pool.locals t) pool.mem)).filterMap (K.accept m₀) +
            ∑ u ∈ Finset.range K.threads, K.accepting u (pool.locals u)) := by ac_rfl
      _ = _ := by
          rw [hSum]
          ac_rfl

end Work

section Grid

variable {K : Kernel Mem ρ κ ω}

theorem coe_pairs (t : ℕ) (indices : List ℕ) :
    (K.pairs t indices : Multiset (ℕ × κ)) = (indices : Multiset ℕ) ×ˢ (K.items t : Multiset κ) :=
  (Multiset.coe_product indices (K.items t)).symm

theorem sum_product {α β : Type*} (places : Finset ℕ) (s : ℕ → Multiset α) (items : Multiset β) :
    ∑ place ∈ places, s place ×ˢ items = (∑ place ∈ places, s place) ×ˢ items := by
  induction places using Finset.induction_on with
  | empty => simp
  | insert place places hNew ih =>
      rw [Finset.sum_insert hNew, Finset.sum_insert hNew, ih, Multiset.add_product]

theorem product_sum {α β : Type*} (places : Finset ℕ) (indices : Multiset α)
    (items : ℕ → Multiset β) :
    ∑ place ∈ places, indices ×ˢ items place = indices ×ˢ ∑ place ∈ places, items place := by
  induction places using Finset.induction_on with
  | empty => simp
  | insert place places hNew ih =>
      rw [Finset.sum_insert hNew, Finset.sum_insert hNew, ih, Multiset.product_add]

/-- A grid of blocks: `width` threads a block, `inputs` inputs a pass and block,
and lanes and items which depend on the place in the block only. -/
theorem total_eq_sum_places {blocks width : ℕ} (inputs : ℕ) (lane : ℕ → ℕ) (items : ℕ → List κ)
    (n : ℕ) (hBlocks : 0 < blocks) (hThreads : K.threads = blocks * width)
    (hStride : K.stride = blocks * inputs)
    (hPlace : ∀ block < blocks, ∀ place < width, K.first (block * width + place) = block * inputs ∧
      K.lane (block * width + place) = lane place ∧
      K.items (block * width + place) = items place)
    (hLane : ∀ place < width, lane place < inputs) :
    K.total n = ∑ place ∈ Finset.range width,
      ((Multiset.range n).filter fun k => k % inputs = lane place) ×ˢ
        (items place : Multiset κ) := by
  rw [Kernel.total, hThreads, Reduction.sum_range_mul, Finset.sum_comm]
  apply Finset.sum_congr rfl
  intro place hMem
  have hWidth := Finset.mem_range.mp hMem
  rw [← sum_visits hBlocks (hLane place hWidth), ← sum_product]
  apply Finset.sum_congr rfl
  intro block hBlock
  obtain ⟨hFirst, hLanes, hItems⟩ := hPlace block (Finset.mem_range.mp hBlock) place hWidth
  rw [coe_pairs, hFirst, hLanes, hItems, hStride]

/-- One input a pass: the threads of a block share out its items. -/
theorem total_of_shared_items (blocks width : ℕ) (items : ℕ → List κ) (n : ℕ) (hBlocks : 0 < blocks)
    (hThreads : K.threads = blocks * width) (hStride : K.stride = blocks)
    (hPlace : ∀ block < blocks, ∀ place < width, K.first (block * width + place) = block ∧
      K.lane (block * width + place) = 0 ∧ K.items (block * width + place) = items place) :
    K.total n = Multiset.range n ×ˢ
      ∑ place ∈ Finset.range width, (items place : Multiset κ) := by
  have hTotal := total_eq_sum_places 1 (fun _ => 0) items n hBlocks hThreads
    (by rw [hStride, mul_one]) (fun block hBlock place hWidth => by
      rw [mul_one]
      exact hPlace block hBlock place hWidth) (fun _ _ => Nat.zero_lt_one)
  have hAll : ((Multiset.range n).filter fun k => k % 1 = 0) = Multiset.range n := by
    rw [Multiset.filter_eq_self]
    intro k _
    exact Nat.mod_one k
  rw [hTotal, ← product_sum]
  simp only [hAll]

/-- As many inputs a pass as threads: every thread of a block has its own lane. -/
theorem total_of_shared_inputs (blocks width : ℕ) (items : List κ) (n : ℕ) (hBlocks : 0 < blocks)
    (hWidth : 0 < width) (hThreads : K.threads = blocks * width) (hStride : K.stride = blocks * width)
    (hPlace : ∀ block < blocks, ∀ place < width,
      K.first (block * width + place) = block * width ∧ K.lane (block * width + place) = place ∧
      K.items (block * width + place) = items) :
    K.total n = Multiset.range n ×ˢ (items : Multiset κ) := by
  rw [total_eq_sum_places width (fun place => place) (fun _ => items) n hBlocks hThreads hStride
    hPlace (fun _ hPlace => hPlace), sum_product, sum_lanes hWidth]

end Grid

section Results

variable {K : Kernel Mem ρ κ ω} {n : ℕ} {m₀ : Mem} {pool : Pool Mem (Cursor ρ κ ω) (Obs κ ω)}
  {schedule : List ℕ}

theorem run_slotInv (hMax : K.output.maxLen ≤ 2 ^ 32) (hLen : K.output.len m₀ = 0)
    (hRun : (K.program n).run ((K.program n).start m₀) schedule = some pool) : SlotInv K pool :=
  Interleaving.run_invariant (SlotInv K) (fun _ _ _ hInv hAdvance => hInv.advance hMax hAdvance)
    (slotInv_start n hLen) hRun

theorem run_workInv (hFits : K.Fits n) (hStable : K.Stable)
    (hReads : Interleaving.Along (K.program n).advance (K.ReadsOriginal n m₀)
      ((K.program n).start m₀) schedule)
    (hRun : (K.program n).run ((K.program n).start m₀) schedule = some pool) :
    WorkInv K n m₀ pool :=
  Interleaving.run_invariant_along (WorkInv K n m₀)
    (fun _ _ _ hInv hRead hAdvance => hInv.advance hFits hStable hRead hAdvance)
    (workInv_start n m₀) hReads hRun

/-- A kernel whose buffers are separate reads the original inputs in every run. -/
theorem along_readsOriginal (hSeparate : K.Separate) :
    Interleaving.Along (K.program n).advance (K.ReadsOriginal n m₀) ((K.program n).start m₀)
      schedule := by
  refine Interleaving.along_of_invariant
    (fun pool : Pool Mem (Cursor ρ κ ω) (Obs κ ω) => K.fetch pool.mem = K.fetch m₀)
    (fun pool t pool' hFetch hAdvance => ?_) (fun pool t hFetch i _ _ _ => by rw [hFetch]) rfl
  obtain ⟨-, next, mem, hStep, rfl⟩ := advance_eq_some.mp hAdvance
  exact (fetch_moves hSeparate (K.moves_of_step hStep)).trans hFetch

theorem exists_loop_of_finished (hFinished : (K.program n).Finished pool) {t : ℕ}
    (hThread : t < K.threads) : ∃ i, pool.locals t = .loop i ∧ n ≤ i := by
  have hHalted := hFinished t hThread
  cases hLocal : pool.locals t with
  | loop i => exact ⟨i, rfl, by simpa [Kernel.program, Kernel.halted, hLocal] using hHalted⟩
  | work | reserve | store => simp [Kernel.program, Kernel.halted, hLocal] at hHalted

/-- Every item was tested once. -/
theorem WorkInv.tested_eq (hInv : WorkInv K n m₀ pool) (hFinished : (K.program n).Finished pool) :
    (tested pool.log : Multiset (ℕ × κ)) = K.total n := by
  have hNone : ∀ t ∈ Finset.range K.threads,
      (K.remaining n t (pool.locals t) : Multiset (ℕ × κ)) = 0 := by
    intro t hMem
    obtain ⟨i, hLocal, hEnd⟩ := exists_loop_of_finished hFinished (Finset.mem_range.mp hMem)
    rw [hLocal, Kernel.remaining, visits_of_le hEnd]
    rfl
  have hBalance := hInv.balance
  rwa [Finset.sum_eq_zero hNone, add_zero] at hBalance

/-- The counter was incremented once for each accepted item. -/
theorem WorkInv.reserved_eq (hInv : WorkInv K n m₀ pool)
    (hFinished : (K.program n).Finished pool) :
    (reserved pool.log : Multiset ((ℕ × κ) × ω)) = (K.total n).filterMap (K.accept m₀) := by
  have hNone : ∀ t ∈ Finset.range K.threads, K.accepting t (pool.locals t) = 0 := by
    intro t hMem
    obtain ⟨i, hLocal, -⟩ := exists_loop_of_finished hFinished (Finset.mem_range.mp hMem)
    rw [hLocal]
    rfl
  have hAccepts := hInv.accepts
  rw [Finset.sum_eq_zero hNone, add_zero] at hAccepts
  rw [← hAccepts, ← hInv.tested_eq hFinished, Multiset.filterMap_coe]

/-- A slot below both lengths holds the record of one of its increments. -/
theorem SlotInv.data_eq (hInv : SlotInv K pool) (hFinished : (K.program n).Finished pool) {slot : ℕ}
    (hSlot : slot < K.output.maxLen) (hLength : slot < (reserved pool.log).length) :
    ∃ j pair, j % 2 ^ 32 = slot ∧
      (reserved pool.log)[j]? = some (pair, K.output.data pool.mem slot) := by
  rcases hInv.filled slot hSlot hLength with hHeld | ⟨t, hThread, i, record, item, items, out, hStore⟩
  · exact hHeld
  · obtain ⟨i', hLocal, -⟩ := exists_loop_of_finished hFinished hThread
    rw [hStore] at hLocal
    cases hLocal

/-- Without an overflow the front of the buffer is the list of accepted records,
in the order of the increments. -/
theorem SlotInv.data_prefix (hMax : K.output.maxLen < 2 ^ 32) (hInv : SlotInv K pool)
    (hFinished : (K.program n).Finished pool)
    (hFits : (reserved pool.log).length ≤ K.output.maxLen) :
    (List.range (K.output.len pool.mem)).map (K.output.data pool.mem) =
      (reserved pool.log).map Prod.snd := by
  have hLen : K.output.len pool.mem = (reserved pool.log).length := by
    rw [hInv.len, Nat.mod_eq_of_lt (by omega)]
  rw [hLen]
  apply List.ext_getElem (by simp)
  intro slot hSlot hSlot'
  rw [List.length_map, List.length_range] at hSlot
  obtain ⟨j, pair, hj, hEntry⟩ := hInv.data_eq hFinished (hSlot.trans_le hFits) hSlot
  obtain ⟨hBound, hEntry⟩ := List.getElem?_eq_some_iff.mp hEntry
  have hSame : j = slot := by
    rw [← hj, Nat.mod_eq_of_lt (by omega)]
  subst hSame
  simp [hEntry]

/-- With an overflow every slot holds an accepted record, and no two slots the
record of one item. -/
theorem SlotInv.data_distinct (hInv : SlotInv K pool) (hFinished : (K.program n).Finished pool)
    (hNodup : ((reserved pool.log).map Prod.fst).Nodup)
    (hOver : K.output.maxLen < (reserved pool.log).length) :
    ∃ source : ℕ → ℕ × κ,
      (∀ slot < K.output.maxLen, (source slot, K.output.data pool.mem slot) ∈ reserved pool.log) ∧
      Set.InjOn source (Set.Iio K.output.maxLen) := by
  have hEntry : ∀ slot, ∃ j pair, slot < K.output.maxLen → j % 2 ^ 32 = slot ∧
      (reserved pool.log)[j]? = some (pair, K.output.data pool.mem slot) := by
    intro slot
    by_cases hSlot : slot < K.output.maxLen
    · obtain ⟨j, pair, hEntry⟩ := hInv.data_eq hFinished hSlot (hSlot.trans hOver)
      exact ⟨j, pair, fun _ => hEntry⟩
    · have hPos : 0 < (reserved pool.log).length := by omega
      exact ⟨0, ((reserved pool.log)[0]).1, fun h => absurd h hSlot⟩
  choose number source hEntry using hEntry
  refine ⟨source, fun slot hSlot => List.mem_of_getElem? (hEntry slot hSlot).2, ?_⟩
  intro slot hSlot other hOther hSame
  -- Equal items have the same place in the order of increments, so the same slot.
  obtain ⟨hNumber, hFirst⟩ := hEntry slot hSlot
  obtain ⟨hNumber', hSecond⟩ := hEntry other hOther
  have hBound : number slot < ((reserved pool.log).map Prod.fst).length := by
    rw [List.length_map]
    exact (List.getElem?_eq_some_iff.mp hFirst).1
  have hPlace : number slot = number other := by
    refine (List.getElem?_inj hBound hNodup).mp ?_
    rw [List.getElem?_map, List.getElem?_map, hFirst, hSecond, Option.map_some, Option.map_some,
      hSame]
  rw [← hNumber, ← hNumber', hPlace]

end Results

section Termination

namespace Kernel

variable (K : Kernel Mem ρ κ ω)

/-- An upper bound of the steps which a thread has left: an item takes at most
three, and a pass one more for its loop test and one to go on. -/
def stepsLeft (n t : ℕ) : Cursor ρ κ ω → ℕ
  | .loop i => (n - i) * (3 * (K.items t).length + 2)
  | .work i _ items =>
      3 * items.length + 1 + (n - (i + K.stride)) * (3 * (K.items t).length + 2)
  | .reserve i _ _ items _ =>
      3 * items.length + 3 + (n - (i + K.stride)) * (3 * (K.items t).length + 2)
  | .store i _ _ items _ _ =>
      3 * items.length + 2 + (n - (i + K.stride)) * (3 * (K.items t).length + 2)

/-- The loop variable of a thread at work is below the bound. -/
def InLoop (n : ℕ) : Cursor ρ κ ω → Prop
  | .loop _ => True
  | .work i _ _ | .reserve i _ _ _ _ | .store i _ _ _ _ _ => i < n

variable {K} {n t : ℕ}

theorem inLoop_moves {c c' : Cursor ρ κ ω} {m m' : Mem} (hLoop : InLoop n c)
    (hMoves : K.Moves n t c m c' m') : InLoop n c' := by
  cases hMoves with
  | fetch hIn hIndex => exact hIn
  | skip hIn hIndex => trivial
  | pass => trivial
  | reject hTest | accept hTest | reserve | store hSlot | drop hSlot => exact hLoop

theorem stepsLeft_moves (hFits : K.Fits n) (hThread : t < K.threads) {c c' : Cursor ρ κ ω}
    {m m' : Mem} (hLoop : InLoop n c) (hMoves : K.Moves n t c m c' m') :
    K.stepsLeft n t c' < K.stepsLeft n t c := by
  have hStride := hFits.stride_pos hThread
  have hPass : ∀ i < n, (n - (i + K.stride)) * (3 * (K.items t).length + 2) +
      (3 * (K.items t).length + 2) ≤ (n - i) * (3 * (K.items t).length + 2) := by
    intro i hIn
    have hLess : n - (i + K.stride) + 1 ≤ n - i := by omega
    calc
      _ = (n - (i + K.stride) + 1) * (3 * (K.items t).length + 2) := by ring
      _ ≤ _ := Nat.mul_le_mul_right _ hLess
  cases hMoves with
  | @fetch i m hIn hIndex =>
      have hNext := hPass i hIn
      simp only [stepsLeft]
      omega
  | @skip i m hIn hIndex =>
      have hNext := hPass i hIn
      simp only [stepsLeft, hFits.next_eq hIn]
      omega
  | pass =>
      simp only [stepsLeft, hFits.next_eq hLoop, List.length_nil]
      omega
  | reject hTest | accept hTest =>
      simp only [stepsLeft, List.length_cons]
      omega
  | reserve | store hSlot | drop hSlot =>
      simp only [stepsLeft]
      omega

theorem step_of_not_halted {c : Cursor ρ κ ω} (m : Mem) (hRuns : halted n c = false) :
    ∃ c' m', K.step n t c m = some (c', m') := by
  cases c with
  | loop i =>
      have hLoop : i < n := by simpa [halted] using hRuns
      simp only [step, if_pos hLoop]
      split <;> exact ⟨_, _, rfl⟩
  | work i record items =>
      cases items with
      | nil => exact ⟨_, _, rfl⟩
      | cons item items =>
          simp only [step]
          split <;> exact ⟨_, _, rfl⟩
  | reserve i record item items out => exact ⟨_, _, rfl⟩
  | store i record item items out slot => exact ⟨_, _, rfl⟩

/-- A launch whose loop variables do not wrap around can be run to its end. -/
theorem exists_run_finished (hFits : K.Fits n) (m : Mem) :
    ∃ schedule pool, (K.program n).run ((K.program n).start m) schedule = some pool ∧
      (K.program n).Finished pool := by
  have hStart : True ∧ ∀ t < K.threads, InLoop n (((K.program n).start m).locals t) :=
    ⟨trivial, fun _ _ => trivial⟩
  refine ThreadPool.exists_run_finished
    (fun pool => True ∧ ∀ t < K.threads, InLoop n (pool.locals t)) (K.stepsLeft n) ?_ ?_ _ hStart
  · intro pool t pool' hInv hAdvance
    refine advance_local_invariant (I := fun _ => True) (J := fun _ _ c => InLoop n c) ?_ hInv hAdvance
    intro t c m c' m' _ _ hLoop hStep
    exact ⟨trivial, inLoop_moves hLoop (K.moves_of_step hStep), fun _ _ _ hOther => hOther⟩
  · intro pool hInv hRuns
    simp only [Program.Finished, not_forall] at hRuns
    obtain ⟨t, hThread, hRuns⟩ := hRuns
    obtain ⟨c', m', hStep⟩ := step_of_not_halted pool.mem (Bool.eq_false_iff.mpr hRuns)
    exact ⟨t, hThread, c', m', hStep,
      stepsLeft_moves hFits hThread (hInv.2 t hThread) (K.moves_of_step hStep)⟩

end Kernel

end Termination

section Passes

variable {K : Kernel Mem ρ κ ω} {n t i : ℕ}

/-- Some run leads thread `t` to the loop test with variable `i`. -/
def Kernel.CanLoop (K : Kernel Mem ρ κ ω) (n t i : ℕ) (pool : Pool Mem (Cursor ρ κ ω) (Obs κ ω)) :
    Prop :=
  ∃ schedule pool', (K.program n).run pool schedule = some pool' ∧ pool'.locals t = .loop i

/-- It may begin with a step of the thread itself. -/
theorem canLoop_of_step {pool : Pool Mem (Cursor ρ κ ω) (Obs κ ω)} {c : Cursor ρ κ ω} {m : Mem}
    (hThread : t < K.threads) (hStep : K.step n t (pool.locals t) pool.mem = some (c, m))
    (hRest : ∀ log, K.CanLoop n t i ⟨Function.update pool.locals t c, m, log⟩) :
    K.CanLoop n t i pool := by
  obtain ⟨schedule, pool', hRun, hLocal⟩ := hRest (pool.log ++ K.observe n t (pool.locals t) pool.mem)
  have hAdvance : (K.program n).advance pool t = some ⟨Function.update pool.locals t c, m, _⟩ :=
    advance_eq_some.mpr ⟨hThread, c, m, hStep, rfl⟩
  exact ⟨t :: schedule, pool', Interleaving.run_cons.mpr ⟨_, hAdvance, hRun⟩, hLocal⟩

/-- A thread alone can test the rest of its items. -/
theorem canLoop_of_work {record : ρ} (hThread : t < K.threads) (items : List κ)
    (pool : Pool Mem (Cursor ρ κ ω) (Obs κ ω)) (hLocal : pool.locals t = .work i record items) :
    K.CanLoop n t (K.next i) pool := by
  induction items generalizing pool with
  | nil =>
      refine canLoop_of_step hThread (by rw [hLocal]; rfl) fun log => ⟨[], _, rfl, ?_⟩
      exact Function.update_self ..
  | cons item items ih =>
      cases hTest : K.test pool.mem record item with
      | none =>
          refine canLoop_of_step hThread (by rw [hLocal, Kernel.step, hTest]) fun log => ih _ ?_
          exact Function.update_self ..
      | some out =>
          apply canLoop_of_step hThread (by rw [hLocal, Kernel.step, hTest])
          intro log
          apply canLoop_of_step hThread (by simp only [Function.update_self, Kernel.step]; rfl)
          intro log
          refine canLoop_of_step hThread (by simp only [Function.update_self, Kernel.step]; rfl)
            fun log => ih _ ?_
          exact Function.update_self ..

/-- And can come to every loop variable of its own. -/
theorem canLoop_start (hFits : K.Fits n) (hThread : t < K.threads) (m : Mem) (pass : ℕ)
    (hBound : ∀ before < pass, K.first t + before * K.stride < n) :
    K.CanLoop n t (K.first t + pass * K.stride) ((K.program n).start m) := by
  induction pass with
  | zero => exact ⟨[], _, rfl, by simp [Kernel.program, Program.start]⟩
  | succ pass ih =>
      obtain ⟨schedule, pool, hRun, hLocal⟩ := ih fun before hBefore => hBound before (by omega)
      have hLoop := hBound pass (Nat.lt_succ_self pass)
      have hNext : K.next (K.first t + pass * K.stride) = K.first t + (pass + 1) * K.stride := by
        rw [hFits.next_eq hLoop]
        ring
      have hRest : K.CanLoop n t (K.first t + (pass + 1) * K.stride) pool := by
        rw [← hNext]
        by_cases hIndex : K.index t (K.first t + pass * K.stride) < n
        · refine canLoop_of_step hThread (by rw [hLocal, Kernel.step, if_pos hLoop, if_pos hIndex])
            fun log => canLoop_of_work hThread (K.items t) _ (Function.update_self ..)
        · refine canLoop_of_step hThread (by rw [hLocal, Kernel.step, if_pos hLoop, if_neg hIndex])
            fun log => ⟨[], _, rfl, Function.update_self ..⟩
      obtain ⟨more, pool', hMore, hLocal'⟩ := hRest
      refine ⟨schedule ++ more, pool', ?_, hLocal'⟩
      rw [Program.run, Interleaving.run_append]
      exact Option.bind_eq_some_iff.mpr ⟨pool, hRun, hMore⟩

end Passes

end AtomicAppend
