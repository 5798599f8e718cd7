import Commission.Library.InPlaceAppend
import Mathlib.Data.Int.ModEq

/-! Every launch of an in-place kernel with at most one record for each input can
be ordered so that no record replaces an unread one: input by input. -/
namespace AtomicAppend

open ThreadPool StrideLoop

variable {Mem ρ κ ω : Type*}

/-- The thread whose turn it is to handle input `i`, with `len` records in the
buffer so far. -/
def Cursor.InTurn (i len : ℕ) : Cursor ρ κ ω → Prop
  | .loop j => j = i ∧ len ≤ i
  | .work j _ items => j = i ∧ items.length ≤ 1 ∧ len + items.length ≤ i + 1
  | .reserve j _ _ items _ => j = i ∧ items = [] ∧ len ≤ i
  | .store j _ _ items _ slot => j = i ∧ items = [] ∧ len ≤ i + 1 ∧ slot ≤ i

/-- The steps of the thread until the next input has its turn, at most. -/
def Cursor.turnLeft : Cursor ρ κ ω → ℕ
  | .loop _ => 5
  | .work _ _ items => 3 * items.length + 1
  | .reserve _ _ _ _ _ => 3
  | .store _ _ _ _ _ _ => 2

theorem Cursor.turnLeft_pos (c : Cursor ρ κ ω) : 0 < c.turnLeft := by
  cases c with
  | loop | work | reserve | store => exact Nat.succ_pos _

/-- Input `i` has its turn: the other threads are all before a later input. -/
structure InTurn (K : Kernel Mem ρ κ ω) (n i : ℕ) (pool : Pool Mem (Cursor ρ κ ω) (Obs κ ω)) :
    Prop where
  turn : (pool.locals (i % K.stride)).InTurn i (K.output.len pool.mem)
  inLoop : Kernel.InLoop n (pool.locals (i % K.stride))
  others : ∀ t < K.stride, t ≠ i % K.stride →
    ∃ j, pool.locals t = .loop j ∧ i < j ∧ j < i + K.stride ∧ j % K.stride = t

section InTurn

variable {K : Kernel Mem ρ κ ω} {view : ω → ρ} {n i : ℕ}
  {pool : Pool Mem (Cursor ρ κ ω) (Obs κ ω)} {c : Cursor ρ κ ω} {m : Mem} {log : List (Obs κ ω)}

theorem inTurn_start (hInPlace : InPlace K view) (hLen : K.output.len m = 0) : InTurn K n 0 ((K.program n).start m) := by
  constructor
  · change K.first (0 % K.stride) = 0 ∧ K.output.len m ≤ 0
    rw [hInPlace.first_eq, Nat.zero_mod, hLen]
    exact ⟨rfl, Nat.le_refl 0⟩
  · trivial
  · intro t ht hOther
    rw [Nat.zero_mod] at hOther
    refine ⟨t, ?_, by omega, by omega, Nat.mod_eq_of_lt ht⟩
    exact congrArg Cursor.loop (hInPlace.first_eq t)

/-- The thread goes on with its input. -/
theorem InTurn.goOn (hInv : InTurn K n i pool) (hTurn : c.InTurn i (K.output.len m))
    (hLoop : Kernel.InLoop n c) :
    InTurn K n i ⟨Function.update pool.locals (i % K.stride) c, m, log⟩ := by
  refine ⟨?_, ?_, fun t ht hOther => ?_⟩
  · simpa only [Function.update_self] using hTurn
  · simpa only [Function.update_self] using hLoop
  · simp only [Function.update_of_ne hOther]
    exact hInv.others t ht hOther

/-- When the thread is done with its input, the thread of the next one is before it. -/
theorem InTurn.next_loop (hStride : 0 < K.stride) (hInv : InTurn K n i pool) :
    Function.update pool.locals (i % K.stride) (.loop (i + K.stride)) ((i + 1) % K.stride) =
      .loop (i + 1) := by
  by_cases hSame : (i + 1) % K.stride = i % K.stride
  · -- A single thread has every turn.
    have hDvd := (Nat.modEq_iff_dvd' (Nat.le_succ i)).mp hSame.symm
    rw [Nat.succ_eq_add_one, Nat.add_sub_cancel_left] at hDvd
    rw [hSame, Function.update_self, Nat.dvd_one.mp hDvd]
  · obtain ⟨j, hLocal, hAfter, hBefore, hOwn⟩ := hInv.others _ (Nat.mod_lt (i + 1) hStride) hSame
    have hDvd := (Nat.modEq_iff_dvd' hAfter).mp hOwn.symm
    have hZero : j - (i + 1) = 0 := Nat.eq_zero_of_dvd_of_lt hDvd (by omega)
    have hNext : j = i + 1 := by omega
    rw [Function.update_of_ne hSame, hLocal, hNext]

/-- And the next input has its turn. -/
theorem InTurn.goNext (hStride : 0 < K.stride) (hInv : InTurn K n i pool)
    (hLen : K.output.len m ≤ i + 1) :
    InTurn K n (i + 1)
      ⟨Function.update pool.locals (i % K.stride) (.loop (i + K.stride)), m, log⟩ := by
  have hNext := hInv.next_loop hStride
  refine ⟨?_, ?_, fun t ht hOther => ?_⟩
  · change Cursor.InTurn _ _ (Function.update pool.locals _ _ _)
    rw [hNext]
    exact ⟨rfl, hLen⟩
  · change Kernel.InLoop n (Function.update pool.locals _ _ _)
    rw [hNext]
    trivial
  · by_cases hSame : t = i % K.stride
    · subst hSame
      have hMany : K.stride ≠ 1 := by
        intro hOne
        rw [hOne, Nat.mod_one, Nat.mod_one] at hOther
        exact hOther rfl
      exact ⟨i + K.stride, Function.update_self .., by omega, by omega, Nat.add_mod_right ..⟩
    · obtain ⟨j, hLocal, hAfter, hBefore, hOwn⟩ := hInv.others t ht hSame
      refine ⟨j, ?_, ?_, by omega, hOwn⟩
      · simpa only [Function.update_of_ne hSame] using hLocal
      · rcases Nat.lt_or_eq_of_le hAfter with hLater | hHere
        · exact hLater
        · exact absurd (by rw [← hOwn, ← hHere]) hOther

/-- What a step of the thread does to the turn. -/
theorem InTurn.advance (hFits : K.Fits n) (hInPlace : InPlace K view) (hStride : 0 < K.stride)
    (hItems : ∀ t < K.threads, (K.items t).length ≤ 1) (hInv : InTurn K n i pool)
    (hStep : K.step n (i % K.stride) (pool.locals (i % K.stride)) pool.mem = some (c, m)) :
    (InTurn K n i ⟨Function.update pool.locals (i % K.stride) c, m, log⟩ ∧
        c.turnLeft < (pool.locals (i % K.stride)).turnLeft) ∨
      (i < n ∧ InTurn K n (i + 1) ⟨Function.update pool.locals (i % K.stride) c, m, log⟩ ∧
        Function.update pool.locals (i % K.stride) c ((i + 1) % K.stride) = .loop (i + 1)) := by
  have hThread : i % K.stride < K.threads := by
    rw [hInPlace.threads_eq]
    exact Nat.mod_lt i hStride
  have hOne := hItems _ hThread
  have hTurn := hInv.turn
  have hLoop := hInv.inLoop
  generalize hLocal : pool.locals (i % K.stride) = before at hStep hTurn hLoop
  have hMoves := K.moves_of_step hStep
  have hReserve := Nat.mod_le (K.output.len pool.mem + 1) (2 ^ 32)
  cases hMoves with
  | fetch hIn hIndex =>
      obtain ⟨rfl, hLen⟩ := hTurn
      refine .inl ⟨hInv.goOn ⟨rfl, hOne, by omega⟩ hIn, ?_⟩
      simp only [Cursor.turnLeft]
      omega
  | skip hIn hIndex =>
      obtain ⟨rfl, hLen⟩ := hTurn
      rw [hFits.next_eq hIn]
      exact .inr ⟨hIn, hInv.goNext hStride (by omega), hInv.next_loop hStride⟩
  | pass =>
      obtain ⟨rfl, -, hLen⟩ := hTurn
      rw [hFits.next_eq hLoop]
      exact .inr ⟨hLoop, hInv.goNext hStride hLen, hInv.next_loop hStride⟩
  | reject hTest =>
      obtain ⟨rfl, hItem, hLen⟩ := hTurn
      rw [List.length_cons] at hItem hLen
      refine .inl ⟨hInv.goOn ⟨rfl, by omega, by omega⟩ hLoop, ?_⟩
      simp only [Cursor.turnLeft, List.length_cons]
      omega
  | accept hTest =>
      obtain ⟨rfl, hItem, hLen⟩ := hTurn
      rw [List.length_cons] at hItem hLen
      refine .inl ⟨hInv.goOn ⟨rfl, List.length_eq_zero_iff.mp (by omega), by omega⟩ hLoop, ?_⟩
      simp only [Cursor.turnLeft, List.length_cons]
      omega
  | reserve =>
      obtain ⟨rfl, rfl, hLen⟩ := hTurn
      refine .inl ⟨hInv.goOn ⟨rfl, rfl, ?_, hLen⟩ hLoop, Nat.lt_succ_self 2⟩
      rw [K.output.len_setLen]
      omega
  | store hSlot =>
      obtain ⟨rfl, rfl, hLen, -⟩ := hTurn
      refine .inl ⟨hInv.goOn ⟨rfl, Nat.zero_le 1, ?_⟩ hLoop, Nat.lt_succ_self 1⟩
      rw [K.output.len_store]
      exact hLen
  | drop hSlot =>
      obtain ⟨rfl, rfl, hLen, -⟩ := hTurn
      exact .inl ⟨hInv.goOn ⟨rfl, Nat.zero_le 1, hLen⟩ hLoop, Nat.lt_succ_self 1⟩

/-- A record goes to a slot whose input has been read. -/
theorem InTurn.keepsUnread (hStride : 0 < K.stride) (hInv : InTurn K n i pool) :
    KeepsUnread K view n pool (i % K.stride) := by
  intro j record item items out slot hLocal _ _ hUnread
  have hTurn := hInv.turn
  rw [hLocal] at hTurn
  obtain ⟨rfl, -, -, hSlot⟩ := hTurn
  by_cases hSame : slot % K.stride = j % K.stride
  · simp only [Unread, hSame, hLocal, Cursor.nextRead] at hUnread
    omega
  · obtain ⟨k, hOther, hAfter, -⟩ := hInv.others _ (Nat.mod_lt slot hStride) hSame
    simp only [Unread, hOther, Cursor.nextRead] at hUnread
    omega

/-- When the turn has come to the end of the inputs, all threads have ended. -/
theorem InTurn.lt_of_not_finished (hInPlace : InPlace K view) (hInv : InTurn K n i pool)
    (hRuns : ¬ (K.program n).Finished pool) :
    i < n ∨ Kernel.halted n (pool.locals (i % K.stride)) = false := by
  by_contra hEnd
  rw [not_or, not_lt, Bool.not_eq_false] at hEnd
  refine hRuns fun t hThread => ?_
  by_cases hSame : t = i % K.stride
  · subst hSame
    exact hEnd.2
  · have hThread : t < K.stride := hInPlace.threads_eq ▸ hThread
    obtain ⟨j, hLocal, hAfter, -⟩ := hInv.others t hThread hSame
    rw [hLocal]
    exact decide_eq_true (hEnd.1.trans hAfter.le)

end InTurn

variable {K : Kernel Mem ρ κ ω} {view : ω → ρ} {n : ℕ} {m : Mem}

/-- Handling one input after the other ends the launch and keeps what is unread. -/
theorem exists_run_keepsUnread (hFits : K.Fits n) (hInPlace : InPlace K view)
    (hItems : ∀ t < K.threads, (K.items t).length ≤ 1) (hLen : K.output.len m = 0)
    (hThreads : 0 < K.threads) :
    ∃ schedule pool, (K.program n).run ((K.program n).start m) schedule = some pool ∧
      Interleaving.Along (K.program n).advance (KeepsUnread K view n) ((K.program n).start m)
        schedule ∧
      (K.program n).Finished pool := by
  have hStride : 0 < K.stride := hInPlace.threads_eq ▸ hThreads
  refine Interleaving.exists_along_of_rank
    (fun rank pool => ∃ i, InTurn K n i pool ∧
      rank = (n - i) * 5 + (pool.locals (i % K.stride)).turnLeft)
    ((K.program n).Finished) ?_ ⟨0, inTurn_start hInPlace hLen, rfl⟩
  rintro rank pool ⟨i, hInv, rfl⟩ hRuns
  have hThread : i % K.stride < K.threads := by
    rw [hInPlace.threads_eq]
    exact Nat.mod_lt i hStride
  have hTurn : Kernel.halted n (pool.locals (i % K.stride)) = false := by
    rcases hInv.lt_of_not_finished hInPlace hRuns with hLt | hTurn
    · have hHere := hInv.turn
      cases hLocal : pool.locals (i % K.stride) with
      | loop j =>
          rw [hLocal] at hHere
          obtain ⟨rfl, -⟩ := hHere
          exact decide_eq_false (not_le.mpr hLt)
      | work | reserve | store => rfl
    · exact hTurn
  obtain ⟨c, mem, hStep⟩ := Kernel.step_of_not_halted (t := i % K.stride) pool.mem hTurn
  refine ⟨i % K.stride, _, advance_eq_some.mpr ⟨hThread, c, mem, hStep, rfl⟩,
    hInv.keepsUnread hStride, ?_⟩
  rcases hInv.advance hFits hInPlace hStride hItems hStep with
    ⟨hSame, hLess⟩ | ⟨hLt, hNext, hLocal⟩
  · refine ⟨_, ?_, i, hSame, rfl⟩
    simp only [Function.update_self]
    omega
  · have hBefore := Cursor.turnLeft_pos (pool.locals (i % K.stride))
    refine ⟨(n - (i + 1)) * 5 + 5, by omega, i + 1, hNext, ?_⟩
    simp only [hLocal, Cursor.turnLeft]

end AtomicAppend
