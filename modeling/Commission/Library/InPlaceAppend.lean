import Commission.Library.AtomicAppend

/-! Appending kernels whose output lies over their input: an accepted record may
go to a slot which another thread has still to read. -/
namespace AtomicAppend

open ThreadPool StrideLoop

variable {Mem ρ κ ω : Type*}

/-- The loop variable of the next read of a thread. -/
def Cursor.nextRead (stride : ℕ) : Cursor ρ κ ω → ℕ
  | .loop i => i
  | .work i _ _ | .reserve i _ _ _ _ | .store i _ _ _ _ _ => i + stride

/-- The inputs are the elements of the output buffer, seen through `view`, and
thread `t` reads the indices `t`, `t + stride`, and so on. -/
structure InPlace (K : Kernel Mem ρ κ ω) (view : ω → ρ) : Prop extends Kernel.Stable K where
  fetch_eq : ∀ m i, K.fetch m i = view (K.output.data m i)
  threads_eq : K.threads = K.stride
  first_eq : ∀ t, K.first t = t
  lane_eq : ∀ t, K.lane t = 0

/-- The input is still to be read by the thread it belongs to. -/
def Unread (K : Kernel Mem ρ κ ω) (pool : Pool Mem (Cursor ρ κ ω) (Obs κ ω)) (slot : ℕ) : Prop :=
  (pool.locals (slot % K.stride)).nextRead K.stride ≤ slot

/-- The next step of thread `t` does not replace an unread input by another
record. -/
def KeepsUnread (K : Kernel Mem ρ κ ω) (view : ω → ρ) (n : ℕ)
    (pool : Pool Mem (Cursor ρ κ ω) (Obs κ ω)) (t : ℕ) : Prop :=
  ∀ i record item items out slot, pool.locals t = .store i record item items out slot →
    slot < K.output.maxLen → slot < n → Unread K pool slot → view out = K.fetch pool.mem slot

/-- Every thread is at an index of its own, and what is unread is as it was at the
launch. -/
structure UnreadInv (K : Kernel Mem ρ κ ω) (n : ℕ) (m₀ : Mem)
    (pool : Pool Mem (Cursor ρ κ ω) (Obs κ ω)) : Prop where
  owner : ∀ t < K.threads, (pool.locals t).nextRead K.stride % K.stride = t
  inLoop : ∀ t < K.threads, Kernel.InLoop n (pool.locals t)
  original : ∀ slot < n, Unread K pool slot → K.fetch pool.mem slot = K.fetch m₀ slot

section Moves

variable {K : Kernel Mem ρ κ ω} {n t : ℕ}

/-- A step leaves the index of the next read, or goes on by one stride. -/
theorem nextRead_moves (hFits : K.Fits n) {c c' : Cursor ρ κ ω} {m m' : Mem}
    (hLoop : Kernel.InLoop n c) (hMoves : K.Moves n t c m c' m') :
    c'.nextRead K.stride = c.nextRead K.stride ∨
      c'.nextRead K.stride = c.nextRead K.stride + K.stride := by
  cases hMoves with
  | fetch hIn hIndex => exact .inr rfl
  | skip hIn hIndex => exact .inr (hFits.next_eq hIn)
  | pass => exact .inl (hFits.next_eq hLoop)
  | reject hTest | accept hTest | reserve | store hSlot | drop hSlot => exact .inl rfl

/-- A step keeps the inputs apart from a slot it writes. -/
theorem fetch_moves_in_place {view : ω → ρ} (hInPlace : InPlace K view) {c c' : Cursor ρ κ ω}
    {m m' : Mem} (hMoves : K.Moves n t c m c' m') (slot : ℕ)
    (hSame : ∀ i record item items out, c = .store i record item items out slot →
      slot < K.output.maxLen → view out = K.fetch m slot) :
    K.fetch m' slot = K.fetch m slot := by
  cases hMoves with
  | reserve => rw [hInPlace.fetch_eq, hInPlace.fetch_eq, K.output.data_setLen]
  | @store i record item items out written _ hSlot =>
      by_cases hWritten : slot = written
      · subst hWritten
        rw [← hSame i record item items out rfl hSlot, hInPlace.fetch_eq, K.output.data_store,
          Function.update_self]
      · rw [hInPlace.fetch_eq, hInPlace.fetch_eq, K.output.data_store,
          Function.update_of_ne hWritten]
  | fetch hIn hIndex | skip hIn hIndex => rfl
  | pass | reject hTest | accept hTest | drop hSlot => rfl

end Moves

section Run

variable {K : Kernel Mem ρ κ ω} {view : ω → ρ} {n t : ℕ} {m₀ : Mem}
  {pool pool' : Pool Mem (Cursor ρ κ ω) (Obs κ ω)} {schedule : List ℕ}

theorem unreadInv_start (hInPlace : InPlace K view) (n : ℕ) (m : Mem) :
    UnreadInv K n m ((K.program n).start m) where
  owner t hThread := by
    rw [hInPlace.threads_eq] at hThread
    change K.first t % K.stride = t
    rw [hInPlace.first_eq, Nat.mod_eq_of_lt hThread]
  inLoop _ _ := trivial
  original _ _ _ := rfl

theorem UnreadInv.advance (hFits : K.Fits n) (hInPlace : InPlace K view)
    (hInv : UnreadInv K n m₀ pool) (hKeeps : KeepsUnread K view n pool t)
    (hAdvance : (K.program n).advance pool t = some pool') : UnreadInv K n m₀ pool' := by
  obtain ⟨hThread, next, mem, hStep, rfl⟩ := advance_eq_some.mp hAdvance
  have hThread : t < K.threads := hThread
  have hMoves := K.moves_of_step hStep
  have hNext := nextRead_moves hFits (hInv.inLoop t hThread) hMoves
  -- The threads read on, so that what is unread after the step was so before it.
  have hUnread : ∀ log slot, Unread K ⟨Function.update pool.locals t next, mem, log⟩ slot →
      Unread K pool slot := by
    intro log slot hSlot
    by_cases hSame : slot % K.stride = t
    · simp only [Unread, hSame, Function.update_self] at hSlot ⊢
      omega
    · simpa only [Unread, Function.update_of_ne hSame] using hSlot
  constructor
  · intro u hu
    by_cases hSame : u = t
    · subst hSame
      simp only [Function.update_self]
      rcases hNext with hNext | hNext
      · rw [hNext]
        exact hInv.owner u hu
      · rw [hNext, Nat.add_mod_right]
        exact hInv.owner u hu
    · simp only [Function.update_of_ne hSame]
      exact hInv.owner u hu
  · intro u hu
    by_cases hSame : u = t
    · subst hSame
      simp only [Function.update_self]
      exact Kernel.inLoop_moves (hInv.inLoop u hu) hMoves
    · simp only [Function.update_of_ne hSame]
      exact hInv.inLoop u hu
  · intro slot hSlot hAfter
    have hBefore := hUnread _ slot hAfter
    refine Eq.trans ?_ (hInv.original slot hSlot hBefore)
    apply fetch_moves_in_place hInPlace hMoves slot
    intro i record item items out hStore hMax
    exact hKeeps i record item items out slot hStore hMax hSlot hBefore

/-- A run which keeps the unread inputs reads the original ones. -/
theorem along_readsOriginal_of_keepsUnread (hFits : K.Fits n) (hInPlace : InPlace K view)
    (hKeeps : Interleaving.Along (K.program n).advance (KeepsUnread K view n)
      ((K.program n).start m₀) schedule)
    (hRun : (K.program n).run ((K.program n).start m₀) schedule = some pool) :
    Interleaving.Along (K.program n).advance (K.ReadsOriginal n m₀) ((K.program n).start m₀)
      schedule := by
  refine Interleaving.along_of_invariant_along (UnreadInv K n m₀)
    (fun _ _ _ hInv hKeeps hAdvance => hInv.advance hFits hInPlace hKeeps hAdvance)
    (fun pool t pool' hInv hAdvance i hLocal hLoop hIndex => ?_) (unreadInv_start hInPlace n m₀)
    hKeeps hRun
  obtain ⟨hThread, -⟩ := advance_eq_some.mp hAdvance
  have hOwner := hInv.owner t hThread
  rw [hLocal] at hOwner
  have hIndexEq : K.index t i = i := by
    rw [hFits.index_eq hThread hLoop, hInPlace.lane_eq, Nat.add_zero]
  rw [hIndexEq]
  apply hInv.original i hLoop
  change (pool.locals (i % K.stride)).nextRead K.stride ≤ i
  change i % K.stride = t at hOwner
  rw [hOwner, hLocal]
  exact Nat.le_refl i

end Run

section Pass

variable {K : Kernel Mem ρ κ ω} {n t i : ℕ} (pool : Pool Mem (Cursor ρ κ ω) (Obs κ ω)) {item : κ}
  {out : ω}

/-- One pass of a thread alone, with a single item which is accepted and for
which there is room. -/
theorem run_pass (hThread : t < K.threads) (hLocal : pool.locals t = .loop i) (hLoop : i < n)
    (hIndex : K.index t i < n) (hItems : K.items t = [item])
    (hTest : K.test pool.mem (K.fetch pool.mem (K.index t i)) item = some out)
    (hRoom : K.output.len pool.mem < K.output.maxLen) :
    ∃ log, (K.program n).run pool [t, t, t, t, t] =
      some ⟨Function.update pool.locals t (.loop (K.next i)),
        K.output.store (K.output.setLen pool.mem ((K.output.len pool.mem + 1) % 2 ^ 32))
          (K.output.len pool.mem) out, log⟩ := by
  simp only [Program.run, Interleaving.run, Program.advance, Kernel.program, hThread, if_true,
    hLocal, Kernel.step, hLoop, hIndex, hItems, hTest, hRoom, Option.map_some, Option.bind_some,
    Function.update_self, Function.update_idem, Option.some.injEq, Pool.mk.injEq, true_and,
    exists_eq']

/-- A condition along such a pass: it has to hold before the write, where it does
not concern the other steps. -/
theorem along_pass {P : Pool Mem (Cursor ρ κ ω) (Obs κ ω) → ℕ → Prop} {rest : List ℕ}
    (hThread : t < K.threads) (hLocal : pool.locals t = .loop i) (hLoop : i < n)
    (hIndex : K.index t i < n) (hItems : K.items t = [item])
    (hTest : K.test pool.mem (K.fetch pool.mem (K.index t i)) item = some out)
    (hRoom : K.output.len pool.mem < K.output.maxLen)
    (hQuiet : ∀ pool, (∀ i record item items out slot,
      pool.locals t ≠ .store i record item items out slot) → P pool t)
    (hStore : ∀ log, P ⟨Function.update pool.locals t
      (.store i (K.fetch pool.mem (K.index t i)) item [] out (K.output.len pool.mem)),
        K.output.setLen pool.mem ((K.output.len pool.mem + 1) % 2 ^ 32), log⟩ t)
    (hRest : ∀ log, Interleaving.Along (K.program n).advance P
      ⟨Function.update pool.locals t (.loop (K.next i)),
        K.output.store (K.output.setLen pool.mem ((K.output.len pool.mem + 1) % 2 ^ 32))
          (K.output.len pool.mem) out, log⟩ rest) :
    Interleaving.Along (K.program n).advance P pool (t :: t :: t :: t :: t :: rest) := by
  simp only [Interleaving.Along, Program.advance, Kernel.program, hThread, if_true,
    hLocal, Kernel.step, hLoop, hIndex, hItems, hTest, hRoom, Option.map_some, Option.some.injEq,
    Function.update_self, Function.update_idem, forall_eq']
  refine ⟨hQuiet _ (by simp [hLocal]), hQuiet _ (by simp), hQuiet _ (by simp), hStore _,
    hQuiet _ (by simp), hRest _⟩

end Pass

end AtomicAppend
