import Commission.Library.AtomicAppend

/-! What holds of every record: a predicate of the inputs of an appending kernel
which its tests hand on to the outputs. The output may lie over the input. -/
namespace AtomicAppend

open ThreadPool

variable {Mem ρ κ ω : Type*}

/-- The kernel takes records with `R` from a memory with `I` and writes only
records with `G`, which keep `I`. -/
structure Carries (K : Kernel Mem ρ κ ω) (n : ℕ) (I : Mem → Prop) (R : ρ → Prop) (G : ω → Prop) :
    Prop where
  setLen : ∀ m len, I m → I (K.output.setLen m len)
  store : ∀ m slot out, I m → G out → I (K.output.store m slot out)
  fetch : ∀ m i, I m → i < n → R (K.fetch m i)
  test : ∀ m record item out, I m → R record → K.test m record item = some out → G out

/-- The record at which a thread is. -/
def Cursor.Holds (R : ρ → Prop) (G : ω → Prop) : Cursor ρ κ ω → Prop
  | .loop _ => True
  | .work _ record _ => R record
  | .reserve _ record _ _ out | .store _ record _ _ out _ => R record ∧ G out

structure RecordInv (K : Kernel Mem ρ κ ω) (I : Mem → Prop) (R : ρ → Prop) (G : ω → Prop)
    (pool : Pool Mem (Cursor ρ κ ω) (Obs κ ω)) : Prop where
  mem : I pool.mem
  locals : ∀ t < K.threads, (pool.locals t).Holds R G
  reserved : ∀ entry ∈ reserved pool.log, G entry.2

section Step

variable {K : Kernel Mem ρ κ ω} {n t : ℕ} {I : Mem → Prop} {R : ρ → Prop} {G : ω → Prop}

theorem Carries.moves (hCarries : Carries K n I R G) {c c' : Cursor ρ κ ω} {m m' : Mem}
    (hMem : I m) (hHolds : c.Holds R G) (hMoves : K.Moves n t c m c' m') :
    I m' ∧ c'.Holds R G ∧ ∀ entry ∈ reserved (K.observe n t c m), G entry.2 := by
  cases hMoves with
  | fetch hLoop hIndex =>
      refine ⟨hMem, hCarries.fetch _ _ hMem hIndex, ?_⟩
      simp [Kernel.observe, hLoop, hIndex, AtomicAppend.reserved]
  | skip hLoop hIndex =>
      refine ⟨hMem, trivial, ?_⟩
      simp [Kernel.observe, not_lt.mpr hIndex, AtomicAppend.reserved]
  | pass => exact ⟨hMem, trivial, fun _ hNone => absurd hNone List.not_mem_nil⟩
  | reject hTest => exact ⟨hMem, hHolds, fun _ hNone => absurd hNone List.not_mem_nil⟩
  | accept hTest =>
      exact ⟨hMem, ⟨hHolds, hCarries.test _ _ _ _ hMem hHolds hTest⟩,
        fun _ hNone => absurd hNone List.not_mem_nil⟩
  | reserve =>
      refine ⟨hCarries.setLen _ _ hMem, hHolds, fun entry hEntry => ?_⟩
      obtain rfl := List.mem_singleton.mp hEntry
      exact hHolds.2
  | store hSlot =>
      exact ⟨hCarries.store _ _ _ hMem hHolds.2, hHolds.1,
        fun _ hNone => absurd hNone List.not_mem_nil⟩
  | drop hSlot => exact ⟨hMem, hHolds.1, fun _ hNone => absurd hNone List.not_mem_nil⟩

theorem RecordInv.advance (hCarries : Carries K n I R G)
    {pool pool' : Pool Mem (Cursor ρ κ ω) (Obs κ ω)} (hInv : RecordInv K I R G pool)
    (hAdvance : (K.program n).advance pool t = some pool') : RecordInv K I R G pool' := by
  obtain ⟨hThread, next, mem, hStep, rfl⟩ := advance_eq_some.mp hAdvance
  obtain ⟨hMem, hNext, hLog⟩ :=
    hCarries.moves hInv.mem (hInv.locals t hThread) (K.moves_of_step hStep)
  refine ⟨hMem, fun u hu => ?_, fun entry hEntry => ?_⟩
  · by_cases hSame : u = t
    · subst hSame
      simpa using hNext
    · simpa [Function.update_of_ne hSame] using hInv.locals u hu
  · rcases List.mem_append.mp (reserved_append pool.log _ ▸ hEntry) with hBefore | hNew
    · exact hInv.reserved entry hBefore
    · exact hLog entry hNew

theorem run_recordInv (hCarries : Carries K n I R G) {m : Mem} (hMem : I m) {schedule : List ℕ}
    {pool : Pool Mem (Cursor ρ κ ω) (Obs κ ω)}
    (hRun : (K.program n).run ((K.program n).start m) schedule = some pool) :
    RecordInv K I R G pool := by
  have hStart : RecordInv K I R G ((K.program n).start m) :=
    ⟨hMem, fun _ _ => trivial, fun _ hNone => absurd hNone List.not_mem_nil⟩
  exact Interleaving.run_invariant (RecordInv K I R G)
    (fun _ _ _ hInv hAdvance => hInv.advance hCarries hAdvance) hStart hRun

/-- After a run to the end, every slot below the counter holds such a record. -/
theorem Carries.completes (hCarries : Carries K n I R G) (hMax : K.output.maxLen ≤ 2 ^ 32)
    {m m' : Mem} (hMem : I m) (hLen : K.output.len m = 0)
    (hCompletes : (K.program n).Completes m m') :
    I m' ∧ ∀ slot < K.output.maxLen, slot < K.output.len m' → G (K.output.data m' slot) := by
  obtain ⟨schedule, pool, hRun, hFinished, rfl⟩ := hCompletes
  have hInv := run_recordInv hCarries hMem hRun
  have hSlots := run_slotInv hMax hLen hRun
  refine ⟨hInv.mem, fun slot hSlot hBelow => ?_⟩
  have hCounted : slot < (AtomicAppend.reserved pool.log).length :=
    hBelow.trans_le (hSlots.len ▸ Nat.mod_le _ _)
  obtain ⟨j, pair, -, hEntry⟩ := hSlots.data_eq hFinished hSlot hCounted
  exact hInv.reserved _ (List.mem_of_getElem? hEntry)

end Step

end AtomicAppend
