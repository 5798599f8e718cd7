import Commission.Host.Shutdown

/-! What a client process has written to its socket when `main_inner` returns. -/
namespace Commission.Host.State

variable {cfg : Config} {s s' : State} {event : Event}

/-- The client thread has left its loop. -/
def ClientExited (s : State) : Prop := s.client.pc = .exited

/-- A push finds the client thread still in its loop, and the thread leaves its
loop only while the queue is empty. -/
def ClientDrains (s : State) (event : Event) : Prop :=
  (s.pushes event ≠ [] → s.client.pc ≠ .exited) ∧
    (event = .client → s.client.pc = .test → s.client.stopFlag = true → s.gpuOutputs = [])

section Steps

/-- A client process has no CPU threads. -/
theorem not_cpuStep (hClient : cfg.client = true) {i : ℕ} : s.step cfg (.cpu i) ≠ some s' := by
  intro hStep
  obtain ⟨hIndex, -⟩ := Option.ite_none_right_eq_some.mp hStep
  rw [cfg.client_cpus hClient] at hIndex
  exact Nat.not_lt_zero i hIndex

/-- Every step but the client's own leaves the client where it stands and only
appends to the queue. -/
theorem step_client_frame (hClient : cfg.client = true) (hOther : event ≠ .client)
    (hStep : s.step cfg event = some s') :
    s'.client.pc = s.client.pc ∧ s'.gpuOutputs = s.gpuOutputs ++ s.pushes event ∧
      s'.processed = s.processed := by
  cases event with
  | signal =>
      cases hStep
      exact ⟨rfl, (List.append_nil _).symm, rfl⟩
  | main =>
      obtain ⟨hQueue, -, hProcessed, -, hPc, -⟩ := mainStep_frame hStep
      exact ⟨hPc, hQueue.trans (List.append_nil _).symm, hProcessed⟩
  | gpu i outputs =>
      obtain ⟨-, hStep⟩ := Option.ite_none_right_eq_some.mp hStep
      obtain ⟨hQueue, -, hProcessed, -, hSame, -⟩ := gpuStep_frame hStep
      exact ⟨by rw [hSame], hQueue, hProcessed⟩
  | cpu i => exact absurd hStep (not_cpuStep hClient)
  | client => exact absurd rfl hOther
  | server outputs =>
      obtain ⟨-, hStep⟩ := Option.ite_none_right_eq_some.mp hStep
      obtain ⟨hQueue, -, hProcessed, -, hSame, -⟩ := serverStep_frame hStep
      exact ⟨by rw [hSame], hQueue, hProcessed⟩

/-- The client thread leaves its loop at the loop test only, and there it does not
look at the queue. -/
theorem clientStep_exits (hStep : s.clientStep = some s') (hExited : ClientExited s') :
    s.client.pc = .test ∧ s.client.stopFlag = true ∧ s'.gpuOutputs = s.gpuOutputs := by
  cases hPc : s.client.pc with
  | test =>
      simp only [clientStep, hPc, Option.some.injEq] at hStep
      subst hStep
      refine ⟨rfl, ?_, rfl⟩
      by_contra hRuns
      simp [ClientExited, hRuns] at hExited
  | connect | write pendingData =>
      simp only [clientStep, hPc, Option.some.injEq] at hStep
      subst hStep
      cases hExited
  | drain =>
      simp only [clientStep, hPc, Option.some.injEq] at hStep
      subst hStep
      simp only [ClientExited] at hExited
      split at hExited <;> cases hExited
  | exited =>
      simp only [clientStep, hPc] at hStep
      cases hStep

theorem not_clientStep (hExited : ClientExited s) : s.step cfg .client ≠ some s' := by
  intro hStep
  obtain ⟨-, hStep⟩ := Option.ite_none_right_eq_some.mp hStep
  rw [ClientExited] at hExited
  simp only [clientStep, hExited] at hStep
  cases hStep

/-- Once the client has left its loop it stays outside, and nothing is taken from
the queue any more. -/
theorem ClientExited.step (hClient : cfg.client = true) (hExited : ClientExited s)
    (hStep : s.step cfg event = some s') :
    ClientExited s' ∧ s'.gpuOutputs = s.gpuOutputs ++ s.pushes event := by
  by_cases hOther : event = .client
  · subst hOther
    exact absurd hStep (not_clientStep hExited)
  · obtain ⟨hPc, hQueue, -⟩ := step_client_frame hClient hOther hStep
    exact ⟨hPc.trans hExited, hQueue⟩

end Steps

/-- An output which is in the queue after the client has gone stays there. -/
theorem run_gpuOutputs_ne_nil_of_clientExited {events : List Event} (hClient : cfg.client = true)
    (hExited : ClientExited s) (hQueue : s.gpuOutputs ≠ [])
    (hRun : run cfg s events = some s') : s'.gpuOutputs ≠ [] := by
  have hKept := Interleaving.run_invariant
    (fun t : State => ClientExited t ∧ t.gpuOutputs ≠ [])
    (fun t event t' hKept hStep => by
      obtain ⟨hStays, hAppends⟩ := hKept.1.step hClient hStep
      refine ⟨hStays, ?_⟩
      rw [hAppends]
      exact List.append_ne_nil_of_left_ne_nil hKept.2 _)
    ⟨hExited, hQueue⟩ hRun
  exact hKept.2

/-- A step which breaks the condition leaves an output behind in the queue. -/
theorem step_of_not_clientDrains (hClient : cfg.client = true) (hNot : ¬ ClientDrains s event)
    (hStep : s.step cfg event = some s') : ClientExited s' ∧ s'.gpuOutputs ≠ [] := by
  simp only [ClientDrains, not_and_or, Classical.not_imp, not_not] at hNot
  rcases hNot with ⟨hPushes, hExited⟩ | ⟨rfl, hTest, hStop, hQueue⟩
  · obtain ⟨hStays, hAppends⟩ := ClientExited.step hClient hExited hStep
    refine ⟨hStays, ?_⟩
    rw [hAppends]
    exact List.append_ne_nil_of_right_ne_nil _ hPushes
  · obtain ⟨-, hStep⟩ := Option.ite_none_right_eq_some.mp hStep
    simp only [clientStep, hTest, hStop, if_true, Option.some.injEq] at hStep
    subst hStep
    exact ⟨rfl, hQueue⟩

theorem step_gpuOutputs_of_clientDrains (hClient : cfg.client = true)
    (hEmpty : ClientExited s → s.gpuOutputs = []) (hDrains : ClientDrains s event)
    (hStep : s.step cfg event = some s') (hExited : ClientExited s') : s'.gpuOutputs = [] := by
  by_cases hOther : event = .client
  · subst hOther
    obtain ⟨-, hStep⟩ := Option.ite_none_right_eq_some.mp hStep
    obtain ⟨hTest, hStop, hQueue⟩ := clientStep_exits hStep hExited
    rw [hQueue]
    exact hDrains.2 rfl hTest hStop
  · obtain ⟨hPc, hQueue, -⟩ := step_client_frame hClient hOther hStep
    have hBefore : ClientExited s := hPc.symm.trans hExited
    have hNone : s.pushes event = [] := by
      by_contra hSome
      exact hDrains.1 hSome hBefore
    rw [hQueue, hEmpty hBefore, hNone, List.append_nil]

/-- `main_inner` returns only after it has joined the client thread. -/
theorem clientExited_of_returned {events : List Event} (hClient : cfg.client = true)
    (hRun : run cfg (initial cfg) events = some s) (hReturned : s.main = .returned) :
    ClientExited s := by
  refine Interleaving.run_invariant
    (fun t : State => t.main = .joinServer ∨ t.main = .returned → ClientExited t)
    (fun t event t' hJoined hStep hMain => ?_) (fun hMain => by cases hMain <;> contradiction) hRun
    (.inr hReturned)
  by_cases hOther : event = .main
  · subst hOther
    apply (mainStep_frame hStep).2.2.2.2.1.trans
    cases mainMoves_of_step hStep with
    | joinClient hAt hExited => exact hExited hClient
    | joinServer hAt hExited => exact hJoined (.inl hAt)
    | poll hAt =>
        dsimp only at hMain
        split at hMain <;> simp at hMain
    | drain | stopGpu | gpusStopped | stopCpu | cpusStopped | stopClient | shutdownServer | joinGpu
    | gpusJoined | joinCpu | cpusJoined | finalDrain => simp at hMain
  · rw [step_main_frame hOther hStep] at hMain
    exact ((hJoined hMain).step hClient hStep).1

theorem run_processed_of_client {events : List Event} (hClient : cfg.client = true)
    (hRun : run cfg (initial cfg) events = some s) : s.processed = [] := by
  refine Interleaving.run_invariant (fun t : State => t.processed = [])
    (fun t event t' hNone hStep => ?_) rfl hRun
  by_cases hOther : event = .client
  · subst hOther
    obtain ⟨-, hStep⟩ := Option.ite_none_right_eq_some.mp hStep
    exact (clientStep_frame hStep).2.2.1.trans hNone
  · exact (step_client_frame hClient hOther hStep).2.2.trans hNone

/-- At the return every pushed output was written or is still in the queue. -/
theorem pushed_eq_of_client_returned {events : List Event} (hClient : cfg.client = true)
    (hRun : run cfg (initial cfg) events = some s) (hReturned : s.main = .returned) :
    (s.pushed : Multiset GpuOutput) = s.gpuOutputs + s.sent := by
  have hConserved := run_conserved hRun
  have hHeld : held cfg s = 0 := by
    rw [held, cfg.client_cpus hClient, Finset.range_zero, Finset.sum_empty]
  have hPending : s.client.pc.pending = 0 := by
    rw [clientExited_of_returned hClient hRun hReturned]
    rfl
  simpa [Conserved, hHeld, hPending, run_processed_of_client hClient hRun] using hConserved

/-- `main_inner` of a client returns with every output written once exactly if no
output came after the client thread had left its loop, and it left the loop at an
empty queue. -/
theorem client_sends_all_iff (cfg : Config) (hClient : cfg.client = true) (events : List Event)
    (s : State) (hRun : run cfg (initial cfg) events = some s) (hReturned : s.main = .returned) :
    s.pushed.Perm s.sent ↔ Interleaving.Along (step cfg) ClientDrains (initial cfg) events := by
  have hPushed := pushed_eq_of_client_returned hClient hRun hReturned
  constructor
  · intro hSent
    have hEmpty : s.gpuOutputs = [] := by
      rw [Multiset.coe_eq_coe.mpr hSent, right_eq_add, Multiset.coe_eq_zero] at hPushed
      exact hPushed
    by_contra hNot
    obtain ⟨first, event, rest, before, after, -, -, hBroken, hStep, hRest⟩ :=
      Interleaving.exists_not_of_not_along hRun hNot
    obtain ⟨hExited, hQueue⟩ := step_of_not_clientDrains hClient hBroken hStep
    exact run_gpuOutputs_ne_nil_of_clientExited hClient hExited hQueue hRest hEmpty
  · intro hAlong
    have hStart : ClientExited (initial cfg) → (initial cfg).gpuOutputs = [] := fun _ => rfl
    have hEmpty : s.gpuOutputs = [] :=
      Interleaving.run_invariant_along (fun t => ClientExited t → t.gpuOutputs = [])
        (fun t event t' hInv hDrains hStep =>
          step_gpuOutputs_of_clientDrains hClient hInv hDrains hStep)
        hStart hAlong hRun (clientExited_of_returned hClient hRun hReturned)
    rw [hEmpty, Multiset.coe_nil, zero_add] at hPushed
    exact Multiset.coe_eq_coe.mp hPushed

/-- One GPU thread in a client process. -/
def clientConfig : Config := ⟨1, 0, true, false, 0, fun _ => none, fun _ => rfl⟩

/-- The client connects and is about to sleep in its loop; the GPU thread claims a
batch, the process is told to stop, and main stops both threads. -/
def stopClientDuringBatch : List Event :=
  [.client, .client, .gpu 0 [], .gpu 0 [], .signal, .main, .main, .main, .main, .main]

/-- The batch ends before the client drains the queue. -/
def sentRun : List Event :=
  stopClientDuringBatch ++ [.gpu 0 [islandOutput], .gpu 0 [], .client, .client, .client] ++
    List.replicate 7 .main

/-- The batch ends after the client has drained the queue for the last time. -/
def unsentRun : List Event :=
  stopClientDuringBatch ++ [.client, .client, .gpu 0 [islandOutput], .gpu 0 []] ++
    List.replicate 7 .main

theorem client_sends_all_iff_sentRun :
    ∃ s, run clientConfig (initial clientConfig) sentRun = some s ∧ s.main = .returned ∧
      (s.pushed.Perm s.sent ↔
        Interleaving.Along (step clientConfig) ClientDrains (initial clientConfig) sentRun) := by
  have hEnds : (run clientConfig (initial clientConfig) sentRun).map (fun s => s.main) =
      some .returned := by
    decide +kernel
  obtain ⟨s, hRun, hReturned⟩ := Option.map_eq_some_iff.mp hEnds
  exact ⟨s, hRun, hReturned, client_sends_all_iff clientConfig rfl sentRun s hRun hReturned⟩

/-- Main returns and the output of the last batch was never written. -/
theorem unsentRun_returns_unsent :
    ∃ s, run clientConfig (initial clientConfig) unsentRun = some s ∧ clientConfig.client = true ∧
      s.main = .returned ∧ s.pushed = [islandOutput] ∧ s.sent = [] := by
  have hEnds : (run clientConfig (initial clientConfig) unsentRun).map
      (fun s => (s.main, s.pushed, s.sent)) = some (.returned, [islandOutput], []) := by
    decide +kernel
  obtain ⟨s, hRun, hEnd⟩ := Option.map_eq_some_iff.mp hEnds
  simp only [Prod.mk.injEq] at hEnd
  exact ⟨s, hRun, rfl, hEnd⟩

end Commission.Host.State
