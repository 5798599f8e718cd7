import Commission.Host.Seeds

/-! The way of a process to its return: from which states there is one, and what its GPU
threads can still do once they were told to stop. -/
namespace Commission.Host

namespace MainPc

/-- How far `main_inner` has come with its shutdown. -/
def stage : MainPc → ℕ
  | .poll | .drain => 0
  | .stopGpu _ => 1
  | .stopCpu _ => 2
  | .stopClient => 3
  | .shutdownServer => 4
  | .joinGpu _ => 5
  | .joinCpu _ => 6
  | .finalDrain => 7
  | .joinClient => 8
  | .joinServer => 9
  | .returned => 10

/-- The GPU threads which were told to stop. -/
def gpusTold (gpus : ℕ) : MainPc → ℕ
  | .stopGpu i => i
  | main => if main.stage = 0 then 0 else gpus

/-- The CPU threads which were told to stop. -/
def cpusTold (cpus : ℕ) : MainPc → ℕ
  | .stopCpu i => i
  | main => if main.stage ≤ 2 then 0 else cpus

/-- The steps which `main_inner` still has to take, at most. -/
def stepsLeft (gpus cpus : ℕ) : MainPc → ℕ
  | .drain => 2 * gpus + 2 * cpus + 11
  | .poll => 2 * gpus + 2 * cpus + 10
  | .stopGpu i => (gpus - i) + gpus + 2 * cpus + 9
  | .stopCpu i => (cpus - i) + gpus + cpus + 8
  | .stopClient => gpus + cpus + 7
  | .shutdownServer => gpus + cpus + 6
  | .joinGpu i => (gpus - i) + cpus + 5
  | .joinCpu i => (cpus - i) + 4
  | .finalDrain => 3
  | .joinClient => 2
  | .joinServer => 1
  | .returned => 0

end MainPc

/-- The steps of a GPU thread which should stop, at most. -/
def GpuPc.stepsLeft : GpuPc → ℕ
  | .exited => 0
  | .test => 1
  | .batch _ => 2
  | .next => 3

/-- The batches which such a thread still claims. -/
def GpuPc.claimsLeft : GpuPc → ℕ
  | .next => 1
  | .test | .batch _ | .exited => 0

def CpuPc.stepsLeft : CpuPc → ℕ
  | .exited => 0
  | .take => 1
  | .push _ => 2
  | .process _ => 3

def ClientPc.stepsLeft : ClientPc → ℕ
  | .exited => 0
  | .test => 1
  | .connect | .write _ => 2
  | .drain => 3

def ServerPc.stepsLeft : ServerPc → ℕ
  | .exited => 0
  | .serve => 1
  | .start => 2

namespace State

variable {cfg : Config} {s s' : State} {event : Event} {events : List Event}

/-- Who was told to stop has its flag set, and the event loop returns only when it was
stopped. -/
structure Told (cfg : Config) (s : State) : Prop where
  gpu : ∀ i < s.main.gpusTold cfg.gpus, (s.gpu i).stopFlag = true
  cpu : ∀ i < s.main.cpusTold cfg.cpus, (s.cpu i).stopFlag = true
  client : 4 ≤ s.main.stage → cfg.client = true → s.client.stopFlag = true
  early : s.main.stage ≤ 4 → s.ctxStopped = false
  serving : s.ctxStopped = true → s.server.pc ≠ .start
  exited : s.server.pc = .exited → s.ctxStopped = true
  returned : s.main = .returned → cfg.server = true → s.ctxStopped = true

theorem told_initial (cfg : Config) : Told cfg (initial cfg) where
  gpu i hTold := absurd hTold (Nat.not_lt_zero i)
  cpu i hTold := absurd hTold (Nat.not_lt_zero i)
  client hStage := absurd hStage (Nat.not_succ_le_zero 3)
  early _ := rfl
  serving hStopped := by cases hStopped
  exited hPc := by cases hPc
  returned hMain := by cases hMain

section Steps

/-- The other threads neither set flags nor move `main_inner`. -/
structure SameFlags (s s' : State) : Prop where
  gpu : ∀ i, (s'.gpu i).stopFlag = (s.gpu i).stopFlag
  cpu : ∀ i, (s'.cpu i).stopFlag = (s.cpu i).stopFlag
  client : s'.client.stopFlag = s.client.stopFlag
  main : s'.main = s.main
  ctxStopped : s'.ctxStopped = s.ctxStopped

theorem SameFlags.refl (s : State) : SameFlags s s := ⟨fun _ => rfl, fun _ => rfl, rfl, rfl, rfl⟩

theorem stopFlag_update {Pc : Type} (threads : ℕ → Thread Pc) (i j : ℕ) (pc : Pc) :
    (Function.update threads i { threads i with pc } j).stopFlag = (threads j).stopFlag := by
  by_cases hSame : j = i
  · subst hSame
    rw [Function.update_self]
  · rw [Function.update_of_ne hSame]

theorem gpuStep_flags {i : ℕ} {outputs : List GpuOutput} (hStep : s.gpuStep i outputs = some s') :
    SameFlags s s' ∧ s'.server = s.server := by
  cases hPc : (s.gpu i).pc <;> simp only [gpuStep, hPc] at hStep <;> cases hStep <;>
    exact ⟨⟨fun j => stopFlag_update s.gpu i j _, fun _ => rfl, rfl, rfl, rfl⟩, rfl⟩

theorem cpuStep_flags {i : ℕ} (hStep : s.cpuStep cfg i = some s') :
    SameFlags s s' ∧ s'.server = s.server := by
  obtain ⟨-, -, rfl⟩ | rfl | ⟨_, _, -, -, rfl⟩ | ⟨_, -, -, rfl⟩ | ⟨_, _, -, -, rfl⟩ |
    ⟨_, -, rfl⟩ := cpuStep_cases hStep
  · exact ⟨⟨fun _ => rfl, fun j => stopFlag_update s.cpu i j _, rfl, rfl, rfl⟩, rfl⟩
  · exact ⟨.refl s', rfl⟩
  all_goals exact ⟨⟨fun _ => rfl, fun j => stopFlag_update s.cpu i j _, rfl, rfl, rfl⟩, rfl⟩

theorem clientStep_flags (hStep : s.clientStep = some s') : SameFlags s s' ∧ s'.server = s.server := by
  cases hPc : s.client.pc <;> simp only [clientStep, hPc] at hStep <;> cases hStep <;>
    exact ⟨⟨fun _ => rfl, fun _ => rfl, rfl, rfl, rfl⟩, rfl⟩

theorem serverStep_flags {outputs : List GpuOutput} (hStep : s.serverStep outputs = some s') :
    SameFlags s s' ∧ (s'.server.pc = .start → s.server.pc = .start) ∧
      (s'.server.pc = .exited → s.server.pc = .exited ∨ s.ctxStopped = true) := by
  cases hPc : s.server.pc with
  | start =>
      simp only [serverStep, hPc] at hStep
      cases hStep
      exact ⟨⟨fun _ => rfl, fun _ => rfl, rfl, rfl, rfl⟩, fun _ => rfl, fun hExited => by cases hExited⟩
  | serve =>
      simp only [serverStep, hPc] at hStep
      split at hStep
      · obtain ⟨hStopped, hStep⟩ := Option.ite_none_right_eq_some.mp hStep
        cases hStep
        exact ⟨⟨fun _ => rfl, fun _ => rfl, rfl, rfl, rfl⟩, (fun hStart => by cases hStart),
          fun _ => .inr hStopped⟩
      · cases hStep
        refine ⟨⟨fun _ => rfl, fun _ => rfl, rfl, rfl, rfl⟩, fun hStart => ?_, fun hExited => ?_⟩
        · exact hPc.symm.trans hStart
        · exact .inl (hPc.symm.trans hExited)
  | exited =>
      simp only [serverStep, hPc] at hStep
      cases hStep

theorem SameFlags.told (hSame : SameFlags s s') (hTold : Told cfg s)
    (hStart : s'.server.pc = .start → s.server.pc = .start)
    (hExited : s'.server.pc = .exited → s.server.pc = .exited ∨ s.ctxStopped = true) :
    Told cfg s' where
  gpu i hIndex := (hSame.gpu i).trans (hTold.gpu i (hSame.main ▸ hIndex))
  cpu i hIndex := (hSame.cpu i).trans (hTold.cpu i (hSame.main ▸ hIndex))
  client hStage hClient := hSame.client.trans (hTold.client (hSame.main ▸ hStage) hClient)
  early hStage := hSame.ctxStopped.trans (hTold.early (hSame.main ▸ hStage))
  serving hStopped hPc := hTold.serving (hSame.ctxStopped ▸ hStopped) (hStart hPc)
  exited hPc := hSame.ctxStopped.trans ((hExited hPc).elim hTold.exited id)
  returned hMain hServer := hSame.ctxStopped.trans (hTold.returned (hSame.main ▸ hMain) hServer)

/-- The step of `main_inner` which tells thread `i` to stop. -/
theorem stopFlag_stop {Pc : Type} {threads : ℕ → Thread Pc} {i : ℕ}
    (hTold : ∀ j < i, (threads j).stopFlag = true) :
    ∀ j < i + 1, (Function.update threads i (threads i).stop j).stopFlag = true := by
  intro j hIndex
  by_cases hSame : j = i
  · subst hSame
    rw [Function.update_self]
    rfl
  · rw [Function.update_of_ne hSame]
    exact hTold j (by omega)

theorem mainStep_told (hTold : Told cfg s) (hStep : s.mainStep cfg = some s') : Told cfg s' := by
  obtain ⟨hGpu, hCpu, hClient, hEarly, hServing, hExited, -⟩ := hTold
  cases mainMoves_of_step hStep with
  | poll hMain =>
      have hRunning : s.ctxStopped = false := hEarly (by simp [hMain, MainPc.stage])
      constructor
      all_goals dsimp only
      all_goals first | exact hServing | exact hExited | skip
      all_goals split <;> simp [MainPc.gpusTold, MainPc.cpusTold, MainPc.stage, hRunning]
  | drain hMain =>
      have hRunning : s.ctxStopped = false := hEarly (by simp [hMain, MainPc.stage])
      split <;> exact ⟨fun i hIndex => absurd hIndex i.not_lt_zero,
        fun i hIndex => absurd hIndex i.not_lt_zero, fun hStage => absurd hStage (Nat.not_succ_le_zero 3),
        fun _ => hRunning, hServing, hExited, fun hNow => by cases hNow⟩
  | stopGpu hMain hIndex =>
      have hRunning : s.ctxStopped = false := hEarly (by simp [hMain, MainPc.stage])
      rw [hMain] at hGpu
      exact ⟨stopFlag_stop hGpu, fun i hIndex => absurd hIndex i.not_lt_zero,
        fun hStage => absurd hStage (by simp [MainPc.stage]), fun _ => hRunning, hServing, hExited,
        fun hNow => by cases hNow⟩
  | gpusStopped hMain hAll =>
      have hRunning : s.ctxStopped = false := hEarly (by simp [hMain, MainPc.stage])
      rw [hMain] at hGpu
      exact ⟨fun i hIndex => hGpu i (hIndex.trans_le hAll), fun i hIndex => absurd hIndex i.not_lt_zero,
        fun hStage => absurd hStage (by simp [MainPc.stage]), fun _ => hRunning, hServing, hExited,
        fun hNow => by cases hNow⟩
  | stopCpu hMain hIndex =>
      have hRunning : s.ctxStopped = false := hEarly (by simp [hMain, MainPc.stage])
      rw [hMain] at hGpu hCpu
      exact ⟨hGpu, stopFlag_stop hCpu, fun hStage => absurd hStage (by simp [MainPc.stage]),
        fun _ => hRunning, hServing, hExited, fun hNow => by cases hNow⟩
  | cpusStopped hMain hAll =>
      have hRunning : s.ctxStopped = false := hEarly (by simp [hMain, MainPc.stage])
      rw [hMain] at hGpu hCpu
      exact ⟨hGpu, fun i hIndex => hCpu i (hIndex.trans_le hAll),
        fun hStage => absurd hStage (by simp [MainPc.stage]), fun _ => hRunning, hServing, hExited,
        fun hNow => by cases hNow⟩
  | stopClient hMain =>
      have hRunning : s.ctxStopped = false := hEarly (by simp [hMain, MainPc.stage])
      rw [hMain] at hGpu hCpu
      refine ⟨hGpu, hCpu, fun _ hOn => ?_, fun _ => hRunning, hServing, hExited,
        fun hNow => by cases hNow⟩
      simp only [hOn, if_true]
      rfl
  | shutdownServer hMain =>
      have hRunning : s.ctxStopped = false := hEarly (by simp [hMain, MainPc.stage])
      have hPc : (if cfg.server = true then s.server.stop else s.server).pc = s.server.pc := by
        split <;> rfl
      rw [hMain] at hGpu hCpu hClient
      refine ⟨hGpu, hCpu, fun _ => hClient le_rfl, fun hStage => absurd hStage (by simp [MainPc.stage]),
        fun hStopped hStart => ?_, fun hNow => ?_, fun hNow => by cases hNow⟩
      -- The `io_context` is stopped only where the server thread has stored it.
      · rw [show _ = s.server.pc from hPc] at hStart
        simp [hStart] at hStopped
      · rw [show _ = s.server.pc from hPc] at hNow
        exact absurd (hRunning.symm.trans (hExited hNow)) Bool.false_ne_true
  | joinGpu hMain | gpusJoined hMain | joinCpu hMain | cpusJoined hMain | finalDrain hMain
  | joinClient hMain =>
      rw [hMain] at hGpu hCpu hClient
      exact ⟨hGpu, hCpu, fun _ => hClient (by simp [MainPc.stage]),
        fun hStage => absurd hStage (by simp [MainPc.stage]), hServing, hExited,
        fun hNow => by cases hNow⟩
  | joinServer hMain hGone =>
      rw [hMain] at hGpu hCpu hClient
      exact ⟨hGpu, hCpu, fun _ => hClient (by simp [MainPc.stage]),
        fun hStage => absurd hStage (by simp [MainPc.stage]), hServing, hExited,
        fun _ hServer => hExited (hGone hServer)⟩

theorem Told.step (hTold : Told cfg s) (hStep : s.step cfg event = some s') : Told cfg s' := by
  cases event with
  | signal =>
      cases hStep
      exact ⟨hTold.gpu, hTold.cpu, hTold.client, hTold.early, hTold.serving, hTold.exited,
        hTold.returned⟩
  | main => exact mainStep_told hTold hStep
  | gpu i outputs =>
      obtain ⟨-, hStep⟩ := Option.ite_none_right_eq_some.mp hStep
      obtain ⟨hSame, hServer⟩ := gpuStep_flags hStep
      exact hSame.told hTold (by rw [hServer]; exact id) (by rw [hServer]; exact .inl)
  | cpu i =>
      obtain ⟨-, hStep⟩ := Option.ite_none_right_eq_some.mp hStep
      obtain ⟨hSame, hServer⟩ := cpuStep_flags hStep
      exact hSame.told hTold (by rw [hServer]; exact id) (by rw [hServer]; exact .inl)
  | client =>
      obtain ⟨-, hStep⟩ := Option.ite_none_right_eq_some.mp hStep
      obtain ⟨hSame, hServer⟩ := clientStep_flags hStep
      exact hSame.told hTold (by rw [hServer]; exact id) (by rw [hServer]; exact .inl)
  | server outputs =>
      obtain ⟨-, hStep⟩ := Option.ite_none_right_eq_some.mp hStep
      obtain ⟨hSame, hStart, hExited⟩ := serverStep_flags hStep
      exact hSame.told hTold hStart hExited

theorem run_told (hRun : run cfg (initial cfg) events = some s) : Told cfg s :=
  Interleaving.run_invariant (Told cfg) (fun _ _ _ hTold hStep => hTold.step hStep) (told_initial cfg)
    hRun

end Steps

section Rank

/-- The steps which the threads still have to take, at most, if all of them should stop and
nothing is pushed any more. -/
def gpuLeft (cfg : Config) (s : State) : ℕ :=
  ∑ i ∈ Finset.range cfg.gpus, (s.gpu i).pc.stepsLeft

def cpuLeft (cfg : Config) (s : State) : ℕ :=
  ∑ i ∈ Finset.range cfg.cpus, (s.cpu i).pc.stepsLeft

def stepsLeft (cfg : Config) (s : State) : ℕ :=
  s.running.toNat + s.main.stepsLeft cfg.gpus cfg.cpus + gpuLeft cfg s + cpuLeft cfg s +
    3 * s.gpuOutputs.length + s.client.pc.stepsLeft + s.server.pc.stepsLeft

theorem gpuLeft_setGpu {i : ℕ} (hIndex : i < cfg.gpus) (thread : Thread GpuPc) :
    gpuLeft cfg (s.setGpu i thread) + (s.gpu i).pc.stepsLeft = gpuLeft cfg s + thread.pc.stepsLeft :=
  Interleaving.sum_update_add (Finset.mem_range.mpr hIndex) (fun _ thread => thread.pc.stepsLeft)
    s.gpu thread

theorem cpuLeft_setCpu {i : ℕ} (hIndex : i < cfg.cpus) (thread : Thread CpuPc) :
    cpuLeft cfg (s.setCpu i thread) + (s.cpu i).pc.stepsLeft = cpuLeft cfg s + thread.pc.stepsLeft :=
  Interleaving.sum_update_add (Finset.mem_range.mpr hIndex) (fun _ thread => thread.pc.stepsLeft)
    s.cpu thread

/-- The main thread moves no other thread. -/
theorem mainStep_pcs (hStep : s.mainStep cfg = some s') :
    s'.running = s.running ∧ s'.server.pc = s.server.pc ∧ ∀ i, (s'.gpu i).pc = (s.gpu i).pc := by
  have hTaken : s.step cfg .main = some s' := hStep
  have hGpu := (step_batches_frame (fun _ _ hEvent => by cases hEvent) hTaken).2.2.2
  refine ⟨?_, ?_, hGpu⟩
  · cases mainMoves_of_step hStep with
    | drain hMain => split <;> rfl
    | _ => rfl
  · cases mainMoves_of_step hStep with
    | drain hMain | shutdownServer hMain =>
        dsimp only
        split <;> rfl
    | _ => rfl

/-- Once the polling loop has ended, every step of `main_inner` leads towards its return. -/
theorem mainStep_stepsLeft_main (hPolls : s.main = .poll → s.running = false)
    (hStep : s.mainStep cfg = some s') :
    s'.main.stepsLeft cfg.gpus cfg.cpus < s.main.stepsLeft cfg.gpus cfg.cpus := by
  cases mainMoves_of_step hStep with
  | poll hMain =>
      simp only [hMain, hPolls hMain, MainPc.stepsLeft, Bool.false_eq_true, if_false]
      omega
  | drain hMain =>
      split <;> simp [hMain, MainPc.stepsLeft]
  | stopGpu hMain hIndex | stopCpu hMain hIndex =>
      simp only [hMain, MainPc.stepsLeft]
      omega
  | gpusStopped hMain hAll | cpusStopped hMain hAll | gpusJoined hMain hAll | cpusJoined hMain hAll =>
      simp only [hMain, MainPc.stepsLeft]
      omega
  | joinGpu hMain hIndex hExited | joinCpu hMain hIndex hExited =>
      simp only [hMain, MainPc.stepsLeft]
      omega
  | stopClient hMain | shutdownServer hMain | finalDrain hMain | joinClient hMain | joinServer hMain =>
      simp only [hMain, MainPc.stepsLeft]
      omega

theorem mainStep_stepsLeft (hPolls : s.main = .poll → s.running = false)
    (hStep : s.mainStep cfg = some s') : stepsLeft cfg s' < stepsLeft cfg s := by
  have hLess := mainStep_stepsLeft_main hPolls hStep
  obtain ⟨hQueue, -, -, -, hClient, hCpu⟩ := mainStep_frame hStep
  obtain ⟨hRunning, hServer, hGpu⟩ := mainStep_pcs hStep
  simp only [stepsLeft, gpuLeft, cpuLeft, hQueue, hClient, hCpu, hRunning, hServer, hGpu]
  omega

/-- A GPU thread which should stop comes nearer to its exit; what its batch pushes is paid for
by the pushes. -/
theorem gpuStep_stepsLeft {i : ℕ} {outputs : List GpuOutput} (hIndex : i < cfg.gpus)
    (hFlag : (s.gpu i).stopFlag = true) (hStep : s.gpuStep i outputs = some s') :
    stepsLeft cfg s' < stepsLeft cfg s + 4 * (s.pushes (.gpu i outputs)).length := by
  have hLeft := gpuLeft_setGpu (s := s) hIndex
  cases hPc : (s.gpu i).pc with
  | test =>
      have hExit := hLeft ⟨.exited, true⟩
      simp only [gpuStep, hPc, hFlag, if_true] at hStep
      cases hStep
      simp only [hPc, GpuPc.stepsLeft] at hExit
      simp only [stepsLeft, cpuLeft, gpuLeft, setGpu] at hExit ⊢
      omega
  | next =>
      have hClaim := hLeft { s.gpu i with pc := .batch s.pos }
      simp only [gpuStep, hPc] at hStep
      cases hStep
      simp only [hPc, GpuPc.stepsLeft] at hClaim
      simp only [stepsLeft, cpuLeft, gpuLeft, setGpu] at hClaim ⊢
      omega
  | batch startSeed =>
      have hDone := hLeft { s.gpu i with pc := .test }
      simp only [gpuStep, hPc] at hStep
      cases hStep
      simp only [hPc, GpuPc.stepsLeft] at hDone
      simp only [stepsLeft, cpuLeft, gpuLeft, setGpu, pushOutputs, pushes, hPc, List.length_append]
        at hDone ⊢
      omega
  | exited =>
      simp only [gpuStep, hPc] at hStep
      cases hStep

/-- So does a CPU thread, whatever is still queued. -/
theorem cpuStep_stepsLeft {i : ℕ} (hIndex : i < cfg.cpus) (hFlag : (s.cpu i).stopFlag = true)
    (hStep : s.cpuStep cfg i = some s') : stepsLeft cfg s' < stepsLeft cfg s := by
  have hLeft := cpuLeft_setCpu (s := s) hIndex
  cases hPc : (s.cpu i).pc with
  | take =>
      simp only [cpuStep, hPc] at hStep
      split at hStep
      · next hQueue =>
          have hExit := hLeft ⟨.exited, true⟩
          simp only [hFlag, if_true] at hStep
          cases hStep
          simp only [hPc, CpuPc.stepsLeft] at hExit
          simp only [stepsLeft, gpuLeft, cpuLeft, setCpu] at hExit ⊢
          omega
      · next input rest hQueue =>
          have hTaken := hLeft { s.cpu i with pc := .process input }
          cases hStep
          simp only [hPc, CpuPc.stepsLeft] at hTaken
          simp only [stepsLeft, gpuLeft, cpuLeft, setCpu, hQueue, List.length_cons] at hTaken ⊢
          omega
  | process input =>
      have hNone := hLeft { s.cpu i with pc := .take }
      simp only [cpuStep, hPc] at hStep
      split at hStep
      · cases hStep
        simp only [hPc, CpuPc.stepsLeft] at hNone
        simp only [stepsLeft, gpuLeft, cpuLeft, setCpu] at hNone ⊢
        omega
      · next output _ =>
          have hSome := hLeft { s.cpu i with pc := .push output }
          cases hStep
          simp only [hPc, CpuPc.stepsLeft] at hSome
          simp only [stepsLeft, gpuLeft, cpuLeft, setCpu] at hSome ⊢
          omega
  | push output =>
      have hPushed := hLeft { s.cpu i with pc := .take }
      simp only [cpuStep, hPc] at hStep
      cases hStep
      simp only [hPc, CpuPc.stepsLeft] at hPushed
      simp only [stepsLeft, gpuLeft, cpuLeft, setCpu] at hPushed ⊢
      omega
  | exited =>
      simp only [cpuStep, hPc] at hStep
      cases hStep

theorem clientStep_stepsLeft (hFlag : s.client.stopFlag = true) (hStep : s.clientStep = some s') :
    stepsLeft cfg s' < stepsLeft cfg s := by
  cases hPc : s.client.pc with
  | connect | write pendingData =>
      simp only [clientStep, hPc] at hStep
      cases hStep
      simp only [stepsLeft, gpuLeft, cpuLeft, hPc, ClientPc.stepsLeft]
      omega
  | test =>
      simp only [clientStep, hPc, hFlag, if_true] at hStep
      cases hStep
      simp only [stepsLeft, gpuLeft, cpuLeft, hPc, ClientPc.stepsLeft]
      omega
  | drain =>
      simp only [clientStep, hPc] at hStep
      cases hStep
      simp only [stepsLeft, gpuLeft, cpuLeft, hPc, List.length_nil]
      split <;> simp only [ClientPc.stepsLeft] <;> omega
  | exited =>
      simp only [clientStep, hPc] at hStep
      cases hStep

theorem serverStep_stepsLeft {outputs : List GpuOutput} (hStep : s.serverStep outputs = some s') :
    stepsLeft cfg s' < stepsLeft cfg s + 4 * (s.pushes (.server outputs)).length := by
  cases hPc : s.server.pc with
  | start =>
      simp only [serverStep, hPc] at hStep
      cases hStep
      simp only [stepsLeft, gpuLeft, cpuLeft, hPc, ServerPc.stepsLeft]
      omega
  | serve =>
      simp only [serverStep, hPc] at hStep
      split at hStep
      · obtain ⟨-, hStep⟩ := Option.ite_none_right_eq_some.mp hStep
        cases hStep
        simp only [stepsLeft, gpuLeft, cpuLeft, hPc, ServerPc.stepsLeft]
        omega
      · next hSome =>
          have hLength := List.length_pos_iff.mpr hSome
          cases hStep
          simp only [stepsLeft, gpuLeft, cpuLeft, pushOutputs, pushes, hPc, if_true,
            List.length_append]
          omega
  | exited =>
      simp only [serverStep, hPc] at hStep
      cases hStep

end Rank

section Stop

theorem Told.gpu_stopped (hTold : Told cfg s) (hStage : 2 ≤ s.main.stage) {i : ℕ}
    (hIndex : i < cfg.gpus) : (s.gpu i).stopFlag = true := by
  refine hTold.gpu i ?_
  cases hMain : s.main <;> simp_all [MainPc.stage, MainPc.gpusTold]

theorem Told.cpu_stopped (hTold : Told cfg s) (hStage : 3 ≤ s.main.stage) {i : ℕ}
    (hIndex : i < cfg.cpus) : (s.cpu i).stopFlag = true := by
  refine hTold.cpu i ?_
  cases hMain : s.main <;> simp_all [MainPc.stage, MainPc.cpusTold]

/-- The shutdown goes forward only. -/
theorem mainStep_stage (hStep : s.mainStep cfg = some s') : s.main.stage ≤ s'.main.stage := by
  cases mainMoves_of_step hStep with
  | poll hMain | drain hMain => simp [hMain, MainPc.stage]
  | stopGpu hMain | gpusStopped hMain | stopCpu hMain | cpusStopped hMain | stopClient hMain
  | shutdownServer hMain | joinGpu hMain | gpusJoined hMain | joinCpu hMain | cpusJoined hMain
  | finalDrain hMain | joinClient hMain | joinServer hMain => simp [hMain, MainPc.stage]

theorem step_stage (hStep : s.step cfg event = some s') : s.main.stage ≤ s'.main.stage := by
  by_cases hMain : event = .main
  · subst hMain
    exact mainStep_stage hStep
  · rw [step_main_frame hMain hStep]

/-- Once all threads were told to stop, every step but a signal uses one of those left. -/
theorem step_stepsLeft (hTold : Told cfg s) (hStage : 4 ≤ s.main.stage) (hSignal : event ≠ .signal)
    (hStep : s.step cfg event = some s') :
    stepsLeft cfg s' < stepsLeft cfg s + 4 * (s.pushes event).length := by
  cases event with
  | signal => exact absurd rfl hSignal
  | main =>
      refine mainStep_stepsLeft (fun hMain => ?_) hStep
      simp [hMain, MainPc.stage] at hStage
  | gpu i outputs =>
      obtain ⟨hIndex, hStep⟩ := Option.ite_none_right_eq_some.mp hStep
      exact gpuStep_stepsLeft hIndex (hTold.gpu_stopped (by omega) hIndex) hStep
  | cpu i =>
      obtain ⟨hIndex, hStep⟩ := Option.ite_none_right_eq_some.mp hStep
      exact cpuStep_stepsLeft hIndex (hTold.cpu_stopped (by omega) hIndex) hStep
  | client =>
      obtain ⟨hClient, hStep⟩ := Option.ite_none_right_eq_some.mp hStep
      exact clientStep_stepsLeft (hTold.client hStage hClient) hStep
  | server outputs =>
      obtain ⟨-, hStep⟩ := Option.ite_none_right_eq_some.mp hStep
      exact serverStep_stepsLeft hStep

theorem signal_stepsLeft (hStep : s.step cfg .signal = some s') :
    stepsLeft cfg s' ≤ stepsLeft cfg s := by
  cases hStep
  simp only [stepsLeft, gpuLeft, cpuLeft, Bool.toNat_false]
  omega

theorem step_pushed_pushes (hStep : s.step cfg event = some s') :
    s'.pushed = s.pushed ++ s.pushes event := by
  cases event with
  | signal =>
      cases hStep
      exact (List.append_nil _).symm
  | main => exact (mainStep_frame hStep).2.1.trans (List.append_nil _).symm
  | gpu i outputs =>
      obtain ⟨-, hStep⟩ := Option.ite_none_right_eq_some.mp hStep
      exact (gpuStep_frame hStep).2.1
  | cpu i =>
      obtain ⟨-, hStep⟩ := Option.ite_none_right_eq_some.mp hStep
      obtain ⟨-, -, rfl⟩ | rfl | ⟨_, _, -, -, rfl⟩ | ⟨_, -, -, rfl⟩ | ⟨_, _, -, -, rfl⟩ |
        ⟨_, -, rfl⟩ := cpuStep_cases hStep
      all_goals exact (List.append_nil _).symm
  | client =>
      obtain ⟨-, hStep⟩ := Option.ite_none_right_eq_some.mp hStep
      exact (clientStep_frame hStep).2.1.trans (List.append_nil _).symm
  | server outputs =>
      obtain ⟨-, hStep⟩ := Option.ite_none_right_eq_some.mp hStep
      exact (serverStep_frame hStep).2.1

/-- The steps taken and those left, over a run. -/
theorem run_stepsLeft (hTold : Told cfg s) (hStage : 4 ≤ s.main.stage)
    (hRun : run cfg s events = some s') :
    (events.filter (· ≠ .signal)).length + stepsLeft cfg s' + 4 * s.pushed.length ≤
      stepsLeft cfg s + 4 * s'.pushed.length := by
  induction events generalizing s with
  | nil =>
      cases hRun
      simp
  | cons event rest ih =>
      obtain ⟨middle, hFirst, hRest⟩ := Interleaving.run_cons.mp hRun
      have hLater := ih (hTold.step hFirst) (hStage.trans (step_stage hFirst)) hRest
      have hPushed := congrArg List.length (step_pushed_pushes hFirst)
      rw [List.length_append] at hPushed
      by_cases hSignal : event = .signal
      · subst hSignal
        have hSame := signal_stepsLeft hFirst
        simp only [ne_eq, decide_not, decide_true, Bool.not_true, Bool.false_eq_true,
          not_false_eq_true, List.filter_cons_of_neg] at hLater ⊢
        simp only [pushes, List.length_nil] at hPushed
        omega
      · have hLess := step_stepsLeft hTold hStage hSignal hFirst
        rw [List.filter_cons_of_pos (by simpa using hSignal), List.length_cons]
        omega

/-- The batches which GPU threads still claim, if all of them should stop. -/
def claimsLeft (cfg : Config) (s : State) : ℕ :=
  ∑ i ∈ Finset.range cfg.gpus, (s.gpu i).pc.claimsLeft

theorem claimsLeft_setGpu {i : ℕ} (hIndex : i < cfg.gpus) (thread : Thread GpuPc) :
    claimsLeft cfg (s.setGpu i thread) + (s.gpu i).pc.claimsLeft =
      claimsLeft cfg s + thread.pc.claimsLeft :=
  Interleaving.sum_update_add (Finset.mem_range.mpr hIndex) (fun _ thread => thread.pc.claimsLeft)
    s.gpu thread

/-- A thread which should stop does not come back to `input.next`. -/
theorem step_claimsLeft (hTold : Told cfg s) (hStage : 2 ≤ s.main.stage)
    (hStep : s.step cfg event = some s') :
    claimsLeft cfg s' + s'.claimed.length ≤ claimsLeft cfg s + s.claimed.length := by
  by_cases hGpu : ∃ i outputs, event = .gpu i outputs
  · obtain ⟨i, outputs, rfl⟩ := hGpu
    obtain ⟨hIndex, hStep⟩ := Option.ite_none_right_eq_some.mp hStep
    have hFlag := hTold.gpu_stopped hStage hIndex
    have hUpdate := claimsLeft_setGpu (s := s) hIndex
    cases hPc : (s.gpu i).pc with
    | test =>
        simp only [gpuStep, hPc, hFlag, if_true] at hStep
        cases hStep
        have hExit := hUpdate ⟨.exited, true⟩
        simp only [hPc, GpuPc.claimsLeft] at hExit
        simp only [claimsLeft, setGpu] at hExit ⊢
        omega
    | next =>
        simp only [gpuStep, hPc] at hStep
        cases hStep
        have hClaim := hUpdate { s.gpu i with pc := .batch s.pos }
        simp only [hPc, GpuPc.claimsLeft] at hClaim
        simp only [claimsLeft, setGpu, List.length_append, List.length_singleton] at hClaim ⊢
        omega
    | batch startSeed =>
        simp only [gpuStep, hPc] at hStep
        cases hStep
        have hDone := hUpdate { s.gpu i with pc := .test }
        simp only [hPc, GpuPc.claimsLeft] at hDone
        simp only [claimsLeft, setGpu, pushOutputs] at hDone ⊢
        omega
    | exited =>
        simp only [gpuStep, hPc] at hStep
        cases hStep
  · obtain ⟨-, hClaimed, -, hPcs⟩ :=
      step_batches_frame (fun i outputs hEvent => hGpu ⟨i, outputs, hEvent⟩) hStep
    simp only [claimsLeft, hPcs, hClaimed]
    exact le_rfl

theorem run_claimsLeft (hTold : Told cfg s) (hStage : 2 ≤ s.main.stage)
    (hRun : run cfg s events = some s') :
    claimsLeft cfg s' + s'.claimed.length ≤ claimsLeft cfg s + s.claimed.length := by
  have hKept := Interleaving.run_invariant
    (fun t => Told cfg t ∧ 2 ≤ t.main.stage ∧
      claimsLeft cfg t + t.claimed.length ≤ claimsLeft cfg s + s.claimed.length)
    (fun t event t' hInv hStep => ⟨hInv.1.step hStep, hInv.2.1.trans (step_stage hStep),
      (step_claimsLeft hInv.1 hInv.2.1 hStep).trans hInv.2.2⟩)
    ⟨hTold, hStage, le_rfl⟩ hRun
  exact hKept.2.2

/-- A sum over the threads of a process, each at most `bound`. -/
theorem sum_range_le {n bound : ℕ} {left : ℕ → ℕ} (hEach : ∀ i, left i ≤ bound) :
    ∑ i ∈ Finset.range n, left i ≤ bound * n := by
  calc ∑ i ∈ Finset.range n, left i ≤ (Finset.range n).card • bound :=
        Finset.sum_le_card_nsmul _ _ _ fun i _ => hEach i
    _ = bound * n := by
        rw [Finset.card_range]
        exact Nat.mul_comm n bound

theorem claimsLeft_le (cfg : Config) (s : State) : claimsLeft cfg s ≤ cfg.gpus := by
  have hEach : ∀ i, (s.gpu i).pc.claimsLeft ≤ 1 := by
    intro i
    cases (s.gpu i).pc <;> simp [GpuPc.claimsLeft]
  exact (sum_range_le hEach).trans_eq (Nat.one_mul cfg.gpus)

theorem stepsLeft_le (hStage : 4 ≤ s.main.stage) :
    stepsLeft cfg s ≤ 4 * cfg.gpus + 4 * cfg.cpus + 3 * s.gpuOutputs.length + 12 := by
  have hGpu : gpuLeft cfg s ≤ 3 * cfg.gpus := sum_range_le fun i => by
    cases (s.gpu i).pc <;> simp [GpuPc.stepsLeft]
  have hCpu : cpuLeft cfg s ≤ 3 * cfg.cpus := sum_range_le fun i => by
    cases (s.cpu i).pc <;> simp [CpuPc.stepsLeft]
  have hMain : s.main.stepsLeft cfg.gpus cfg.cpus ≤ cfg.gpus + cfg.cpus + 6 := by
    cases hMain : s.main <;> simp only [hMain, MainPc.stage, MainPc.stepsLeft] at hStage ⊢ <;> omega
  have hClient : s.client.pc.stepsLeft ≤ 3 := by
    cases s.client.pc <;> simp [ClientPc.stepsLeft]
  have hServer : s.server.pc.stepsLeft ≤ 2 := by
    cases s.server.pc <;> simp [ServerPc.stepsLeft]
  have hRunning := Bool.toNat_le s.running
  rw [stepsLeft]
  omega

/-- Once every thread was told to stop, the threads take boundedly many steps between
them, however they are scheduled, but for what is still pushed; and each GPU thread claims at
most one more batch. -/
theorem steps_after_stop (cfg : Config) (events later : List Event) (s s' : State)
    (hRun : run cfg (initial cfg) events = some s) (hStage : 4 ≤ s.main.stage)
    (hLater : run cfg s later = some s') :
    (later.filter (· ≠ .signal)).length ≤
        4 * cfg.gpus + 4 * cfg.cpus + 3 * s.gpuOutputs.length + 12 +
          4 * (s'.pushed.length - s.pushed.length) ∧
      s'.claimed.length ≤ s.claimed.length + cfg.gpus := by
  have hTold := run_told hRun
  have hSteps := run_stepsLeft hTold hStage hLater
  have hBound : stepsLeft cfg s ≤ _ := stepsLeft_le hStage
  have hClaims := run_claimsLeft hTold (by omega) hLater
  have hOnce := claimsLeft_le cfg s
  constructor <;> omega

/-- The batch, its output and the join of both threads come after the stop. -/
theorem steps_after_stop_drainedRun :
    ∃ s s', run pairConfig (initial pairConfig) (stopDuringBatch ++ [.main]) = some s ∧
      run pairConfig s [.gpu 0 [islandOutput], .cpu 0, .gpu 0 [], .main] = some s' ∧
      s'.pushed = [islandOutput] ∧
      4 ≤ 4 * 1 + 4 * 1 + 3 * s.gpuOutputs.length + 12 + 4 * (s'.pushed.length - s.pushed.length) ∧
      s'.claimed.length ≤ s.claimed.length + 1 := by
  have hEnds : (run pairConfig (initial pairConfig) (stopDuringBatch ++ [.main])).bind (fun s =>
      (run pairConfig s [.gpu 0 [islandOutput], .cpu 0, .gpu 0 [], .main]).map fun s' =>
        (s.main, s'.pushed)) = some (.shutdownServer, [islandOutput]) := by
    decide +kernel
  obtain ⟨s, hRun, hRest⟩ := Option.bind_eq_some_iff.mp hEnds
  obtain ⟨s', hLater, hEnd⟩ := Option.map_eq_some_iff.mp hRest
  simp only [Prod.mk.injEq] at hEnd
  have hStage : 4 ≤ s.main.stage := by
    rw [hEnd.1]
    exact le_rfl
  exact ⟨s, s', hRun, hLater, hEnd.2, steps_after_stop pairConfig _ _ s s' hRun hStage hLater⟩

end Stop

section Returns

/-- `ServerThread::shutdown` is still to come, or it has found the `io_context`. -/
def ServerStops (cfg : Config) (s : State) : Prop :=
  cfg.server = true → s.main.stage ≤ 4 ∨ s.ctxStopped = true

theorem mainStep_ctxStopped (hStage : 5 ≤ s.main.stage) (hStep : s.mainStep cfg = some s') :
    s'.ctxStopped = s.ctxStopped := by
  cases mainMoves_of_step hStep with
  | shutdownServer hMain => simp [hMain, MainPc.stage] at hStage
  | drain hMain => split <;> rfl
  | _ => rfl

theorem step_ctxStopped (hOther : event ≠ .main) (hStep : s.step cfg event = some s') :
    s'.ctxStopped = s.ctxStopped := by
  cases event with
  | signal =>
      cases hStep
      rfl
  | main => exact absurd rfl hOther
  | gpu i outputs => exact (gpuStep_flags (Option.ite_none_right_eq_some.mp hStep).2).1.ctxStopped
  | cpu i => exact (cpuStep_flags (Option.ite_none_right_eq_some.mp hStep).2).1.ctxStopped
  | client => exact (clientStep_flags (Option.ite_none_right_eq_some.mp hStep).2).1.ctxStopped
  | server outputs => exact (serverStep_flags (Option.ite_none_right_eq_some.mp hStep).2).1.ctxStopped

/-- A shutdown which found no `io_context` is not made up for. -/
theorem run_missed (hStage : 5 ≤ s.main.stage) (hMissed : s.ctxStopped = false)
    (hRun : run cfg s events = some s') : s'.ctxStopped = false := by
  have hKept := Interleaving.run_invariant
    (fun t : State => 5 ≤ t.main.stage ∧ t.ctxStopped = false)
    (fun t event t' hInv hStep => by
      refine ⟨hInv.1.trans (step_stage hStep), ?_⟩
      by_cases hMain : event = .main
      · subst hMain
        rw [mainStep_ctxStopped hInv.1 hStep, hInv.2]
      · rw [step_ctxStopped hMain hStep, hInv.2])
    ⟨hStage, hMissed⟩ hRun
  exact hKept.2

/-- The state has a step which leads towards the return. -/
def Helped (cfg : Config) (s : State) : Prop :=
  ∃ event s', s.step cfg event = some s' ∧ ServerStops cfg s' ∧ stepsLeft cfg s' < stepsLeft cfg s

theorem Helped.other (hStops : ServerStops cfg s) (hOther : event ≠ .main)
    (hStep : s.step cfg event = some s') (hLess : stepsLeft cfg s' < stepsLeft cfg s) :
    Helped cfg s := by
  refine ⟨event, s', hStep, fun hServer => ?_, hLess⟩
  rw [step_main_frame hOther hStep, step_ctxStopped hOther hStep]
  exact hStops hServer

theorem Helped.main (hPolls : s.main = .poll → s.running = false)
    (hStep : s.mainStep cfg = some s') (hStops : ServerStops cfg s') : Helped cfg s :=
  ⟨.main, s', hStep, hStops, mainStep_stepsLeft hPolls hStep⟩

/-- Past the shutdown of the server the main thread keeps what it has found. -/
theorem Helped.join (hStops : ServerStops cfg s) (hStage : 5 ≤ s.main.stage)
    (hStep : s.mainStep cfg = some s') : Helped cfg s := by
  refine .main (fun hMain => ?_) hStep fun hServer => ?_
  · simp [hMain, MainPc.stage] at hStage
  · rw [mainStep_ctxStopped hStage hStep]
    exact .inr ((hStops hServer).resolve_left (by omega))

theorem helped_of_gpu {i : ℕ} (hStops : ServerStops cfg s) (hIndex : i < cfg.gpus)
    (hFlag : (s.gpu i).stopFlag = true) (hPc : (s.gpu i).pc ≠ .exited) : Helped cfg s := by
  obtain ⟨s', hStep⟩ : ∃ s', s.gpuStep i [] = some s' := by
    cases hAt : (s.gpu i).pc with
    | exited => exact absurd hAt hPc
    | test | next | batch startSeed =>
        simp only [gpuStep, hAt]
        exact ⟨_, rfl⟩
  have hNone : s.pushes (.gpu i []) = [] := by
    simp only [pushes]
    split <;> rfl
  have hLess := gpuStep_stepsLeft hIndex hFlag hStep
  rw [hNone] at hLess
  have hTaken : s.step cfg (.gpu i []) = some s' := (if_pos hIndex).trans hStep
  exact .other hStops (by simp) hTaken hLess

theorem helped_of_cpu {i : ℕ} (hStops : ServerStops cfg s) (hIndex : i < cfg.cpus)
    (hFlag : (s.cpu i).stopFlag = true) (hPc : (s.cpu i).pc ≠ .exited) : Helped cfg s := by
  obtain ⟨s', hStep⟩ : ∃ s', s.cpuStep cfg i = some s' := by
    cases hAt : (s.cpu i).pc with
    | exited => exact absurd hAt hPc
    | take | process input | push output =>
        simp only [cpuStep, hAt]
        first
          | exact ⟨_, rfl⟩
          | split <;> exact ⟨_, rfl⟩
  have hTaken : s.step cfg (.cpu i) = some s' := (if_pos hIndex).trans hStep
  exact .other hStops (by simp) hTaken (cpuStep_stepsLeft hIndex hFlag hStep)

theorem helped_of_client (hStops : ServerStops cfg s) (hClient : cfg.client = true)
    (hFlag : s.client.stopFlag = true) (hPc : s.client.pc ≠ .exited) : Helped cfg s := by
  obtain ⟨s', hStep⟩ : ∃ s', s.clientStep = some s' := by
    cases hAt : s.client.pc with
    | exited => exact absurd hAt hPc
    | connect | test | drain | write pendingData =>
        simp only [clientStep, hAt]
        exact ⟨_, rfl⟩
  have hTaken : s.step cfg .client = some s' := (if_pos hClient).trans hStep
  exact .other hStops (by simp) hTaken (clientStep_stepsLeft hFlag hStep)

theorem helped_of_server (hStops : ServerStops cfg s) (hServer : cfg.server = true)
    (hStep : s.serverStep [] = some s') : Helped cfg s := by
  have hNone : s.pushes (.server []) = [] := by
    simp only [pushes]
    split <;> rfl
  have hLess : stepsLeft cfg s' < _ := serverStep_stepsLeft hStep
  rw [hNone] at hLess
  have hTaken : s.step cfg (.server []) = some s' := (if_pos hServer).trans hStep
  exact .other hStops (by simp) hTaken hLess

theorem helped_of_not_returned (hTold : Told cfg s) (hStops : ServerStops cfg s)
    (hMain : s.main ≠ .returned) : Helped cfg s := by
  cases hAt : s.main with
  | returned => exact absurd hAt hMain
  | poll =>
      cases hRunning : s.running with
      | true =>
          refine ⟨.signal, _, rfl, hStops, ?_⟩
          simp only [stepsLeft, gpuLeft, cpuLeft, hRunning, Bool.toNat_false, Bool.toNat_true]
          omega
      | false =>
          refine .main (fun _ => hRunning) (by rw [mainStep, hAt]) fun _ => .inl ?_
          simp [hRunning, MainPc.stage]
  | drain => exact .main (by simp [hAt]) (by rw [mainStep, hAt]) fun _ => .inl (by simp [MainPc.stage])
  | stopGpu i =>
      refine .main (by simp [hAt]) (by rw [mainStep, hAt]) fun _ => .inl ?_
      split <;> simp [MainPc.stage]
  | stopCpu i =>
      refine .main (by simp [hAt]) (by rw [mainStep, hAt]) fun _ => .inl ?_
      split <;> simp [MainPc.stage]
  | stopClient =>
      exact .main (by simp [hAt]) (by rw [mainStep, hAt]) fun _ => .inl (by simp [MainPc.stage])
  | shutdownServer =>
      by_cases hStart : cfg.server = true ∧ s.server.pc = .start
      · -- The server thread stores its `io_context` first.
        exact helped_of_server hStops hStart.1 (by rw [serverStep, hStart.2])
      · refine .main (by simp [hAt]) (by rw [mainStep, hAt]) fun hServer => .inr ?_
        have hEarly := hTold.early (by simp [hAt, MainPc.stage])
        cases hPc : s.server.pc with
        | start => exact absurd ⟨hServer, hPc⟩ hStart
        | serve => simp [hServer]
        | exited => exact absurd (hEarly.symm.trans (hTold.exited hPc)) Bool.false_ne_true
  | joinGpu i =>
      have hStage : 5 ≤ s.main.stage := by simp [hAt, MainPc.stage]
      by_cases hIndex : i < cfg.gpus
      · by_cases hPc : (s.gpu i).pc = .exited
        · have hStep : s.mainStep cfg = some { s with main := .joinGpu (i + 1) } := by
            simp only [mainStep, hAt, if_pos hIndex, if_pos hPc]
          exact .join hStops hStage hStep
        · exact helped_of_gpu hStops hIndex (hTold.gpu_stopped (by omega) hIndex) hPc
      · have hStep : s.mainStep cfg = some { s with main := .joinCpu 0 } := by
          simp only [mainStep, hAt, if_neg hIndex]
        exact .join hStops hStage hStep
  | joinCpu i =>
      have hStage : 5 ≤ s.main.stage := by simp [hAt, MainPc.stage]
      by_cases hIndex : i < cfg.cpus
      · by_cases hPc : (s.cpu i).pc = .exited
        · have hStep : s.mainStep cfg = some { s with main := .joinCpu (i + 1) } := by
            simp only [mainStep, hAt, if_pos hIndex, if_pos hPc]
          exact .join hStops hStage hStep
        · exact helped_of_cpu hStops hIndex (hTold.cpu_stopped (by omega) hIndex) hPc
      · have hStep : s.mainStep cfg = some { s with main := .finalDrain } := by
          simp only [mainStep, hAt, if_neg hIndex]
        exact .join hStops hStage hStep
  | finalDrain => exact .join hStops (by simp [hAt, MainPc.stage]) (by rw [mainStep, hAt])
  | joinClient =>
      have hStage : 5 ≤ s.main.stage := by simp [hAt, MainPc.stage]
      by_cases hClient : cfg.client = true
      · by_cases hPc : s.client.pc = .exited
        · have hStep : s.mainStep cfg = some { s with main := .joinServer } := by
            simp only [mainStep, hAt, if_pos hClient, if_pos hPc]
          exact .join hStops hStage hStep
        · exact helped_of_client hStops hClient (hTold.client (by omega) hClient) hPc
      · have hStep : s.mainStep cfg = some { s with main := .joinServer } := by
          simp only [mainStep, hAt, if_neg hClient]
        exact .join hStops hStage hStep
  | joinServer =>
      have hStage : 5 ≤ s.main.stage := by simp [hAt, MainPc.stage]
      by_cases hServer : cfg.server = true
      · have hStopped := (hStops hServer).resolve_left (by omega)
        cases hPc : s.server.pc with
        | start => exact absurd hPc (hTold.serving hStopped)
        | serve =>
            have hStep : s.serverStep [] = some { s with server := { s.server with pc := .exited } } := by
              simp only [serverStep, hPc, if_true, if_pos hStopped]
            exact helped_of_server hStops hServer hStep
        | exited =>
            have hStep : s.mainStep cfg = some { s with main := .returned } := by
              simp only [mainStep, hAt, if_pos hServer, if_pos hPc]
            exact .join hStops hStage hStep
      · have hStep : s.mainStep cfg = some { s with main := .returned } := by
          simp only [mainStep, hAt, if_neg hServer]
        exact .join hStops hStage hStep

/-- In no reachable state are the threads stuck short of the return of `main_inner`, but for
the one shutdown which came before the server thread had stored its `io_context`. -/
theorem canReturn_iff (cfg : Config) (events : List Event) (s : State)
    (hRun : run cfg (initial cfg) events = some s) :
    (∃ later s', run cfg s later = some s' ∧ s'.main = .returned) ↔
      (cfg.server = true → s.main.stage ≤ 4 ∨ s.ctxStopped = true) := by
  constructor
  · rintro ⟨later, s', hLater, hReturned⟩ hServer
    by_contra hMissed
    obtain ⟨hStage, hNotStopped⟩ := not_or.mp hMissed
    have hNever := run_missed (by omega) (Bool.eq_false_iff.mpr hNotStopped) hLater
    have hTold := Interleaving.run_invariant (Told cfg) (fun _ _ _ hInv hStep => hInv.step hStep)
      (run_told hRun) hLater
    exact Bool.false_ne_true (hNever.symm.trans (hTold.returned hReturned hServer))
  · intro hStops
    obtain ⟨later, s', hLater, hReturned, -⟩ := Interleaving.exists_run_of_rank
      (fun t => Told cfg t ∧ ServerStops cfg t) (fun t => t.main = .returned) (stepsLeft cfg)
      (fun t hInv hMain => by
        obtain ⟨event, t', hStep, hStill, hLess⟩ := helped_of_not_returned hInv.1 hInv.2 hMain
        exact ⟨event, t', hStep, ⟨hInv.1.step hStep, hStill⟩, hLess⟩)
      ⟨run_told hRun, hStops⟩
    exact ⟨later, s', hLater, hReturned⟩

/-- A process which accepts connections. -/
def serverConfig : Config :=
  ⟨0, 1, false, true, 0, fun _ => none, fun hClient => absurd hClient Bool.false_ne_true⟩

/-- `main_inner` shuts the server down before the server thread has taken a step. -/
def earlyShutdown : List Event := .signal :: List.replicate 6 .main

theorem canReturn_iff_earlyShutdown :
    ∃ s, run serverConfig (initial serverConfig) earlyShutdown = some s ∧
      ¬∃ later s', run serverConfig s later = some s' ∧ s'.main = .returned := by
  have hEnds : (run serverConfig (initial serverConfig) earlyShutdown).map
      (fun s => (s.main, s.ctxStopped)) = some (.joinGpu 0, false) := by
    decide +kernel
  obtain ⟨s, hRun, hEnd⟩ := Option.map_eq_some_iff.mp hEnds
  simp only [Prod.mk.injEq] at hEnd
  refine ⟨s, hRun, ?_⟩
  rw [canReturn_iff serverConfig earlyShutdown s hRun, hEnd.1, hEnd.2]
  simp [MainPc.stage, serverConfig]

end Returns

end State

end Commission.Host
