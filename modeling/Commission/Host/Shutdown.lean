import Commission.Host.System
import Mathlib.Algebra.Order.Group.Multiset
import Mathlib.Data.Multiset.AddSub

/-! Where the GPU outputs are when `main_inner` returns. -/
namespace Commission.Host

namespace CpuPc

/-- The output which a CPU thread has popped and not processed yet. -/
def holding : CpuPc → Multiset GpuOutput
  | .process input => {input}
  | _ => 0

end CpuPc

/-- The outputs which the client has drained and not written yet. -/
def ClientPc.pending : ClientPc → Multiset GpuOutput
  | .write pendingData => pendingData
  | _ => 0

namespace State

variable {cfg : Config} {s s' : State} {event : Event}

/-- What a step pushes to `gpu_outputs`: the results of a finished batch, or the
records of a connection. -/
def pushes (s : State) : Event → List GpuOutput
  | .gpu i outputs =>
      match (s.gpu i).pc with
      | .batch _ => outputs
      | _ => []
  | .server outputs => if s.server.pc = .serve then outputs else []
  | _ => []

/-- Every CPU thread has left its loop. -/
def CpusExited (cfg : Config) (s : State) : Prop :=
  ∀ i < cfg.cpus, (s.cpu i).pc = .exited

/-- If the step pushes anything, some CPU thread is still in its loop. -/
def PushHasTaker (cfg : Config) (s : State) (event : Event) : Prop :=
  s.pushes event ≠ [] → ∃ i < cfg.cpus, (s.cpu i).pc ≠ .exited

/-- The outputs in the hands of the CPU threads. -/
def held (cfg : Config) (s : State) : Multiset GpuOutput :=
  ∑ i ∈ Finset.range cfg.cpus, (s.cpu i).pc.holding

/-- The CPU threads which `main_inner` has joined. -/
def cpusJoined (cfg : Config) : MainPc → ℕ
  | .joinCpu i => i
  | .finalDrain | .joinClient | .joinServer | .returned => cfg.cpus
  | _ => 0

section Steps

/-- The main thread touches neither the GPU outputs nor the place where a CPU
thread stands. -/
theorem mainStep_frame (hStep : s.mainStep cfg = some s') :
    s'.gpuOutputs = s.gpuOutputs ∧ s'.pushed = s.pushed ∧ s'.processed = s.processed ∧
      s'.sent = s.sent ∧ s'.client.pc = s.client.pc ∧ ∀ i, (s'.cpu i).pc = (s.cpu i).pc := by
  cases mainMoves_of_step hStep with
  | @stopCpu i hMain hIndex =>
      refine ⟨rfl, rfl, rfl, rfl, rfl, fun j => ?_⟩
      -- `stop()` sets the flag of the thread and leaves it where it stands.
      by_cases hOther : j = i
      · subst hOther
        simp [setCpu, Thread.stop]
      · simp [setCpu, Function.update_of_ne hOther]
  | stopClient hMain =>
      refine ⟨rfl, rfl, rfl, rfl, ?_, fun _ => rfl⟩
      dsimp only
      split <;> rfl
  | drain hMain => split <;> exact ⟨rfl, rfl, rfl, rfl, rfl, fun _ => rfl⟩
  | poll | stopGpu | gpusStopped | cpusStopped | shutdownServer | joinGpu | gpusJoined | joinCpu
  | cpusJoined | finalDrain | joinClient | joinServer =>
      exact ⟨rfl, rfl, rfl, rfl, rfl, fun _ => rfl⟩

/-- A GPU thread only appends to the queue. -/
theorem gpuStep_frame {i : ℕ} {outputs : List GpuOutput} (hStep : s.gpuStep i outputs = some s') :
    s'.gpuOutputs = s.gpuOutputs ++ s.pushes (.gpu i outputs) ∧
      s'.pushed = s.pushed ++ s.pushes (.gpu i outputs) ∧ s'.processed = s.processed ∧
      s'.sent = s.sent ∧ s'.client = s.client ∧ s'.cpu = s.cpu ∧ s'.main = s.main := by
  cases hPc : (s.gpu i).pc with
  | test | next =>
      simp only [gpuStep, hPc, Option.some.injEq] at hStep
      subst hStep
      simp [pushes, hPc, setGpu]
  | batch startSeed =>
      simp only [gpuStep, hPc, Option.some.injEq] at hStep
      subst hStep
      simp [pushes, hPc, setGpu, pushOutputs]
  | exited =>
      simp only [gpuStep, hPc] at hStep
      cases hStep

/-- So does the server thread. -/
theorem serverStep_frame {outputs : List GpuOutput} (hStep : s.serverStep outputs = some s') :
    s'.gpuOutputs = s.gpuOutputs ++ s.pushes (.server outputs) ∧
      s'.pushed = s.pushed ++ s.pushes (.server outputs) ∧ s'.processed = s.processed ∧
      s'.sent = s.sent ∧ s'.client = s.client ∧ s'.cpu = s.cpu ∧ s'.main = s.main := by
  cases hPc : s.server.pc with
  | start =>
      simp only [serverStep, hPc, Option.some.injEq] at hStep
      subst hStep
      simp [pushes, hPc]
  | serve =>
      simp only [serverStep, hPc] at hStep
      split at hStep
      · next hEmpty =>
          rw [Option.ite_none_right_eq_some] at hStep
          cases hStep.2
          simp [pushes, hPc, hEmpty]
      · cases hStep
        simp [pushes, hPc, pushOutputs]
  | exited =>
      simp only [serverStep, hPc] at hStep
      cases hStep

/-- What a step of a CPU thread can do: leave its loop while the queue is empty,
sleep, pop, process with or without a result, or push its result. -/
theorem cpuStep_cases {i : ℕ} (hStep : s.cpuStep cfg i = some s') :
    ((s.cpu i).pc = .take ∧ s.gpuOutputs = [] ∧
      s' = s.setCpu i { s.cpu i with pc := .exited }) ∨
    s' = s ∨
    (∃ input rest, (s.cpu i).pc = .take ∧ s.gpuOutputs = input :: rest ∧
      s' = { s.setCpu i { s.cpu i with pc := .process input } with gpuOutputs := rest }) ∨
    (∃ input, (s.cpu i).pc = .process input ∧ cfg.process input = none ∧
      s' = { s.setCpu i { s.cpu i with pc := .take } with processed := s.processed ++ [input] }) ∨
    (∃ input output, (s.cpu i).pc = .process input ∧ cfg.process input = some output ∧
      s' = { s.setCpu i { s.cpu i with pc := .push output } with
        processed := s.processed ++ [input]
        produced := s.produced ++ [(i, output)] }) ∨
    (∃ output, (s.cpu i).pc = .push output ∧
      s' = { s.setCpu i { s.cpu i with pc := .take } with
        cpuOutputs := s.cpuOutputs ++ [output] }) := by
  cases hPc : (s.cpu i).pc with
  | take =>
      simp only [cpuStep, hPc] at hStep
      split at hStep
      · next hQueue =>
          split at hStep
          · cases hStep
            exact .inl ⟨rfl, hQueue, rfl⟩
          · cases hStep
            exact .inr (.inl rfl)
      · next input rest hQueue =>
          cases hStep
          exact .inr (.inr (.inl ⟨input, rest, rfl, hQueue, rfl⟩))
  | process input =>
      simp only [cpuStep, hPc] at hStep
      split at hStep
      · next hProcess =>
          cases hStep
          exact .inr (.inr (.inr (.inl ⟨input, rfl, hProcess, rfl⟩)))
      · next output hProcess =>
          cases hStep
          exact .inr (.inr (.inr (.inr (.inl ⟨input, output, rfl, hProcess, rfl⟩))))
  | push output =>
      simp only [cpuStep, hPc] at hStep
      cases hStep
      exact .inr (.inr (.inr (.inr (.inr ⟨output, rfl, rfl⟩))))
  | exited =>
      simp only [cpuStep, hPc] at hStep
      cases hStep

/-- The client moves outputs from the queue to the socket. -/
theorem clientStep_frame (hStep : s.clientStep = some s') :
    (s'.gpuOutputs + s'.client.pc.pending + s'.sent : Multiset GpuOutput) =
        s.gpuOutputs + s.client.pc.pending + s.sent ∧
      s'.pushed = s.pushed ∧ s'.processed = s.processed ∧ s'.cpu = s.cpu ∧ s'.main = s.main := by
  cases hPc : s.client.pc with
  | connect =>
      simp only [clientStep, hPc, Option.some.injEq] at hStep
      subst hStep
      simp [ClientPc.pending]
  | test =>
      simp only [clientStep, hPc, Option.some.injEq] at hStep
      subst hStep
      refine ⟨?_, rfl, rfl, rfl, rfl⟩
      dsimp only
      split <;> rfl
  | drain =>
      simp only [clientStep, hPc, Option.some.injEq] at hStep
      subst hStep
      refine ⟨?_, rfl, rfl, rfl, rfl⟩
      cases s.gpuOutputs <;> simp [ClientPc.pending]
  | write pendingData =>
      simp only [clientStep, hPc, Option.some.injEq] at hStep
      subst hStep
      refine ⟨?_, rfl, rfl, rfl, rfl⟩
      simp only [ClientPc.pending, ← Multiset.coe_add]
      ac_rfl
  | exited =>
      simp only [clientStep, hPc] at hStep
      cases hStep

theorem held_setCpu {i : ℕ} (hIndex : i < cfg.cpus) (thread : Thread CpuPc) :
    held cfg (s.setCpu i thread) + (s.cpu i).pc.holding = held cfg s + thread.pc.holding :=
  Interleaving.sum_update_add (Finset.mem_range.mpr hIndex) (fun _ thread => thread.pc.holding) s.cpu
    thread

end Steps

/-- Every output ever pushed is in the queue, in the hands of a CPU thread,
processed, or with the client. -/
def Conserved (cfg : Config) (s : State) : Prop :=
  (s.pushed : Multiset GpuOutput) =
    held cfg s + s.processed + (s.gpuOutputs + s.client.pc.pending + s.sent)

theorem cpuStep_conserved {i : ℕ} (hIndex : i < cfg.cpus) (hConserved : Conserved cfg s)
    (hStep : s.cpuStep cfg i = some s') : Conserved cfg s' := by
  have hHeld := held_setCpu (s := s) hIndex
  obtain ⟨hPc, -, rfl⟩ | rfl | ⟨input, rest, hPc, hQueue, rfl⟩ | ⟨input, hPc, -, rfl⟩ |
    ⟨input, output, hPc, -, rfl⟩ | ⟨output, hPc, rfl⟩ := cpuStep_cases hStep
  · have hSame := hHeld { s.cpu i with pc := .exited }
    simp only [hPc, CpuPc.holding, add_zero] at hSame
    simp only [Conserved, hSame]
    exact hConserved
  · exact hConserved
  · have hTaken := hHeld { s.cpu i with pc := .process input }
    simp only [hPc, CpuPc.holding, add_zero] at hTaken
    simp only [Conserved, hQueue, ← Multiset.cons_coe, ← Multiset.singleton_add] at hConserved
    change (s.pushed : Multiset GpuOutput) = held cfg (s.setCpu i _) + _ + _
    rw [hConserved, hTaken]
    ac_rfl
  · have hDone := hHeld { s.cpu i with pc := .take }
    simp only [hPc, CpuPc.holding, add_zero] at hDone
    simp only [Conserved, ← hDone] at hConserved
    change (s.pushed : Multiset GpuOutput) = held cfg (s.setCpu i _) + _ + _
    rw [hConserved, ← Multiset.coe_add, Multiset.coe_singleton]
    ac_rfl
  · have hDone := hHeld { s.cpu i with pc := .push output }
    simp only [hPc, CpuPc.holding, add_zero] at hDone
    simp only [Conserved, ← hDone] at hConserved
    change (s.pushed : Multiset GpuOutput) = held cfg (s.setCpu i _) + _ + _
    rw [hConserved, ← Multiset.coe_add, Multiset.coe_singleton]
    ac_rfl
  · have hSame := hHeld { s.cpu i with pc := .take }
    simp only [hPc, CpuPc.holding, add_zero] at hSame
    change (s.pushed : Multiset GpuOutput) = held cfg (s.setCpu i _) + _ + _
    rw [hSame]
    exact hConserved

theorem step_conserved (hConserved : Conserved cfg s) (hStep : s.step cfg event = some s') :
    Conserved cfg s' := by
  cases event with
  | signal =>
      cases hStep
      exact hConserved
  | main =>
      obtain ⟨hQueue, hPushed, hProcessed, hSent, hClient, hCpu⟩ := mainStep_frame hStep
      simp only [Conserved, held, hQueue, hPushed, hProcessed, hSent, hClient, hCpu]
      exact hConserved
  | gpu i outputs =>
      obtain ⟨-, hStep⟩ := Option.ite_none_right_eq_some.mp hStep
      obtain ⟨hQueue, hPushed, hProcessed, hSent, hClient, hCpu, -⟩ := gpuStep_frame hStep
      simp only [Conserved, held, hQueue, hPushed, hProcessed, hSent, hClient, hCpu] at hConserved ⊢
      rw [← Multiset.coe_add, ← Multiset.coe_add, hConserved]
      ac_rfl
  | cpu i =>
      obtain ⟨hIndex, hStep⟩ := Option.ite_none_right_eq_some.mp hStep
      exact cpuStep_conserved hIndex hConserved hStep
  | client =>
      obtain ⟨-, hStep⟩ := Option.ite_none_right_eq_some.mp hStep
      obtain ⟨hMoved, hPushed, hProcessed, hCpu, -⟩ := clientStep_frame hStep
      simp only [Conserved, held, hMoved, hPushed, hProcessed, hCpu]
      exact hConserved
  | server outputs =>
      obtain ⟨-, hStep⟩ := Option.ite_none_right_eq_some.mp hStep
      obtain ⟨hQueue, hPushed, hProcessed, hSent, hClient, hCpu, -⟩ := serverStep_frame hStep
      simp only [Conserved, held, hQueue, hPushed, hProcessed, hSent, hClient, hCpu] at hConserved ⊢
      rw [← Multiset.coe_add, ← Multiset.coe_add, hConserved]
      ac_rfl

theorem run_conserved {events : List Event} (hRun : run cfg (initial cfg) events = some s) :
    Conserved cfg s := by
  refine Interleaving.run_invariant (Conserved cfg) (fun _ _ _ => step_conserved) ?_ hRun
  simp [Conserved, held, initial, CpuPc.holding, ClientPc.pending]

section Exit

/-- The effect of a step on one CPU thread and on the queue, as far as the exit
of CPU threads is concerned. -/
theorem step_cpu (hStep : s.step cfg event = some s') (i : ℕ) :
    ((s.cpu i).pc = .exited → (s'.cpu i).pc = .exited) ∧
      ((s.cpu i).pc ≠ .exited → (s'.cpu i).pc = .exited → s'.gpuOutputs = []) := by
  have hSame : (s'.cpu i).pc = (s.cpu i).pc →
      ((s.cpu i).pc = .exited → (s'.cpu i).pc = .exited) ∧
        ((s.cpu i).pc ≠ .exited → (s'.cpu i).pc = .exited → s'.gpuOutputs = []) := by
    intro hPc
    rw [hPc]
    exact ⟨id, fun hNe hEq => absurd hEq hNe⟩
  cases event with
  | signal =>
      cases hStep
      exact hSame rfl
  | main =>
      obtain ⟨-, -, -, -, -, hCpu⟩ := mainStep_frame hStep
      exact hSame (hCpu i)
  | gpu j outputs =>
      obtain ⟨-, hStep⟩ := Option.ite_none_right_eq_some.mp hStep
      obtain ⟨-, -, -, -, -, hCpu, -⟩ := gpuStep_frame hStep
      exact hSame (by rw [hCpu])
  | cpu j =>
      obtain ⟨-, hStep⟩ := Option.ite_none_right_eq_some.mp hStep
      by_cases hOther : i = j
      · subst hOther
        -- Only the first branch ends in `exited`, and it needs an empty queue.
        obtain ⟨hPc, hQueue, rfl⟩ | rfl | ⟨input, rest, hPc, hQueue, rfl⟩ | ⟨input, hPc, -, rfl⟩ |
          ⟨input, output, hPc, -, rfl⟩ | ⟨output, hPc, rfl⟩ := cpuStep_cases hStep
        · exact ⟨fun _ => by simp [setCpu], fun _ _ => hQueue⟩
        · exact hSame rfl
        all_goals simp [hPc, setCpu]
      · apply hSame
        obtain ⟨-, -, rfl⟩ | rfl | ⟨_, _, -, -, rfl⟩ | ⟨_, -, -, rfl⟩ | ⟨_, _, -, -, rfl⟩ |
          ⟨_, -, rfl⟩ := cpuStep_cases hStep
        all_goals simp [setCpu, Function.update_of_ne hOther]
  | client =>
      obtain ⟨-, hStep⟩ := Option.ite_none_right_eq_some.mp hStep
      obtain ⟨-, -, -, hCpu, -⟩ := clientStep_frame hStep
      exact hSame (by rw [hCpu])
  | server outputs =>
      obtain ⟨-, hStep⟩ := Option.ite_none_right_eq_some.mp hStep
      obtain ⟨-, -, -, -, -, hCpu, -⟩ := serverStep_frame hStep
      exact hSame (by rw [hCpu])

theorem CpusExited.step (hExited : CpusExited cfg s) (hStep : s.step cfg event = some s') :
    CpusExited cfg s' :=
  fun i hIndex => (step_cpu hStep i).1 (hExited i hIndex)

/-- Once the CPU threads have gone, nothing is taken from the queue any more. -/
theorem CpusExited.gpuOutputs_step (hCpus : cfg.cpus ≠ 0) (hExited : CpusExited cfg s)
    (hStep : s.step cfg event = some s') : s'.gpuOutputs = s.gpuOutputs ++ s.pushes event := by
  cases event with
  | signal =>
      cases hStep
      simp [pushes]
  | main =>
      rw [(mainStep_frame hStep).1]
      simp [pushes]
  | gpu i outputs =>
      obtain ⟨-, hStep⟩ := Option.ite_none_right_eq_some.mp hStep
      exact (gpuStep_frame hStep).1
  | cpu i =>
      obtain ⟨hIndex, hStep⟩ := Option.ite_none_right_eq_some.mp hStep
      simp only [cpuStep, hExited i hIndex] at hStep
      cases hStep
  | client =>
      obtain ⟨hClient, -⟩ := Option.ite_none_right_eq_some.mp hStep
      exact absurd (cfg.client_cpus hClient) hCpus
  | server outputs =>
      obtain ⟨-, hStep⟩ := Option.ite_none_right_eq_some.mp hStep
      exact (serverStep_frame hStep).1

/-- The last CPU thread leaves an empty queue behind, and it stays empty as long
as every push has a taker. -/
theorem step_gpuOutputs_of_taker (hCpus : cfg.cpus ≠ 0)
    (hEmpty : CpusExited cfg s → s.gpuOutputs = []) (hTaker : PushHasTaker cfg s event)
    (hStep : s.step cfg event = some s') (hExited : CpusExited cfg s') : s'.gpuOutputs = [] := by
  by_cases hBefore : CpusExited cfg s
  · have hNone : s.pushes event = [] := by
      by_contra hSome
      obtain ⟨i, hIndex, hPc⟩ := hTaker hSome
      exact hPc (hBefore i hIndex)
    rw [hBefore.gpuOutputs_step hCpus hStep, hEmpty hBefore, hNone, List.append_nil]
  · simp only [CpusExited, not_forall] at hBefore
    obtain ⟨i, hIndex, hPc⟩ := hBefore
    exact (step_cpu hStep i).2 hPc (hExited i hIndex)

/-- An output pushed after the CPU threads have gone stays in the queue. -/
theorem run_gpuOutputs_ne_nil {events : List Event} (hCpus : cfg.cpus ≠ 0)
    (hExited : CpusExited cfg s) (hQueue : s.gpuOutputs ≠ [])
    (hRun : run cfg s events = some s') : s'.gpuOutputs ≠ [] := by
  have hKept := Interleaving.run_invariant
    (fun t : State => CpusExited cfg t ∧ t.gpuOutputs ≠ [])
    (fun t event t' hKept hStep => by
      refine ⟨hKept.1.step hStep, ?_⟩
      rw [hKept.1.gpuOutputs_step hCpus hStep]
      exact List.append_ne_nil_of_left_ne_nil hKept.2 _)
    ⟨hExited, hQueue⟩ hRun
  exact hKept.2

/-- The number of joined threads grows only past a thread which has left its loop. -/
theorem mainStep_joined (hStep : s.mainStep cfg = some s') :
    cpusJoined cfg s'.main ≤ cpusJoined cfg s.main ∨
      (s.cpu (cpusJoined cfg s.main)).pc = .exited ∧
        cpusJoined cfg s'.main = cpusJoined cfg s.main + 1 := by
  cases mainMoves_of_step hStep with
  | joinCpu hMain hIndex hExited =>
      rw [hMain]
      exact .inr ⟨hExited, rfl⟩
  | cpusJoined hMain hAll =>
      rw [hMain]
      exact .inl hAll
  | poll hMain =>
      left
      dsimp only
      split <;> exact Nat.zero_le _
  | drain hMain | stopGpu hMain | gpusStopped hMain | stopCpu hMain | cpusStopped hMain
  | stopClient hMain | shutdownServer hMain | joinGpu hMain | gpusJoined hMain =>
      exact .inl (Nat.zero_le _)
  | finalDrain hMain | joinClient hMain | joinServer hMain =>
      rw [hMain]
      exact .inl le_rfl

/-- Only the main thread moves the main thread. -/
theorem step_main_frame (hOther : event ≠ .main) (hStep : s.step cfg event = some s') :
    s'.main = s.main := by
  cases event with
  | signal =>
      cases hStep
      rfl
  | main => exact absurd rfl hOther
  | gpu j outputs =>
      obtain ⟨-, hStep⟩ := Option.ite_none_right_eq_some.mp hStep
      exact (gpuStep_frame hStep).2.2.2.2.2.2
  | cpu j =>
      obtain ⟨-, hStep⟩ := Option.ite_none_right_eq_some.mp hStep
      obtain ⟨-, -, rfl⟩ | rfl | ⟨_, _, -, -, rfl⟩ | ⟨_, -, -, rfl⟩ | ⟨_, _, -, -, rfl⟩ |
        ⟨_, -, rfl⟩ := cpuStep_cases hStep
      all_goals rfl
  | client =>
      obtain ⟨-, hStep⟩ := Option.ite_none_right_eq_some.mp hStep
      exact (clientStep_frame hStep).2.2.2.2
  | server outputs =>
      obtain ⟨-, hStep⟩ := Option.ite_none_right_eq_some.mp hStep
      exact (serverStep_frame hStep).2.2.2.2.2.2

/-- A CPU thread which was joined has left its loop. -/
theorem step_joined (hJoined : ∀ i < cpusJoined cfg s.main, (s.cpu i).pc = .exited)
    (hStep : s.step cfg event = some s') :
    ∀ i < cpusJoined cfg s'.main, (s'.cpu i).pc = .exited := by
  intro i hIndex
  apply (step_cpu hStep i).1
  by_cases hMain : event = .main
  · subst hMain
    rcases mainStep_joined hStep with hLe | ⟨hExited, hSucc⟩
    · exact hJoined i (hIndex.trans_le hLe)
    · rcases Nat.lt_or_ge i (cpusJoined cfg s.main) with hLt | hGe
      · exact hJoined i hLt
      · rwa [(by omega : i = cpusJoined cfg s.main)]
  · rw [step_main_frame hMain hStep] at hIndex
    exact hJoined i hIndex

/-- All CPU threads have left their loops when `main_inner` returns. -/
theorem cpusExited_of_returned {events : List Event}
    (hRun : run cfg (initial cfg) events = some s) (hReturned : s.main = .returned) :
    CpusExited cfg s := by
  have hStart : ∀ i < cpusJoined cfg (initial cfg).main, ((initial cfg).cpu i).pc = .exited :=
    fun i hIndex => absurd hIndex (Nat.not_lt_zero i)
  have hJoined := Interleaving.run_invariant
    (fun t : State => ∀ i < cpusJoined cfg t.main, (t.cpu i).pc = .exited)
    (fun _ _ _ => step_joined) hStart hRun
  rw [hReturned] at hJoined
  exact hJoined

end Exit

/-- No client thread runs beside CPU threads. -/
theorem client_eq_false (hCpus : cfg.cpus ≠ 0) : cfg.client = false :=
  Bool.eq_false_iff.mpr fun hClient => hCpus (cfg.client_cpus hClient)

/-- Without a client thread nothing is ever sent. -/
theorem run_client_idle {events : List Event} (hNone : cfg.client = false)
    (hRun : run cfg (initial cfg) events = some s) :
    s.client.pc.pending = 0 ∧ s.sent = [] := by
  refine Interleaving.run_invariant (fun t : State => t.client.pc.pending = 0 ∧ t.sent = [])
    (fun t event t' hIdle hStep => ?_) ⟨rfl, rfl⟩ hRun
  cases event with
  | signal =>
      cases hStep
      exact hIdle
  | main =>
      obtain ⟨-, -, -, hSent, hClient, -⟩ := mainStep_frame hStep
      rwa [hSent, hClient]
  | gpu i outputs =>
      obtain ⟨-, hStep⟩ := Option.ite_none_right_eq_some.mp hStep
      obtain ⟨-, -, -, hSent, hClient, -⟩ := gpuStep_frame hStep
      rwa [hSent, hClient]
  | cpu i =>
      obtain ⟨-, hStep⟩ := Option.ite_none_right_eq_some.mp hStep
      obtain ⟨-, -, rfl⟩ | rfl | ⟨_, _, -, -, rfl⟩ | ⟨_, -, -, rfl⟩ | ⟨_, _, -, -, rfl⟩ |
        ⟨_, -, rfl⟩ := cpuStep_cases hStep
      all_goals exact hIdle
  | client =>
      obtain ⟨hClient, -⟩ := Option.ite_none_right_eq_some.mp hStep
      rw [hNone] at hClient
      cases hClient
  | server outputs =>
      obtain ⟨-, hStep⟩ := Option.ite_none_right_eq_some.mp hStep
      obtain ⟨-, -, -, hSent, hClient, -⟩ := serverStep_frame hStep
      rwa [hSent, hClient]

/-- At the return every pushed output was processed or is still in the queue. -/
theorem pushed_eq_of_returned {events : List Event} (hCpus : cfg.cpus ≠ 0)
    (hRun : run cfg (initial cfg) events = some s) (hReturned : s.main = .returned) :
    (s.pushed : Multiset GpuOutput) = s.processed + s.gpuOutputs := by
  have hHeld : held cfg s = 0 := by
    apply Finset.sum_eq_zero
    intro i hIndex
    rw [cpusExited_of_returned hRun hReturned i (Finset.mem_range.mp hIndex)]
    rfl
  obtain ⟨hPending, hSent⟩ := run_client_idle (client_eq_false hCpus) hRun
  have hConserved := run_conserved hRun
  simpa [Conserved, hHeld, hPending, hSent] using hConserved

/-- `main_inner` returns with an empty queue, every output processed, exactly if
each push of the run happened while some CPU thread was still in its loop. -/
theorem shutdown_drained_iff (cfg : Config) (hCpus : cfg.cpus ≠ 0) (events : List Event) (s : State)
    (hRun : run cfg (initial cfg) events = some s) (hReturned : s.main = .returned) :
    s.gpuOutputs = [] ∧ s.pushed.Perm s.processed ↔
      Interleaving.Along (step cfg) (PushHasTaker cfg) (initial cfg) events := by
  constructor
  · rintro ⟨hEmpty, -⟩
    by_contra hNot
    obtain ⟨first, event, rest, before, after, -, -, hLate, hStep, hRest⟩ :=
      Interleaving.exists_not_of_not_along hRun hNot
    simp only [PushHasTaker, Classical.not_imp, not_exists, not_and, not_not] at hLate
    obtain ⟨hPushes, hExited⟩ := hLate
    have hExited : CpusExited cfg before := hExited
    refine run_gpuOutputs_ne_nil hCpus (hExited.step hStep) ?_ hRest hEmpty
    rw [hExited.gpuOutputs_step hCpus hStep]
    exact List.append_ne_nil_of_right_ne_nil _ hPushes
  · intro hAlong
    have hStart : CpusExited cfg (initial cfg) → (initial cfg).gpuOutputs = [] := fun _ => rfl
    have hEmpty : s.gpuOutputs = [] :=
      Interleaving.run_invariant_along (fun t => CpusExited cfg t → t.gpuOutputs = [])
        (fun t event t' hInv hTaker hStep => step_gpuOutputs_of_taker hCpus hInv hTaker hStep)
        hStart hAlong hRun (cpusExited_of_returned hRun hReturned)
    refine ⟨hEmpty, ?_⟩
    have hPushed := pushed_eq_of_returned hCpus hRun hReturned
    rw [hEmpty, Multiset.coe_nil, add_zero] at hPushed
    exact Multiset.coe_eq_coe.mp hPushed

/-- One GPU thread and one CPU thread, and a test which keeps nothing. -/
def pairConfig : Config := ⟨1, 1, false, false, 0, fun _ => none, by simp⟩

def islandOutput : GpuOutput := ⟨1, 2, 3⟩

/-- The GPU thread claims a batch, the process is told to stop, and main stops
both threads. -/
def stopDuringBatch : List Event :=
  [.gpu 0 [], .gpu 0 [], .signal, .main, .main, .main, .main, .main]

/-- Main goes on from `stopClient` to its return. -/
def joinAndReturn : List Event := List.replicate 9 .main

/-- The GPU thread finishes its batch first; the CPU thread takes the output,
rejects it, and leaves its loop at an empty queue. -/
def drainedRun : List Event :=
  stopDuringBatch ++ [.gpu 0 [islandOutput], .gpu 0 [], .cpu 0, .cpu 0, .cpu 0] ++ joinAndReturn

/-- The CPU thread finds the queue empty before the batch has ended. -/
def lostRun : List Event :=
  stopDuringBatch ++ [.cpu 0, .gpu 0 [islandOutput], .gpu 0 []] ++ joinAndReturn

theorem shutdown_drained_iff_drainedRun :
    ∃ s, run pairConfig (initial pairConfig) drainedRun = some s ∧ s.main = .returned ∧
      (s.gpuOutputs = [] ∧ s.pushed.Perm s.processed ↔
        Interleaving.Along (step pairConfig) (PushHasTaker pairConfig) (initial pairConfig)
          drainedRun) := by
  have hEnds : (run pairConfig (initial pairConfig) drainedRun).map (fun s => s.main) =
      some .returned := by
    decide +kernel
  obtain ⟨s, hRun, hReturned⟩ := Option.map_eq_some_iff.mp hEnds
  exact ⟨s, hRun, hReturned, shutdown_drained_iff pairConfig (by decide) drainedRun s hRun hReturned⟩

/-- Main returns and the output of the last batch is still in the queue. -/
theorem lostRun_returns_undrained :
    ∃ s, run pairConfig (initial pairConfig) lostRun = some s ∧ pairConfig.cpus ≠ 0 ∧
      s.main = .returned ∧ s.pushed = [islandOutput] ∧ s.gpuOutputs = [islandOutput] ∧
      s.processed = [] := by
  have hEnds : (run pairConfig (initial pairConfig) lostRun).map
      (fun s => (s.main, s.pushed, s.gpuOutputs, s.processed)) =
        some (.returned, [islandOutput], [islandOutput], []) := by
    decide +kernel
  obtain ⟨s, hRun, hEnd⟩ := Option.map_eq_some_iff.mp hEnds
  simp only [Prod.mk.injEq] at hEnd
  exact ⟨s, hRun, by decide, hEnd⟩

end State

end Commission.Host
