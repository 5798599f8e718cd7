import Commission.Host.Shutdown

/-! The way of the CPU outputs from the threads which produce them to the output
file. -/
namespace Commission.Host

namespace CpuPc

/-- The output which a CPU thread has produced and not pushed yet. -/
def pushing : CpuPc → List CpuOutput
  | .push output => [output]
  | _ => []

end CpuPc

namespace State

variable {cfg : Config} {s s' : State} {event : Event}

/-- The outputs which CPU threads have produced and not pushed yet. -/
def unpushed (cfg : Config) (s : State) : Multiset CpuOutput :=
  ∑ i ∈ Finset.range cfg.cpus, ((s.cpu i).pc.pushing : Multiset CpuOutput)

/-- The outputs of one thread. -/
def ofThread (i : ℕ) (outputs : List (ℕ × CpuOutput)) : List (ℕ × CpuOutput) :=
  outputs.filter fun output => output.1 = i

section Threads

theorem ofThread_append (i : ℕ) (first second : List (ℕ × CpuOutput)) :
    ofThread i (first ++ second) = ofThread i first ++ ofThread i second :=
  List.filter_append ..

@[simp] theorem ofThread_self (i : ℕ) (outputs : List CpuOutput) :
    ofThread i (outputs.map fun output => (i, output)) = outputs.map fun output => (i, output) := by
  rw [ofThread, List.filter_eq_self]
  intro output hOutput
  obtain ⟨value, -, rfl⟩ := List.mem_map.mp hOutput
  simp

theorem ofThread_of_ne {i j : ℕ} (hOther : i ≠ j) (outputs : List CpuOutput) :
    ofThread i (outputs.map fun output => (j, output)) = [] := by
  rw [ofThread, List.filter_eq_nil_iff]
  intro output hOutput
  obtain ⟨value, -, rfl⟩ := List.mem_map.mp hOutput
  simpa using Ne.symm hOther

/-- Lists which agree on every thread have the same elements. -/
theorem perm_of_ofThread {first second : List (ℕ × CpuOutput)}
    (hThreads : ∀ i, (ofThread i first).Perm (ofThread i second)) : first.Perm second := by
  rw [List.perm_iff_count]
  intro output
  have hCount : ∀ outputs, List.count output (ofThread output.1 outputs) = List.count output outputs :=
    fun outputs => List.count_filter (by simp)
  rw [← hCount first, ← hCount second]
  exact (hThreads output.1).count_eq output

end Threads

/-- The lines of the file and the queue, in order, can be told apart by thread such
that the lines of a thread and the output it still has are what it has produced. -/
def Tagged (s : State) : Prop :=
  ∃ tagged : List (ℕ × CpuOutput), tagged.map Prod.snd = s.outputFile ++ s.cpuOutputs ∧
    ∀ i, ofThread i tagged ++ (s.cpu i).pc.pushing.map (fun output => (i, output)) =
      ofThread i s.produced

section Steps

/-- The GPU threads, the client, the server and the signal handler have nothing to
do with the CPU outputs. -/
theorem step_other_frame (hMain : event ≠ .main) (hCpu : ∀ i, event ≠ .cpu i)
    (hStep : s.step cfg event = some s') :
    s'.outputFile = s.outputFile ∧ s'.cpuOutputs = s.cpuOutputs ∧ s'.produced = s.produced ∧
      s'.cpu = s.cpu := by
  cases event with
  | signal =>
      cases hStep
      exact ⟨rfl, rfl, rfl, rfl⟩
  | main => exact absurd rfl hMain
  | gpu i outputs =>
      obtain ⟨-, hStep⟩ := Option.ite_none_right_eq_some.mp hStep
      cases hPc : (s.gpu i).pc <;> simp only [gpuStep, hPc] at hStep <;> cases hStep <;>
        exact ⟨rfl, rfl, rfl, rfl⟩
  | cpu i => exact absurd rfl (hCpu i)
  | client =>
      obtain ⟨-, hStep⟩ := Option.ite_none_right_eq_some.mp hStep
      cases hPc : s.client.pc <;> simp only [clientStep, hPc] at hStep <;> cases hStep <;>
        exact ⟨rfl, rfl, rfl, rfl⟩
  | server outputs =>
      obtain ⟨-, hStep⟩ := Option.ite_none_right_eq_some.mp hStep
      cases hPc : s.server.pc with
      | start =>
          simp only [serverStep, hPc] at hStep
          cases hStep
          exact ⟨rfl, rfl, rfl, rfl⟩
      | serve =>
          simp only [serverStep, hPc] at hStep
          split at hStep
          · obtain ⟨-, hStep⟩ := Option.ite_none_right_eq_some.mp hStep
            cases hStep
            exact ⟨rfl, rfl, rfl, rfl⟩
          · cases hStep
            exact ⟨rfl, rfl, rfl, rfl⟩
      | exited =>
          simp only [serverStep, hPc] at hStep
          cases hStep

/-- The main thread moves the queue to the end of the file. -/
theorem mainStep_outputs (hStep : s.mainStep cfg = some s') :
    s'.outputFile ++ s'.cpuOutputs = s.outputFile ++ s.cpuOutputs ∧ s'.produced = s.produced := by
  cases mainMoves_of_step hStep with
  | drain hMain =>
      dsimp only
      split
      · exact ⟨by simp [drainOutputs], rfl⟩
      · exact ⟨rfl, rfl⟩
  | finalDrain hMain => exact ⟨by simp [drainOutputs], rfl⟩
  | poll | stopGpu | gpusStopped | stopCpu | cpusStopped | stopClient | shutdownServer | joinGpu
  | gpusJoined | joinCpu | cpusJoined | joinClient | joinServer => exact ⟨rfl, rfl⟩

/-- Only CPU threads produce and push. -/
theorem step_outputs_frame (hCpu : ∀ i, event ≠ .cpu i) (hStep : s.step cfg event = some s') :
    s'.outputFile ++ s'.cpuOutputs = s.outputFile ++ s.cpuOutputs ∧ s'.produced = s.produced ∧
      ∀ i, (s'.cpu i).pc = (s.cpu i).pc := by
  by_cases hMain : event = .main
  · subst hMain
    obtain ⟨hOutputs, hProduced⟩ := mainStep_outputs hStep
    exact ⟨hOutputs, hProduced, (mainStep_frame hStep).2.2.2.2.2⟩
  · obtain ⟨hFile, hQueue, hProduced, hPcs⟩ := step_other_frame hMain hCpu hStep
    exact ⟨by rw [hFile, hQueue], hProduced, fun i => by rw [hPcs]⟩

/-- A CPU thread which goes on without a new output. -/
theorem Tagged.setCpu (hTagged : Tagged s) {i : ℕ} (thread : Thread CpuPc)
    (hBefore : (s.cpu i).pc.pushing = []) (hAfter : thread.pc.pushing = []) :
    Tagged (s.setCpu i thread) := by
  obtain ⟨tagged, hLines, hThreads⟩ := hTagged
  refine ⟨tagged, hLines, fun j => ?_⟩
  by_cases hSame : j = i
  · subst hSame
    have hOwn := hThreads j
    rw [hBefore] at hOwn
    simpa [State.setCpu, hAfter] using hOwn
  · simpa [State.setCpu, Function.update_of_ne hSame] using hThreads j

/-- `process` has returned an output. -/
theorem Tagged.produce (hTagged : Tagged s) {i : ℕ} {thread : Thread CpuPc} {output : CpuOutput}
    (hBefore : (s.cpu i).pc.pushing = []) (hAfter : thread.pc = .push output)
    (processed : List GpuOutput) :
    Tagged { s.setCpu i thread with
      processed := processed
      produced := s.produced ++ [(i, output)] } := by
  obtain ⟨tagged, hLines, hThreads⟩ := hTagged
  refine ⟨tagged, hLines, fun j => ?_⟩
  have hThread := hThreads j
  by_cases hSame : j = i
  · subst hSame
    rw [hBefore, List.map_nil, List.append_nil] at hThread
    have hOwn := ofThread_self j [output]
    simp only [List.map_cons, List.map_nil] at hOwn
    simp only [State.setCpu, Function.update_self, hAfter, CpuPc.pushing, List.map_cons,
      List.map_nil, ofThread_append, hThread, hOwn]
  · have hNone := ofThread_of_ne hSame [output]
    simp only [List.map_cons, List.map_nil] at hNone
    simp only [State.setCpu, Function.update_of_ne hSame, ofThread_append, hNone, List.append_nil]
    exact hThread

/-- The output is pushed to the queue. -/
theorem Tagged.push (hTagged : Tagged s) {i : ℕ} {thread : Thread CpuPc} {output : CpuOutput}
    (hBefore : (s.cpu i).pc = .push output) (hAfter : thread.pc.pushing = []) :
    Tagged { s.setCpu i thread with cpuOutputs := s.cpuOutputs ++ [output] } := by
  obtain ⟨tagged, hLines, hThreads⟩ := hTagged
  refine ⟨tagged ++ [(i, output)], ?_, fun j => ?_⟩
  · rw [List.map_append, hLines, List.append_assoc]
    rfl
  · have hThread := hThreads j
    by_cases hSame : j = i
    · subst hSame
      rw [hBefore] at hThread
      simp only [State.setCpu, Function.update_self, hAfter, List.map_nil, List.append_nil,
        ofThread_append]
      rw [← hThread]
      congr 1
      exact ofThread_self j [output]
    · have hNone := ofThread_of_ne hSame [output]
      simp only [List.map_cons, List.map_nil] at hNone
      simp only [State.setCpu, Function.update_of_ne hSame, ofThread_append, hNone, List.append_nil]
      exact hThread

theorem Tagged.step (hTagged : Tagged s) (hStep : s.step cfg event = some s') : Tagged s' := by
  by_cases hCpu : ∃ i, event = .cpu i
  · obtain ⟨i, rfl⟩ := hCpu
    obtain ⟨-, hStep⟩ := Option.ite_none_right_eq_some.mp hStep
    obtain ⟨hPc, -, rfl⟩ | rfl | ⟨input, rest, hPc, hQueue, rfl⟩ | ⟨input, hPc, -, rfl⟩ |
      ⟨input, output, hPc, -, rfl⟩ | ⟨output, hPc, rfl⟩ := cpuStep_cases hStep
    · exact hTagged.setCpu _ (by rw [hPc]; rfl) rfl
    · exact hTagged
    · exact hTagged.setCpu ⟨.process input, (s.cpu i).stopFlag⟩ (by rw [hPc]; rfl) rfl
    · exact hTagged.setCpu ⟨.take, (s.cpu i).stopFlag⟩ (by rw [hPc]; rfl) rfl
    · exact hTagged.produce (by rw [hPc]; rfl) rfl _
    · exact hTagged.push hPc rfl
  · obtain ⟨tagged, hLines, hThreads⟩ := hTagged
    obtain ⟨hOutputs, hProduced, hPcs⟩ :=
      step_outputs_frame (fun i hEvent => hCpu ⟨i, hEvent⟩) hStep
    refine ⟨tagged, hLines.trans hOutputs.symm, fun i => ?_⟩
    rw [hPcs, hProduced]
    exact hThreads i

end Steps

/-- Every output ever produced is in the hands of the thread which produced it, in the
queue, or a line of the file. -/
def Written (cfg : Config) (s : State) : Prop :=
  (s.produced.map Prod.snd : Multiset CpuOutput) = unpushed cfg s + (s.outputFile ++ s.cpuOutputs : List _)

section Written

theorem cpuStep_written {i : ℕ} (hIndex : i < cfg.cpus) (hWritten : Written cfg s)
    (hStep : s.cpuStep cfg i = some s') : Written cfg s' := by
  have hUnpushed (thread : Thread CpuPc) : unpushed cfg (s.setCpu i thread) + (s.cpu i).pc.pushing =
      unpushed cfg s + thread.pc.pushing :=
    Interleaving.sum_update_add (Finset.mem_range.mpr hIndex)
      (fun _ thread => (thread.pc.pushing : Multiset CpuOutput)) s.cpu thread
  obtain ⟨hPc, -, rfl⟩ | rfl | ⟨input, rest, hPc, hQueue, rfl⟩ | ⟨input, hPc, -, rfl⟩ |
    ⟨input, output, hPc, -, rfl⟩ | ⟨output, hPc, rfl⟩ := cpuStep_cases hStep
  · have hSame := hUnpushed { s.cpu i with pc := .exited }
    simp only [hPc, CpuPc.pushing, Multiset.coe_nil, add_zero] at hSame
    rw [Written, hSame]
    exact hWritten
  · exact hWritten
  · have hSame := hUnpushed { s.cpu i with pc := .process input }
    simp only [hPc, CpuPc.pushing, Multiset.coe_nil, add_zero] at hSame
    change (s.produced.map Prod.snd : Multiset CpuOutput) = unpushed cfg (s.setCpu i _) + _
    rw [hSame]
    exact hWritten
  · have hSame := hUnpushed { s.cpu i with pc := .take }
    simp only [hPc, CpuPc.pushing, Multiset.coe_nil, add_zero] at hSame
    change (s.produced.map Prod.snd : Multiset CpuOutput) = unpushed cfg (s.setCpu i _) + _
    rw [hSame]
    exact hWritten
  · have hNew := hUnpushed { s.cpu i with pc := .push output }
    simp only [hPc, CpuPc.pushing, Multiset.coe_nil, add_zero] at hNew
    change ((s.produced ++ [(i, output)]).map Prod.snd : Multiset CpuOutput) =
      unpushed cfg (s.setCpu i _) + _
    rw [hNew, List.map_append, ← Multiset.coe_add, hWritten]
    exact add_right_comm ..
  · have hGone := hUnpushed { s.cpu i with pc := .take }
    simp only [hPc, CpuPc.pushing, Multiset.coe_nil, add_zero] at hGone
    change (s.produced.map Prod.snd : Multiset CpuOutput) =
      unpushed cfg (s.setCpu i _) + (s.outputFile ++ (s.cpuOutputs ++ [output]) : List _)
    rw [hWritten, ← hGone, ← List.append_assoc, ← Multiset.coe_add _ [output]]
    ac_rfl

theorem Written.step (hWritten : Written cfg s) (hStep : s.step cfg event = some s') :
    Written cfg s' := by
  by_cases hCpu : ∃ i, event = .cpu i
  · obtain ⟨i, rfl⟩ := hCpu
    obtain ⟨hIndex, hStep⟩ := Option.ite_none_right_eq_some.mp hStep
    exact cpuStep_written hIndex hWritten hStep
  · obtain ⟨hOutputs, hProduced, hPcs⟩ :=
      step_outputs_frame (fun i hEvent => hCpu ⟨i, hEvent⟩) hStep
    simp only [Written, unpushed, hOutputs, hProduced, hPcs]
    exact hWritten

end Written

section Runs

variable {events : List Event}

theorem run_tagged (hRun : run cfg (initial cfg) events = some s) : Tagged s := by
  refine Interleaving.run_invariant Tagged (fun _ _ _ hTagged hStep => hTagged.step hStep) ?_ hRun
  exact ⟨[], rfl, fun _ => rfl⟩

/-- The threads beyond the configured number do not exist. -/
theorem run_cpu_take (hRun : run cfg (initial cfg) events = some s) {i : ℕ} (hIndex : cfg.cpus ≤ i) :
    (s.cpu i).pc = .take := by
  refine Interleaving.run_invariant (fun t : State => (t.cpu i).pc = .take)
    (fun t event t' hTake hStep => ?_) rfl hRun
  by_cases hCpu : ∃ j, event = .cpu j
  · obtain ⟨j, rfl⟩ := hCpu
    obtain ⟨hLt, hStep⟩ := Option.ite_none_right_eq_some.mp hStep
    have hOther : i ≠ j := by omega
    obtain ⟨-, -, rfl⟩ | rfl | ⟨_, _, -, -, rfl⟩ | ⟨_, -, -, rfl⟩ | ⟨_, _, -, -, rfl⟩ |
      ⟨_, -, rfl⟩ := cpuStep_cases hStep
    all_goals simpa [State.setCpu, Function.update_of_ne hOther] using hTake
  · rw [(step_outputs_frame (fun j hEvent => hCpu ⟨j, hEvent⟩) hStep).2.2 i]
    exact hTake

/-- The main thread is past the final drain. -/
def PastDrain : MainPc → Prop
  | .joinClient | .joinServer | .returned => True
  | _ => False

/-- Past the final drain the CPU threads have been joined, so nothing is pushed to the
queue any more. -/
theorem step_pastDrain (hJoined : ∀ i < cpusJoined cfg s.main, (s.cpu i).pc = .exited)
    (hEmpty : PastDrain s.main → s.cpuOutputs = []) (hStep : s.step cfg event = some s')
    (hPast : PastDrain s'.main) : s'.cpuOutputs = [] := by
  by_cases hMain : event = .main
  · subst hMain
    cases mainMoves_of_step hStep with
    | finalDrain hAt => rfl
    | joinClient hAt | joinServer hAt => exact hEmpty (by rw [hAt]; trivial)
    | poll hAt =>
        dsimp only at hPast
        split at hPast <;> exact hPast.elim
    | drain | stopGpu | gpusStopped | stopCpu | cpusStopped | stopClient | shutdownServer | joinGpu
    | gpusJoined | joinCpu | cpusJoined => exact hPast.elim
  by_cases hCpu : ∃ i, event = .cpu i
  · obtain ⟨i, rfl⟩ := hCpu
    rw [step_main_frame hMain hStep] at hPast
    obtain ⟨hIndex, hStep⟩ := Option.ite_none_right_eq_some.mp hStep
    have hExited : (s.cpu i).pc = .exited := by
      apply hJoined
      cases hAt : s.main <;> rw [hAt] at hPast <;> first | exact hPast.elim | exact hIndex
    simp only [cpuStep, hExited] at hStep
    cases hStep
  · obtain ⟨-, hQueue, -, -⟩ := step_other_frame hMain (fun i hEvent => hCpu ⟨i, hEvent⟩) hStep
    rw [step_main_frame hMain hStep] at hPast
    exact hQueue.trans (hEmpty hPast)

theorem run_cpuOutputs_of_pastDrain (hRun : run cfg (initial cfg) events = some s)
    (hPast : PastDrain s.main) : s.cpuOutputs = [] := by
  have hStart : (∀ i < cpusJoined cfg (initial cfg).main, ((initial cfg).cpu i).pc = .exited) ∧
      (PastDrain (initial cfg).main → (initial cfg).cpuOutputs = []) :=
    ⟨fun i hIndex => absurd hIndex (Nat.not_lt_zero i), fun _ => rfl⟩
  have hInv := Interleaving.run_invariant
    (fun t : State => (∀ i < cpusJoined cfg t.main, (t.cpu i).pc = .exited) ∧
      (PastDrain t.main → t.cpuOutputs = []))
    (fun _ _ _ hInv hStep => ⟨step_joined hInv.1 hStep, step_pastDrain hInv.1 hInv.2 hStep⟩)
    hStart hRun
  exact hInv.2 hPast

theorem run_written (hRun : run cfg (initial cfg) events = some s) : Written cfg s := by
  refine Interleaving.run_invariant (Written cfg) (fun _ _ _ hWritten hStep => hWritten.step hStep) ?_
    hRun
  simp [Written, unpushed, initial, CpuPc.pushing]

/-- At the return the file holds what the threads have produced, and the lines of each
thread in the order in which it produced them. -/
theorem outputFile_of_returned (hRun : run cfg (initial cfg) events = some s)
    (hReturned : s.main = .returned) :
    ∃ tagged : List (ℕ × CpuOutput), tagged.map Prod.snd = s.outputFile ∧
      tagged.Perm s.produced ∧ ∀ i, ofThread i tagged = ofThread i s.produced := by
  obtain ⟨tagged, hLines, hThreads⟩ := run_tagged hRun
  have hEmpty : s.cpuOutputs = [] := by
    apply run_cpuOutputs_of_pastDrain hRun
    rw [hReturned]
    trivial
  have hPushed (i : ℕ) : (s.cpu i).pc.pushing = [] := by
    rcases Nat.lt_or_ge i cfg.cpus with hIndex | hIndex
    · rw [cpusExited_of_returned hRun hReturned i hIndex]
      rfl
    · rw [run_cpu_take hRun hIndex]
      rfl
  have hSame (i : ℕ) : ofThread i tagged = ofThread i s.produced := by
    have hThread := hThreads i
    rwa [hPushed, List.map_nil, List.append_nil] at hThread
  rw [hEmpty, List.append_nil] at hLines
  exact ⟨tagged, hLines, perm_of_ofThread fun i => .of_eq (hSame i), hSame⟩

end Runs

/-- In every reachable state a GPU output is in the queue, in the hands of a CPU thread
or processed, and a CPU output in the hands of its thread, in the queue or a line of the
file; at the return each is a line of the file, those of a thread in their order. -/
theorem work_conserved (cfg : Config) (events : List Event) (s : State)
    (hRun : run cfg (initial cfg) events = some s) :
    (cfg.client = false →
      (s.pushed : Multiset GpuOutput) = s.gpuOutputs + held cfg s + s.processed) ∧
    (s.produced.map Prod.snd : Multiset CpuOutput) =
      unpushed cfg s + s.cpuOutputs + s.outputFile ∧
    (s.main = .returned →
      ∃ tagged : List (ℕ × CpuOutput), tagged.map Prod.snd = s.outputFile ∧
        tagged.Perm s.produced ∧ ∀ i, ofThread i tagged = ofThread i s.produced) := by
  refine ⟨fun hClient => ?_, ?_, outputFile_of_returned hRun⟩
  · have hConserved := run_conserved hRun
    obtain ⟨hPending, hSent⟩ := run_client_idle hClient hRun
    rw [Conserved, hPending, hSent, Multiset.coe_nil, add_zero, add_zero] at hConserved
    rw [hConserved]
    ac_rfl
  · have hWritten := run_written hRun
    rw [Written, ← Multiset.coe_add] at hWritten
    rw [hWritten]
    ac_rfl

/-- One GPU thread and one CPU thread, and a test which keeps every output. -/
def keepConfig : Config :=
  { pairConfig with process := fun input => some ⟨input.seed, input.x, input.z, 1⟩ }

/-- The GPU thread finishes its batch; the CPU thread takes the output, keeps it, pushes
it, and leaves its loop. -/
def keptRun : List Event :=
  stopDuringBatch ++ [.gpu 0 [islandOutput], .gpu 0 [], .cpu 0, .cpu 0, .cpu 0, .cpu 0] ++
    joinAndReturn

theorem work_conserved_keptRun :
    ∃ s, run keepConfig (initial keepConfig) keptRun = some s ∧ s.main = .returned ∧
      s.outputFile = [⟨1, 2, 3, 1⟩] ∧
      (s.pushed : Multiset GpuOutput) = s.gpuOutputs + held keepConfig s + s.processed ∧
      (s.produced.map Prod.snd : Multiset CpuOutput) =
        unpushed keepConfig s + s.cpuOutputs + s.outputFile ∧
      ∃ tagged : List (ℕ × CpuOutput), tagged.map Prod.snd = s.outputFile ∧
        tagged.Perm s.produced ∧ ∀ i, ofThread i tagged = ofThread i s.produced := by
  have hEnds : (run keepConfig (initial keepConfig) keptRun).map
      (fun s => (s.main, s.outputFile)) = some (.returned, [⟨1, 2, 3, 1⟩]) := by
    decide +kernel
  obtain ⟨s, hRun, hEnd⟩ := Option.map_eq_some_iff.mp hEnds
  simp only [Prod.mk.injEq] at hEnd
  obtain ⟨hPushed, hProduced, hReturned⟩ := work_conserved keepConfig keptRun s hRun
  exact ⟨s, hRun, hEnd.1, hEnd.2, hPushed rfl, hProduced, hReturned hEnd.1⟩

end State

end Commission.Host
