import Commission.Common
import Commission.Gpu.Buffers
import Commission.Library.Interleaving

/-! The threads of one process: GPU threads, CPU threads, the client and the
server thread, and `main_inner` from its polling loop to its return. A step of
a thread is what it does between two points where others can interfere. -/
namespace Commission.Host

/-- The arguments of the program after parsing. A client has no CPU threads,
since `--threads` excludes `--client` and the default is then zero. -/
structure Config where
  gpus : ℕ
  cpus : ℕ
  client : Bool
  server : Bool
  startSeed : BitVec 64
  process : GpuOutput → Option CpuOutput
  client_cpus : client = true → cpus = 0

/-- Where a thread of `GpuThread::run` stands: at the test of the loop, before
`input.next`, or in the batch of a start seed. -/
inductive GpuPc where
  | test
  | next
  | batch (startSeed : BitVec 64)
  | exited
  deriving DecidableEq, Repr

/-- Where a thread of `CpuThread::run` stands. -/
inductive CpuPc where
  | take
  | process (input : GpuOutput)
  | push (output : CpuOutput)
  | exited
  deriving DecidableEq, Repr

/-- Where `ClientThread::run` stands, with its `pending_data`. -/
inductive ClientPc where
  | connect
  | test
  | drain
  | write (pendingData : List GpuOutput)
  | exited
  deriving DecidableEq, Repr

/-- Where `ServerThread::run` stands: before the store to `io_ctx`, in
`io_context.run()`, or returned. -/
inductive ServerPc where
  | start
  | serve
  | exited
  deriving DecidableEq, Repr

/-- A thread with its `stop_flag`. -/
structure Thread (Pc : Type) where
  pc : Pc
  stopFlag : Bool
  deriving DecidableEq, Repr

/-- `stop()` -/
def Thread.stop {Pc : Type} (thread : Thread Pc) : Thread Pc :=
  { thread with stopFlag := true }

/-- Where `main_inner` stands once all threads were created. -/
inductive MainPc where
  | poll
  | drain
  | stopGpu (i : ℕ)
  | stopCpu (i : ℕ)
  | stopClient
  | shutdownServer
  | joinGpu (i : ℕ)
  | joinCpu (i : ℕ)
  | finalDrain
  | joinClient
  | joinServer
  | returned
  deriving DecidableEq, Repr

/-- The state of the process. The fields from `pushed` on record what has
happened so far and are read by no thread. -/
structure State where
  gpu : ℕ → Thread GpuPc
  cpu : ℕ → Thread CpuPc
  client : Thread ClientPc
  server : Thread ServerPc
  /-- `stop()` was called on the `io_context`. -/
  ctxStopped : Bool
  running : Bool
  main : MainPc
  pos : BitVec 64
  gpuOutputs : List GpuOutput
  cpuOutputs : List CpuOutput
  outputFile : List CpuOutput
  pushed : List GpuOutput
  processed : List GpuOutput
  produced : List (ℕ × CpuOutput)
  sent : List GpuOutput
  claimed : List (BitVec 64)
  finished : List (BitVec 64)

/-- Who takes the next step. A batch and a read of a connection come with the
outputs they push. -/
inductive Event where
  | signal
  | main
  | gpu (i : ℕ) (outputs : List GpuOutput)
  | cpu (i : ℕ)
  | client
  | server (outputs : List GpuOutput)
  deriving DecidableEq, Repr

namespace State

/-- All threads were created and none has taken a step. -/
def initial (cfg : Config) : State where
  gpu _ := ⟨.test, false⟩
  cpu _ := ⟨.take, false⟩
  client := ⟨.connect, false⟩
  server := ⟨.start, false⟩
  ctxStopped := false
  running := true
  main := .poll
  pos := cfg.startSeed
  gpuOutputs := []
  cpuOutputs := []
  outputFile := []
  pushed := []
  processed := []
  produced := []
  sent := []
  claimed := []
  finished := []

/-- `outputs.queue.push` for a list of outputs, under the mutex. -/
def pushOutputs (s : State) (outputs : List GpuOutput) : State :=
  { s with gpuOutputs := s.gpuOutputs ++ outputs, pushed := s.pushed ++ outputs }

def setGpu (s : State) (i : ℕ) (thread : Thread GpuPc) : State :=
  { s with gpu := Function.update s.gpu i thread }

def setCpu (s : State) (i : ℕ) (thread : Thread CpuPc) : State :=
  { s with cpu := Function.update s.cpu i thread }

/-- Every queued CPU output is written to the file, in order. -/
def drainOutputs (s : State) : State :=
  { s with cpuOutputs := [], outputFile := s.outputFile ++ s.cpuOutputs }

/-- `GpuThread::run` -/
def gpuStep (s : State) (i : ℕ) (outputs : List GpuOutput) : Option State :=
  let thread := s.gpu i
  match thread.pc with
  | .test => some (s.setGpu i { thread with pc := if thread.stopFlag then .exited else .next })
  | .next =>
      some { s.setGpu i { thread with pc := .batch s.pos } with
        pos := s.pos + BitVec.ofNat 64 KernelFilterSeeds.threadsPerRun
        claimed := s.claimed ++ [s.pos] }
  | .batch startSeed =>
      some { (s.setGpu i { thread with pc := .test }).pushOutputs outputs with
        finished := s.finished ++ [startSeed] }
  | .exited => none

/-- `CpuThread::run`. The queue is tested and popped under one lock; an empty
queue sends the thread to sleep unless it should stop. -/
def cpuStep (cfg : Config) (s : State) (i : ℕ) : Option State :=
  let thread := s.cpu i
  match thread.pc with
  | .take =>
      match s.gpuOutputs with
      | [] => some (if thread.stopFlag then s.setCpu i { thread with pc := .exited } else s)
      | input :: rest =>
          some { s.setCpu i { thread with pc := .process input } with gpuOutputs := rest }
  | .process input =>
      match cfg.process input with
      | none =>
          some { s.setCpu i { thread with pc := .take } with processed := s.processed ++ [input] }
      | some output =>
          some { s.setCpu i { thread with pc := .push output } with
            processed := s.processed ++ [input]
            produced := s.produced ++ [(i, output)] }
  | .push output =>
      some { s.setCpu i { thread with pc := .take } with cpuOutputs := s.cpuOutputs ++ [output] }
  | .exited => none

/-- `ClientThread::run` -/
def clientStep (s : State) : Option State :=
  let thread := s.client
  match thread.pc with
  | .connect => some { s with client := { thread with pc := .test } }
  | .test =>
      some { s with client := { thread with pc := if thread.stopFlag then .exited else .drain } }
  | .drain =>
      some { s with
        client := { thread with pc := if s.gpuOutputs.isEmpty then .test else .write s.gpuOutputs }
        gpuOutputs := [] }
  | .write pendingData =>
      some { s with client := { thread with pc := .test }, sent := s.sent ++ pendingData }
  | .exited => none

/-- `ServerThread::run`. While the event loop runs its connections push what
they read; it can return only after the `io_context` was stopped. -/
def serverStep (s : State) (outputs : List GpuOutput) : Option State :=
  let thread := s.server
  match thread.pc with
  | .start => some { s with server := { thread with pc := .serve } }
  | .serve =>
      if outputs = [] then
        if s.ctxStopped then some { s with server := { thread with pc := .exited } } else none
      else some (s.pushOutputs outputs)
  | .exited => none

/-- `main_inner` from the polling loop on. A join waits for its thread. -/
def mainStep (cfg : Config) (s : State) : Option State :=
  match s.main with
  | .poll => some { s with main := if s.running then .drain else .stopGpu 0 }
  | .drain => some { (if cfg.cpus ≠ 0 then s.drainOutputs else s) with main := .poll }
  | .stopGpu i =>
      some (if i < cfg.gpus then { s.setGpu i (s.gpu i).stop with main := .stopGpu (i + 1) }
        else { s with main := .stopCpu 0 })
  | .stopCpu i =>
      some (if i < cfg.cpus then { s.setCpu i (s.cpu i).stop with main := .stopCpu (i + 1) }
        else { s with main := .stopClient })
  | .stopClient =>
      some { s with
        client := if cfg.client then s.client.stop else s.client
        main := .shutdownServer }
  | .shutdownServer =>
      some { s with
        server := if cfg.server then s.server.stop else s.server
        ctxStopped := cfg.server && s.server.pc = .serve
        main := .joinGpu 0 }
  | .joinGpu i =>
      if i < cfg.gpus then
        if (s.gpu i).pc = .exited then some { s with main := .joinGpu (i + 1) } else none
      else some { s with main := .joinCpu 0 }
  | .joinCpu i =>
      if i < cfg.cpus then
        if (s.cpu i).pc = .exited then some { s with main := .joinCpu (i + 1) } else none
      else some { s with main := .finalDrain }
  | .finalDrain => some { s.drainOutputs with main := .joinClient }
  | .joinClient =>
      if cfg.client then
        if s.client.pc = .exited then some { s with main := .joinServer } else none
      else some { s with main := .joinServer }
  | .joinServer =>
      if cfg.server then
        if s.server.pc = .exited then some { s with main := .returned } else none
      else some { s with main := .returned }
  | .returned => none

/-- One step of the process. -/
def step (cfg : Config) (s : State) : Event → Option State
  | .signal => some { s with running := false }
  | .main => s.mainStep cfg
  | .gpu i outputs => if i < cfg.gpus then s.gpuStep i outputs else none
  | .cpu i => if i < cfg.cpus then s.cpuStep cfg i else none
  | .client => if cfg.client then s.clientStep else none
  | .server outputs => if cfg.server then s.serverStep outputs else none

/-- Any interleaving of the steps. -/
def run (cfg : Config) (s : State) (events : List Event) : Option State :=
  Interleaving.run (step cfg) s events

section MainMoves

variable {cfg : Config} {s s' : State}

/-- The cases of a step of `main_inner`. -/
inductive MainMoves (cfg : Config) (s : State) : State → Prop where
  | poll (hMain : s.main = .poll) :
      MainMoves cfg s { s with main := if s.running then .drain else .stopGpu 0 }
  | drain (hMain : s.main = .drain) :
      MainMoves cfg s { (if cfg.cpus ≠ 0 then s.drainOutputs else s) with main := .poll }
  | stopGpu {i : ℕ} (hMain : s.main = .stopGpu i) (hIndex : i < cfg.gpus) :
      MainMoves cfg s { s.setGpu i (s.gpu i).stop with main := .stopGpu (i + 1) }
  | gpusStopped {i : ℕ} (hMain : s.main = .stopGpu i) (hAll : cfg.gpus ≤ i) :
      MainMoves cfg s { s with main := .stopCpu 0 }
  | stopCpu {i : ℕ} (hMain : s.main = .stopCpu i) (hIndex : i < cfg.cpus) :
      MainMoves cfg s { s.setCpu i (s.cpu i).stop with main := .stopCpu (i + 1) }
  | cpusStopped {i : ℕ} (hMain : s.main = .stopCpu i) (hAll : cfg.cpus ≤ i) :
      MainMoves cfg s { s with main := .stopClient }
  | stopClient (hMain : s.main = .stopClient) :
      MainMoves cfg s { s with
        client := if cfg.client then s.client.stop else s.client
        main := .shutdownServer }
  | shutdownServer (hMain : s.main = .shutdownServer) :
      MainMoves cfg s { s with
        server := if cfg.server then s.server.stop else s.server
        ctxStopped := cfg.server && s.server.pc = .serve
        main := .joinGpu 0 }
  | joinGpu {i : ℕ} (hMain : s.main = .joinGpu i) (hIndex : i < cfg.gpus)
      (hExited : (s.gpu i).pc = .exited) : MainMoves cfg s { s with main := .joinGpu (i + 1) }
  | gpusJoined {i : ℕ} (hMain : s.main = .joinGpu i) (hAll : cfg.gpus ≤ i) :
      MainMoves cfg s { s with main := .joinCpu 0 }
  | joinCpu {i : ℕ} (hMain : s.main = .joinCpu i) (hIndex : i < cfg.cpus)
      (hExited : (s.cpu i).pc = .exited) : MainMoves cfg s { s with main := .joinCpu (i + 1) }
  | cpusJoined {i : ℕ} (hMain : s.main = .joinCpu i) (hAll : cfg.cpus ≤ i) :
      MainMoves cfg s { s with main := .finalDrain }
  | finalDrain (hMain : s.main = .finalDrain) :
      MainMoves cfg s { s.drainOutputs with main := .joinClient }
  | joinClient (hMain : s.main = .joinClient)
      (hExited : cfg.client = true → s.client.pc = .exited) :
      MainMoves cfg s { s with main := .joinServer }
  | joinServer (hMain : s.main = .joinServer)
      (hExited : cfg.server = true → s.server.pc = .exited) :
      MainMoves cfg s { s with main := .returned }

theorem mainMoves_of_step (hStep : s.mainStep cfg = some s') : MainMoves cfg s s' := by
  cases hMain : s.main with
  | poll =>
      simp only [mainStep, hMain] at hStep
      cases hStep
      exact .poll hMain
  | drain =>
      simp only [mainStep, hMain] at hStep
      cases hStep
      exact .drain hMain
  | stopGpu i =>
      simp only [mainStep, hMain] at hStep
      split at hStep
      · next hIndex =>
          cases hStep
          exact .stopGpu hMain hIndex
      · next hAll =>
          cases hStep
          exact .gpusStopped hMain (not_lt.mp hAll)
  | stopCpu i =>
      simp only [mainStep, hMain] at hStep
      split at hStep
      · next hIndex =>
          cases hStep
          exact .stopCpu hMain hIndex
      · next hAll =>
          cases hStep
          exact .cpusStopped hMain (not_lt.mp hAll)
  | stopClient =>
      simp only [mainStep, hMain] at hStep
      cases hStep
      exact .stopClient hMain
  | shutdownServer =>
      simp only [mainStep, hMain] at hStep
      cases hStep
      exact .shutdownServer hMain
  | joinGpu i =>
      simp only [mainStep, hMain] at hStep
      split at hStep
      · next hIndex =>
          obtain ⟨hExited, hStep⟩ := Option.ite_none_right_eq_some.mp hStep
          cases hStep
          exact .joinGpu hMain hIndex hExited
      · next hAll =>
          cases hStep
          exact .gpusJoined hMain (not_lt.mp hAll)
  | joinCpu i =>
      simp only [mainStep, hMain] at hStep
      split at hStep
      · next hIndex =>
          obtain ⟨hExited, hStep⟩ := Option.ite_none_right_eq_some.mp hStep
          cases hStep
          exact .joinCpu hMain hIndex hExited
      · next hAll =>
          cases hStep
          exact .cpusJoined hMain (not_lt.mp hAll)
  | finalDrain =>
      simp only [mainStep, hMain] at hStep
      cases hStep
      exact .finalDrain hMain
  | joinClient =>
      simp only [mainStep, hMain] at hStep
      split at hStep
      · obtain ⟨hExited, hStep⟩ := Option.ite_none_right_eq_some.mp hStep
        cases hStep
        exact .joinClient hMain fun _ => hExited
      · next hNone =>
          cases hStep
          exact .joinClient hMain fun hClient => absurd hClient hNone
  | joinServer =>
      simp only [mainStep, hMain] at hStep
      split at hStep
      · obtain ⟨hExited, hStep⟩ := Option.ite_none_right_eq_some.mp hStep
        cases hStep
        exact .joinServer hMain fun _ => hExited
      · next hNone =>
          cases hStep
          exact .joinServer hMain fun hServer => absurd hServer hNone
  | returned =>
      simp only [mainStep, hMain] at hStep
      cases hStep

end MainMoves

end State

end Commission.Host
