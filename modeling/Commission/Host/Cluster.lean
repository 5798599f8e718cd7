import Commission.Host.Client
import Commission.Host.Report
import Commission.Host.Return
import Commission.Net.Framing

/-! A server process and the client processes which send it their outputs. Client `k` is the
peer of connection `k`. -/
namespace Commission.Host

/-- The processes, with the builds they come from. -/
structure Cluster where
  layout : Layout
  server : Config
  serverLarge : Bool
  client : ℕ → Config
  clientLarge : ℕ → Bool
  server_on : server.server = true
  server_takes : server.client = false
  client_on : ∀ k, (client k).client = true
  client_only : ∀ k, (client k).server = false

/-- `pending_data` of the client thread. -/
def ClientPc.pendingData : ClientPc → List GpuOutput
  | .write pendingData => pendingData
  | _ => []

namespace State

variable (layout : Layout) (large : Bool)

/-- What a step of a client process writes to its socket. -/
def writes (s : State) : Event → List UInt8
  | .client =>
      match s.client.pc with
      | .connect => netHandshake large
      | .write pendingData => pendingData.flatMap layout.encode
      | _ => []
  | _ => []

/-- What a step of the server process does to the queue beside the connections. -/
def queueEvent (s : State) : Event → Option ServerState.Event
  | .gpu i outputs => some (.push (s.pushes (.gpu i outputs)))
  | .cpu i => if (s.cpu i).pc = .take ∧ s.gpuOutputs ≠ [] then some .pop else none
  | _ => none

end State

namespace Cluster

/-- All processes, and the server's connections with what is on its way to them. -/
structure State where
  server : Host.State
  net : ServerState
  clients : ℕ → Host.State

/-- A step of a process, or of a connection in the server thread. -/
inductive Event where
  | server (event : Host.Event)
  | client (k : ℕ) (event : Host.Event)
  | net (event : ServerState.Event)

variable (cfg : Cluster)

/-- No process has taken a step. -/
def initial (memory : ℕ → TcpConnection) : State where
  server := Host.State.initial cfg.server
  net := ServerState.initial memory
  clients k := Host.State.initial (cfg.client k)

/-- The server thread pushes what a connection has read. -/
def isRead : Host.Event → Bool
  | .server outputs => !outputs.isEmpty
  | _ => false

/-- A step of a thread of the server process. What its connections read comes with `.net`. -/
def serverStep (s : State) (event : Host.Event) : Option State :=
  if isRead event then none
  else
    (s.server.step cfg.server event).bind fun server =>
      match s.server.queueEvent event with
      | none => some { s with server }
      | some queueEvent =>
          (s.net.step cfg.layout cfg.serverLarge queueEvent).map fun net => { s with server, net }

/-- A step of a thread of client `k`, which can connect only while the server listens. -/
def clientStep (s : State) (k : ℕ) (event : Host.Event) : Option State :=
  let client := s.clients k
  if event = .client ∧ client.client.pc = .connect ∧ s.server.server.pc ≠ .serve then none
  else
    (client.step (cfg.client k) event).bind fun client' =>
      let bytes := client.writes cfg.layout (cfg.clientLarge k) event
      (s.net.step cfg.layout cfg.serverLarge (.send k bytes)).map fun net =>
        { s with net, clients := Function.update s.clients k client' }

/-- The handlers of a connection, and not what others do to the queue. A client is accepted
after it has connected. -/
def isHandler (s : State) : ServerState.Event → Bool
  | .accept id _ _ => (s.clients id).client.pc ≠ .connect
  | .handleHandshake .. | .handleRead .. => true
  | .send .. | .push _ | .pop => false

/-- A handler of a connection, in `io_context.run()`, pushes what it has read. -/
def netStep (s : State) (event : ServerState.Event) : Option State :=
  if s.server.server.pc = .serve ∧ isHandler s event then
    (s.net.step cfg.layout cfg.serverLarge event).bind fun net =>
      let outputs := net.queue.drop s.net.queue.length
      if outputs = [] then some { s with net }
      else (s.server.step cfg.server (.server outputs)).map fun server => { s with server, net }
  else none

/-- One step of the processes and the network. -/
def step (s : State) : Event → Option State
  | .server event => serverStep cfg s event
  | .client k event => clientStep cfg s k event
  | .net event => netStep cfg s event

def run (s : State) (events : List Event) : Option State :=
  Interleaving.run (step cfg) s events

end Cluster

namespace State

variable {cfg : Config} {s s' : State} {event : Event}

section Client

/-- What a client process has found is sent, about to be sent, or queued, in this order. -/
def InOrder (s : State) : Prop :=
  s.pushed = s.sent ++ s.client.pc.pendingData ++ s.gpuOutputs

/-- The bytes which a client process has written to its socket. -/
def stream (layout : Layout) (large : Bool) (s : State) : List UInt8 :=
  if s.client.pc = .connect then [] else netHandshake large ++ s.sent.flatMap layout.encode

theorem stream_length {layout : Layout} {large : Bool} (hPc : s.client.pc ≠ .connect) :
    (s.stream layout large).length = 16 + s.sent.length * 16 := by
  rw [stream, if_neg hPc, List.length_append, netHandshake_length, List.length_flatMap,
    List.map_congr_left fun output _ => layout.encode_length output]
  simp [sizeofGpuOutput]

/-- Nothing is sent before the socket is connected. -/
def Unsent (s : State) : Prop := s.client.pc = .connect → s.sent = []

/-- Only the client thread writes to the socket. -/
theorem step_sent_frame (hOther : event ≠ .client) (hStep : s.step cfg event = some s') :
    s'.sent = s.sent := by
  cases event with
  | signal =>
      cases hStep
      rfl
  | main => exact (mainStep_frame hStep).2.2.2.1
  | gpu i outputs => exact (gpuStep_frame (Option.ite_none_right_eq_some.mp hStep).2).2.2.2.1
  | cpu i =>
      obtain ⟨-, hStep⟩ := Option.ite_none_right_eq_some.mp hStep
      obtain ⟨-, -, rfl⟩ | rfl | ⟨_, _, -, -, rfl⟩ | ⟨_, -, -, rfl⟩ | ⟨_, _, -, -, rfl⟩ |
        ⟨_, -, rfl⟩ := cpuStep_cases hStep
      all_goals rfl
  | client => exact absurd rfl hOther
  | server outputs => exact (serverStep_frame (Option.ite_none_right_eq_some.mp hStep).2).2.2.2.1

theorem writes_of_ne (layout : Layout) (large : Bool) (hOther : event ≠ .client) :
    s.writes layout large event = [] := by
  cases event with
  | client => exact absurd rfl hOther
  | signal | main | gpu | cpu | server => rfl

/-- A step of the client thread moves outputs from the queue towards the socket and writes
those which it has taken. -/
theorem clientStep_order (layout : Layout) (large : Bool) (hOrder : InOrder s) (hUnsent : Unsent s)
    (hStep : s.clientStep = some s') :
    InOrder s' ∧ Unsent s' ∧
      s'.stream layout large = s.stream layout large ++ s.writes layout large .client := by
  simp only [InOrder, Unsent, stream, writes] at *
  cases hPc : s.client.pc with
  | connect =>
      simp only [clientStep, hPc] at hStep
      cases hStep
      simp only [hPc, ClientPc.pendingData] at hOrder
      simp [hOrder, hUnsent hPc, ClientPc.pendingData]
  | test =>
      simp only [clientStep, hPc] at hStep
      cases hStep
      simp only [hPc, ClientPc.pendingData] at hOrder
      split <;> simp [hOrder, ClientPc.pendingData]
  | drain =>
      simp only [clientStep, hPc] at hStep
      cases hStep
      simp only [hPc, ClientPc.pendingData] at hOrder
      cases hQueue : s.gpuOutputs <;> simp [hOrder, hQueue, ClientPc.pendingData]
  | write pendingData =>
      simp only [clientStep, hPc] at hStep
      cases hStep
      simp only [hPc, ClientPc.pendingData] at hOrder
      simp [hOrder, ClientPc.pendingData]
  | exited =>
      simp only [clientStep, hPc] at hStep
      cases hStep

theorem step_order (layout : Layout) (large : Bool) (hClient : cfg.client = true)
    (hOrder : InOrder s) (hUnsent : Unsent s) (hStep : s.step cfg event = some s') :
    InOrder s' ∧ Unsent s' ∧
      s'.stream layout large = s.stream layout large ++ s.writes layout large event := by
  by_cases hOther : event = .client
  · subst hOther
    exact clientStep_order layout large hOrder hUnsent (Option.ite_none_right_eq_some.mp hStep).2
  · obtain ⟨hPc, hQueue, -⟩ := step_client_frame hClient hOther hStep
    have hSent := step_sent_frame hOther hStep
    refine ⟨?_, ?_, ?_⟩
    · rw [InOrder, step_pushed_pushes hStep, hPc, hQueue, hSent, hOrder, List.append_assoc]
    · rw [Unsent, hPc, hSent]
      exact hUnsent
    · rw [stream, hPc, hSent, writes_of_ne layout large hOther, List.append_nil]
      rfl

end Client

section Server

/-- The server process beside its connections: what is pushed to its queue and popped. -/
theorem step_queueEvent (hClient : cfg.client = false) (hRead : Cluster.isRead event = false)
    (hStep : s.step cfg event = some s') :
    match s.queueEvent event with
    | none => s'.gpuOutputs = s.gpuOutputs ∧ s'.pushed = s.pushed
    | some .pop => s.gpuOutputs ≠ [] ∧ s'.gpuOutputs = s.gpuOutputs.tail ∧ s'.pushed = s.pushed
    | some (.push outputs) =>
        s'.gpuOutputs = s.gpuOutputs ++ outputs ∧ s'.pushed = s.pushed ++ outputs ∧
          outputs = s.pushes event
    | some _ => False := by
  cases event with
  | signal =>
      cases hStep
      exact ⟨rfl, rfl⟩
  | main => exact ⟨(mainStep_frame hStep).1, (mainStep_frame hStep).2.1⟩
  | gpu i outputs =>
      obtain ⟨-, hStep⟩ := Option.ite_none_right_eq_some.mp hStep
      exact ⟨(gpuStep_frame hStep).1, (gpuStep_frame hStep).2.1, rfl⟩
  | cpu i =>
      obtain ⟨-, hStep⟩ := Option.ite_none_right_eq_some.mp hStep
      simp only [queueEvent]
      split_ifs with hTakes
      · obtain ⟨hPc, hSome⟩ := hTakes
        obtain ⟨input, rest, hQueue⟩ := List.exists_cons_of_ne_nil hSome
        simp only [cpuStep, hPc, hQueue] at hStep
        cases hStep
        exact ⟨hSome, by rw [hQueue]; rfl, rfl⟩
      · obtain ⟨-, -, rfl⟩ | rfl | ⟨_, _, hPc, hQueue, rfl⟩ | ⟨_, -, -, rfl⟩ | ⟨_, _, -, -, rfl⟩ |
          ⟨_, -, rfl⟩ := cpuStep_cases hStep
        · exact ⟨rfl, rfl⟩
        · exact ⟨rfl, rfl⟩
        · exact absurd ⟨hPc, by simp [hQueue]⟩ hTakes
        all_goals exact ⟨rfl, rfl⟩
  | client =>
      obtain ⟨hOn, -⟩ := Option.ite_none_right_eq_some.mp hStep
      rw [hClient] at hOn
      cases hOn
  | server outputs =>
      obtain ⟨-, hStep⟩ := Option.ite_none_right_eq_some.mp hStep
      have hNone : outputs = [] := by simpa [Cluster.isRead] using hRead
      subst hNone
      have hPushes : s.pushes (.server []) = [] := by
        simp only [pushes]
        split <;> rfl
      have hFrame := serverStep_frame hStep
      rw [hPushes, List.append_nil, List.append_nil] at hFrame
      exact ⟨hFrame.1, hFrame.2.1⟩

/-- What the server thread pushes while its event loop runs. -/
theorem step_read {outputs : List GpuOutput} (hPc : s.server.pc = .serve)
    (hStep : s.step cfg (.server outputs) = some s') :
    s'.gpuOutputs = s.gpuOutputs ++ outputs ∧ s'.pushed = s.pushed ++ outputs := by
  obtain ⟨-, hStep⟩ := Option.ite_none_right_eq_some.mp hStep
  have hFrame := serverStep_frame hStep
  simp only [pushes, hPc, if_true] at hFrame
  exact ⟨hFrame.1, hFrame.2.1⟩

/-- Beside the connections something is pushed only at the end of a batch. -/
theorem step_pushes_cases (hRead : Cluster.isRead event = false)
    (hStep : s.step cfg event = some s') :
    (s.pushes event = [] ∧ s'.finished = s.finished) ∨
      ∃ i outputs startSeed, event = .gpu i outputs ∧ (s.gpu i).pc = .batch startSeed ∧
        s.pushes event = outputs ∧ s'.finished = s.finished ++ [startSeed] := by
  by_cases hGpu : ∃ i outputs, event = .gpu i outputs
  · obtain ⟨i, outputs, rfl⟩ := hGpu
    obtain ⟨-, hStep⟩ := Option.ite_none_right_eq_some.mp hStep
    cases hPc : (s.gpu i).pc with
    | test | next =>
        simp only [gpuStep, hPc] at hStep
        cases hStep
        simp [pushes, hPc, setGpu]
    | batch startSeed =>
        simp only [gpuStep, hPc] at hStep
        cases hStep
        exact .inr ⟨i, outputs, startSeed, rfl, hPc, by simp [pushes, hPc], rfl⟩
    | exited =>
        simp only [gpuStep, hPc] at hStep
        cases hStep
  · obtain ⟨-, -, hFinished, -⟩ :=
      step_batches_frame (fun i outputs hEvent => hGpu ⟨i, outputs, hEvent⟩) hStep
    refine .inl ⟨?_, hFinished⟩
    cases event with
    | gpu i outputs => exact absurd ⟨i, outputs, rfl⟩ hGpu
    | server outputs =>
        have hEmpty : outputs = [] := by simpa [Cluster.isRead] using hRead
        simp [pushes, hEmpty]
    | signal | main | cpu | client => rfl

end Server

end State

namespace Cluster

variable {cfg : Cluster} {s s' : State} {event : Event} {events : List Event}

section Moves

theorem Socket.sent_deliver (socket : Socket) (count : ℕ) (error : Bool) :
    (socket.deliver count error).sent = socket.sent := by
  rw [Socket.deliver, Socket.sent, Socket.sent, List.append_assoc, List.take_append_drop]

/-- What a connection pushes is pushed under its name, and nothing is sent to it thereby. -/
structure Reads (net net' : ServerState) (outputs : List GpuOutput) : Prop where
  queue : net'.queue = net.queue ++ outputs
  pushes : ∃ id : ℕ, net'.pushes = net.pushes ++ outputs.map fun output => (some id, output)
  sent : ∀ k, (net'.sockets k).sent = (net.sockets k).sent

theorem reads_set (net : ServerState) (id : ℕ) (conn : TcpConnection) {socket : Socket}
    (outputs : List GpuOutput) (hSent : socket.sent = (net.sockets id).sent) :
    Reads net (net.set id conn socket outputs) outputs where
  queue := rfl
  pushes := ⟨id, rfl⟩
  sent k := by
    by_cases hSame : k = id
    · subst hSame
      simpa [ServerState.set] using hSent
    · simp [ServerState.set, Function.update_of_ne hSame]

theorem reads_of_handler {layout : Layout} {large : Bool} {event : ServerState.Event}
    {net : ServerState} (hHandler : isHandler s event = true)
    (hStep : s.net.step layout large event = some net) : ∃ outputs, Reads s.net net outputs := by
  cases event with
  | accept id handshake pendingData =>
      obtain ⟨-, hStep⟩ := Option.ite_none_right_eq_some.mp hStep
      cases hStep
      exact ⟨[], reads_set _ _ _ _ rfl⟩
  | handleHandshake id bytesTransferred error =>
      simp only [ServerState.step, Option.ite_none_right_eq_some, Option.some.injEq] at hStep
      obtain ⟨-, rfl⟩ := hStep
      exact ⟨[], reads_set _ _ _ _ (Socket.sent_deliver _ _ _)⟩
  | handleRead id bytesTransferred error =>
      simp only [ServerState.step, Option.ite_none_right_eq_some] at hStep
      obtain ⟨-, hStep⟩ := hStep
      cases error with
      | true =>
          cases hStep
          exact ⟨[], reads_set _ _ _ _ (Socket.sent_deliver _ _ _)⟩
      | false =>
          simp only [Bool.false_eq_true, if_false, Option.ite_none_right_eq_some,
            Option.some.injEq] at hStep
          obtain ⟨-, rfl⟩ := hStep
          exact ⟨_, reads_set _ _ _ _ (Socket.sent_deliver _ _ _)⟩
  | send | push | pop => cases hHandler

/-- The steps of the system. -/
inductive Moves (cfg : Cluster) (s : State) : Event → State → Prop where
  | server {event : Host.Event} {server : Host.State} (hRead : isRead event = false)
      (hStep : s.server.step cfg.server event = some server)
      (hNone : s.server.queueEvent event = none) : Moves cfg s (.server event) { s with server }
  | queue {event : Host.Event} {server : Host.State} {queueEvent : ServerState.Event}
      {net : ServerState} (hRead : isRead event = false)
      (hStep : s.server.step cfg.server event = some server)
      (hSome : s.server.queueEvent event = some queueEvent)
      (hNet : s.net.step cfg.layout cfg.serverLarge queueEvent = some net) :
      Moves cfg s (.server event) { s with server, net }
  | client {k : ℕ} {event : Host.Event} {client : Host.State} {net : ServerState}
      (hStep : (s.clients k).step (cfg.client k) event = some client)
      (hNet : s.net.step cfg.layout cfg.serverLarge
        (.send k ((s.clients k).writes cfg.layout (cfg.clientLarge k) event)) = some net) :
      Moves cfg s (.client k event) { s with net, clients := Function.update s.clients k client }
  | handler {event : ServerState.Event} {net : ServerState} (hHandler : isHandler s event = true)
      (hNet : s.net.step cfg.layout cfg.serverLarge event = some net)
      (hReads : Reads s.net net []) : Moves cfg s (.net event) { s with net }
  | read {event : ServerState.Event} {net : ServerState} {server : Host.State}
      {outputs : List GpuOutput} (hHandler : isHandler s event = true)
      (hNet : s.net.step cfg.layout cfg.serverLarge event = some net)
      (hReads : Reads s.net net outputs) (hServes : s.server.server.pc = .serve)
      (hStep : s.server.step cfg.server (.server outputs) = some server) :
      Moves cfg s (.net event) { s with server, net }

theorem moves_of_step (hStep : step cfg s event = some s') : Moves cfg s event s' := by
  cases event with
  | server event =>
      simp only [step, serverStep, Option.ite_none_left_eq_some, Bool.not_eq_true] at hStep
      obtain ⟨hRead, hStep⟩ := hStep
      obtain ⟨server, hServer, hNext⟩ := Option.bind_eq_some_iff.mp hStep
      split at hNext
      next hNone =>
        cases hNext
        exact .server hRead hServer hNone
      next queueEvent hSome =>
        obtain ⟨net, hNet, rfl⟩ := Option.map_eq_some_iff.mp hNext
        exact .queue hRead hServer hSome hNet
  | client k event =>
      simp only [step, clientStep, Option.ite_none_left_eq_some] at hStep
      obtain ⟨client, hClient, hNext⟩ := Option.bind_eq_some_iff.mp hStep.2
      obtain ⟨net, hNet, rfl⟩ := Option.map_eq_some_iff.mp hNext
      exact .client hClient hNet
  | net event =>
      simp only [step, netStep, Option.ite_none_right_eq_some] at hStep
      obtain ⟨⟨hServes, hHandler⟩, hStep⟩ := hStep
      obtain ⟨net, hNet, hNext⟩ := Option.bind_eq_some_iff.mp hStep
      obtain ⟨outputs, hReads⟩ := reads_of_handler hHandler hNet
      rw [hReads.queue, List.drop_left] at hNext
      split_ifs at hNext with hNone
      · subst hNone
        cases hNext
        exact .handler hHandler hNet hReads
      · obtain ⟨server, hServer, rfl⟩ := Option.map_eq_some_iff.mp hNext
        exact .read hHandler hNet hReads hServes hServer

end Moves

/-- The two views of the server's queue agree, and so do the two ends of each connection. -/
structure Inv (cfg : Cluster) (s : State) : Prop where
  net : ServerState.Inv cfg.layout cfg.serverLarge s.net
  queue : s.net.queue = s.server.gpuOutputs
  pushes : s.net.pushes.map Prod.snd = s.server.pushed
  order : ∀ k, (s.clients k).InOrder ∧ (s.clients k).Unsent
  stream : ∀ k, (s.net.sockets k).sent = (s.clients k).stream cfg.layout (cfg.clientLarge k)

theorem inv_initial (cfg : Cluster) (memory : ℕ → TcpConnection) : Inv cfg (initial cfg memory) where
  net := ServerState.inv_initial memory
  queue := rfl
  pushes := rfl
  order _ := ⟨rfl, fun _ => rfl⟩
  stream _ := rfl

theorem Inv.step (hInv : Inv cfg s) (hStep : step cfg s event = some s') : Inv cfg s' := by
  cases moves_of_step hStep with
  | server hRead hServer hNone =>
      have hEffect := Host.State.step_queueEvent cfg.server_takes hRead hServer
      rw [hNone] at hEffect
      exact ⟨hInv.net, hInv.queue.trans hEffect.1.symm, hInv.pushes.trans hEffect.2.symm, hInv.order,
        hInv.stream⟩
  | @queue event server queueEvent net hRead hServer hSome hNet =>
      have hKept := hInv.net.step hNet
      have hEffect := Host.State.step_queueEvent cfg.server_takes hRead hServer
      rw [hSome] at hEffect
      cases queueEvent with
      | push outputs =>
          cases hNet
          refine ⟨hKept, ?_, ?_, hInv.order, hInv.stream⟩
          · rw [hEffect.1, ← hInv.queue]
          · rw [hEffect.2.1, ← hInv.pushes]
            simp
      | pop =>
          obtain ⟨hTakes, hRest, hPushed⟩ := hEffect
          obtain ⟨output, rest, hQueue⟩ := List.exists_cons_of_ne_nil (hInv.queue ▸ hTakes)
          simp only [ServerState.step, hQueue] at hNet
          cases hNet
          refine ⟨hKept, ?_, hInv.pushes.trans hPushed.symm, hInv.order, hInv.stream⟩
          rw [hRest, ← hInv.queue, hQueue]
          rfl
      | send | accept | handleHandshake | handleRead => exact hEffect.elim
  | @client k event client net hClient hNet =>
      have hKept := hInv.net.step hNet
      cases hNet
      obtain ⟨hOrder, hUnsent, hStream⟩ := Host.State.step_order cfg.layout (cfg.clientLarge k)
        (cfg.client_on k) (hInv.order k).1 (hInv.order k).2 hClient
      refine ⟨hKept, ?_, ?_, fun j => ?_, fun j => ?_⟩
      · exact (List.append_nil _).trans hInv.queue
      · exact (congrArg _ (List.append_nil _)).trans hInv.pushes
      · by_cases hSame : j = k
        · subst hSame
          simpa using ⟨hOrder, hUnsent⟩
        · simpa [Function.update_of_ne hSame] using hInv.order j
      · by_cases hSame : j = k
        · subst hSame
          simp only [ServerState.set, Function.update_self]
          rw [hStream, ← hInv.stream, Socket.sent, Socket.sent, List.append_assoc]
        · simpa [ServerState.set, Function.update_of_ne hSame] using hInv.stream j
  | handler hHandler hNet hReads =>
      obtain ⟨id, hPushes⟩ := hReads.pushes
      refine ⟨hInv.net.step hNet, ?_, ?_, hInv.order, fun k => (hReads.sent k).trans (hInv.stream k)⟩
      · rw [hReads.queue, List.append_nil, hInv.queue]
      · rw [hPushes, List.map_nil, List.append_nil, hInv.pushes]
  | read hHandler hNet hReads hServes hServer =>
      obtain ⟨id, hPushes⟩ := hReads.pushes
      obtain ⟨hQueue, hPushed⟩ := Host.State.step_read hServes hServer
      refine ⟨hInv.net.step hNet, ?_, ?_, hInv.order, fun k => (hReads.sent k).trans (hInv.stream k)⟩
      · rw [hReads.queue, hQueue, hInv.queue]
      · rw [hPushes, hPushed, List.map_append, hInv.pushes]
        simp

theorem run_inv {memory : ℕ → TcpConnection} (hRun : run cfg (initial cfg memory) events = some s) :
    Inv cfg s :=
  Interleaving.run_invariant (Inv cfg) (fun _ _ _ hInv hStep => hInv.step hStep)
    (inv_initial cfg memory) hRun

section Streams

theorem netHandshake_injective : ∀ {first second : Bool},
    netHandshake first = netHandshake second → first = second := by
  decide

theorem Inv.pushedBy_eq (hInv : Inv cfg s) {k : ℕ} (hSame : cfg.clientLarge k = cfg.serverLarge) :
    s.net.pushedBy k =
      (s.clients k).sent.take (((s.net.sockets k).received.length - 16) / 16) := by
  have hSent : (s.net.sockets k).sent <+:
      (ClientThread.writes cfg.layout cfg.serverLarge [(s.clients k).sent]).flatten := by
    rw [hInv.stream, ClientThread.writes_flatten, Host.State.stream, hSame]
    split
    · exact List.nil_prefix
    · simp
  simpa using hInv.net.pushedBy_client hSent

/-- A client of the other kind of world is turned away. -/
theorem Inv.pushedBy_of_ne (hInv : Inv cfg s) {k : ℕ} (hOther : cfg.clientLarge k ≠ cfg.serverLarge) :
    s.net.pushedBy k = [] := by
  apply hInv.net.pushedBy_of_sent_ne
  rw [hInv.stream, Host.State.stream]
  intro hSame
  split at hSame
  · exact absurd (congrArg List.length hSame) (by simp)
  · rw [List.take_left' (netHandshake_length _)] at hSame
    exact hOther (netHandshake_injective hSame)

theorem Inv.pushedBy_prefix (hInv : Inv cfg s) (k : ℕ) :
    s.net.pushedBy k <+: (s.clients k).sent := by
  by_cases hSame : cfg.clientLarge k = cfg.serverLarge
  · rw [hInv.pushedBy_eq hSame]
    exact List.take_prefix _ _
  · rw [hInv.pushedBy_of_ne hSame]
    exact List.nil_prefix

theorem Inv.pushedBy_prefix_pushed (hInv : Inv cfg s) (k : ℕ) :
    s.net.pushedBy k <+: (s.clients k).pushed := by
  have hOrder := (hInv.order k).1
  rw [Host.State.InOrder, List.append_assoc] at hOrder
  rw [hOrder]
  exact (hInv.pushedBy_prefix k).trans (List.prefix_append _ _)

/-- Once nothing is under way any more, everything sent has arrived. -/
theorem Inv.pushedBy_of_arrived (hInv : Inv cfg s) {k : ℕ}
    (hSame : cfg.clientLarge k = cfg.serverLarge) (hNone : (s.net.sockets k).inFlight = []) :
    s.net.pushedBy k = (s.clients k).sent := by
  have hReceived : (s.net.sockets k).received =
      (s.clients k).stream cfg.layout (cfg.clientLarge k) := by
    rw [← hInv.stream, Socket.sent, hNone, List.append_nil]
  rw [hInv.pushedBy_eq hSame, hReceived]
  by_cases hPc : (s.clients k).client.pc = .connect
  · rw [(hInv.order k).2 hPc, List.take_nil]
  · rw [Host.State.stream_length hPc, Nat.add_sub_cancel_left, Nat.mul_div_cancel _ (by decide),
      List.take_length]

end Streams

/-- The records which the server has pushed for a client are the first of those which the GPU
threads of that client have found, each once and in their order; none if the builds differ; and
all that were sent, once nothing is under way. What the server's queue has seen is these and the
outputs of its own GPU threads. -/
theorem records_in_order (cfg : Cluster) (memory : ℕ → TcpConnection) (events : List Event)
    (s : State) (hRun : run cfg (initial cfg memory) events = some s) :
    s.net.queue = s.server.gpuOutputs ∧ s.net.pushes.map Prod.snd = s.server.pushed ∧
      ∀ k, s.net.pushedBy k <+: (s.clients k).pushed ∧
        (cfg.clientLarge k ≠ cfg.serverLarge → s.net.pushedBy k = []) ∧
        (cfg.clientLarge k = cfg.serverLarge → (s.net.sockets k).inFlight = [] →
          s.net.pushedBy k = (s.clients k).sent) := by
  have hInv := run_inv hRun
  exact ⟨hInv.queue, hInv.pushes,
    fun k => ⟨hInv.pushedBy_prefix_pushed k, hInv.pushedBy_of_ne, hInv.pushedBy_of_arrived⟩⟩

/-- A server, and clients with one GPU thread each. -/
def pairCluster : Cluster where
  layout := .littleEndian
  server := Host.State.serverConfig
  serverLarge := false
  client _ := Host.State.clientConfig
  clientLarge _ := false
  server_on := rfl
  server_takes := rfl
  client_on _ := rfl
  client_only _ := rfl

def blankMemory (_ : ℕ) : TcpConnection := ⟨.accepting, fun _ => 0, fun _ => 0, 0⟩

/-- A client connects and is accepted. -/
def connectEvents : List Event :=
  [.server (.server []), .client 0 .client, .net (.accept 0 (fun _ => 0) fun _ => 0),
    .net (.handleHandshake 0 16 false)]

/-- An output is found there, sent, and read in two parts. -/
def sendEvents (outputs : List GpuOutput) : List Event :=
  [.client 0 (.gpu 0 []), .client 0 (.gpu 0 []), .client 0 (.gpu 0 outputs), .client 0 .client,
    .client 0 .client, .client 0 .client]

def readEvents : List Event := [.net (.handleRead 0 5 false), .net (.handleRead 0 11 false)]

theorem records_in_order_readEvents :
    ∃ s, run pairCluster (initial pairCluster blankMemory)
        (connectEvents ++ sendEvents [Host.State.islandOutput] ++ readEvents) = some s ∧
      s.net.pushedBy 0 = [Host.State.islandOutput] ∧ s.net.queue = s.server.gpuOutputs ∧
      s.net.pushedBy 0 <+: (s.clients 0).pushed := by
  have hEnds : (run pairCluster (initial pairCluster blankMemory)
      (connectEvents ++ sendEvents [Host.State.islandOutput] ++ readEvents)).map
        (fun s => s.net.pushedBy 0) = some [Host.State.islandOutput] := by
    decide +kernel
  obtain ⟨s, hRun, hEnd⟩ := Option.map_eq_some_iff.mp hEnds
  have hHolds := records_in_order pairCluster blankMemory _ s hRun
  exact ⟨s, hRun, hEnd, hHolds.1, (hHolds.2.2 0).1⟩

end Cluster

end Commission.Host
