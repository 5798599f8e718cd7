import Commission.Host.ClusterReport
import Commission.Host.FoundReport

/-! A client whose batch has results, and the server which reads and reports them. -/
namespace Commission.Host.Cluster

variable {cfg : Cluster} {s s' : State} {k : ℕ}

section Lift

/-- Only its own steps change a client. -/
theorem run_clients {events : List Event} (hOther : ∀ event ∈ events, ∀ e, event ≠ .client k e)
    (hRun : run cfg s events = some s') : s'.clients k = s.clients k := by
  refine Interleaving.run_invariant_along (fun t => t.clients k = s.clients k)
    (P := fun _ event => ∀ e, event ≠ .client k e) (fun t event t' hSame hHere hStep => ?_) rfl
    (Interleaving.along_of_forall fun event hEvent _ => hOther event hEvent) hRun
  rw [← hSame]
  cases moves_of_step hStep with
  | @client j e client net hTaken hNet =>
      refine Function.update_of_ne ?_ _ _
      rintro rfl
      exact hHere e rfl
  | server | queue | handler | read => rfl

/-- A step of the server process beside its connections is one of the cluster. -/
theorem exists_server_step {event : Host.Event} {server : Host.State}
    (hQueue : s.net.queue = s.server.gpuOutputs) (hRead : isRead event = false)
    (hStep : s.server.step cfg.server event = some server) :
    ∃ net, step cfg s (.server event) = some { s with server, net } ∧
      net.queue = server.gpuOutputs ∧ net.sockets = s.net.sockets := by
  have hEffect := Host.State.step_queueEvent cfg.server_takes hRead hStep
  simp only [step, serverStep, hRead, hStep, Option.bind_some, if_neg Bool.false_ne_true]
  cases hSome : s.server.queueEvent event with
  | none =>
      rw [hSome] at hEffect
      exact ⟨s.net, rfl, hQueue.trans hEffect.1.symm, rfl⟩
  | some queueEvent =>
      rw [hSome] at hEffect
      cases queueEvent with
      | push outputs =>
          refine ⟨_, rfl, ?_, rfl⟩
          rw [hEffect.1, ← hQueue]
      | pop =>
          obtain ⟨hTakes, hRest, -⟩ := hEffect
          obtain ⟨output, rest, hCons⟩ := List.exists_cons_of_ne_nil (hQueue ▸ hTakes)
          refine ⟨{ s.net with queue := rest, popped := s.net.popped ++ [output] }, ?_, ?_, rfl⟩
          · simp only [ServerState.step, hCons, Option.map_some]
          · rw [hRest, ← hQueue, hCons, List.tail_cons]
      | send | accept | handleHandshake | handleRead => exact hEffect.elim

/-- And so a run of it. -/
theorem exists_server_run {events : List Host.Event} {server : Host.State}
    (hQueue : s.net.queue = s.server.gpuOutputs) (hRead : ∀ event ∈ events, isRead event = false)
    (hRun : Host.State.run cfg.server s.server events = some server) :
    ∃ net, run cfg s (events.map .server) = some { s with server, net } ∧
      net.sockets = s.net.sockets := by
  induction events generalizing s with
  | nil =>
      cases hRun
      exact ⟨s.net, rfl, rfl⟩
  | cons event rest ih =>
      obtain ⟨middle, hFirst, hRest⟩ := Interleaving.run_cons.mp hRun
      obtain ⟨net, hStep, hNext, hSockets⟩ :=
        exists_server_step hQueue (hRead event (List.mem_cons_self ..)) hFirst
      obtain ⟨net', hRun', hSockets'⟩ := ih (s := { s with server := middle, net }) hNext
        (fun later hLater => hRead later (List.mem_cons_of_mem _ hLater)) hRest
      exact ⟨net', Interleaving.run_cons.mpr ⟨_, hStep, hRun'⟩, hSockets'.trans hSockets⟩

/-- A step of a client changes nothing of the server but what is on its way to it. -/
structure Sends (s s' : State) (k : ℕ) (client : Host.State) : Prop where
  server : s'.server = s.server
  clients : s'.clients = Function.update s.clients k client
  connections : s'.net.connections = s.net.connections
  received : (s'.net.sockets k).received = (s.net.sockets k).received
  failed : (s'.net.sockets k).failed = (s.net.sockets k).failed

theorem exists_client_step {event : Host.Event} {client : Host.State}
    (hServes : s.server.server.pc = .serve)
    (hStep : (s.clients k).step (cfg.client k) event = some client) :
    ∃ s', step cfg s (.client k event) = some s' ∧ Sends s s' k client := by
  let socket := s.net.sockets k
  let bytes := (s.clients k).writes cfg.layout (cfg.clientLarge k) event
  refine ⟨{ s with
    net := s.net.set k (s.net.connections k) { socket with inFlight := socket.inFlight ++ bytes } []
    clients := Function.update s.clients k client }, ?_, rfl, rfl, ?_, ?_, ?_⟩
  · have hListens : ¬(event = .client ∧ (s.clients k).client.pc = .connect ∧
        s.server.server.pc ≠ .serve) := fun hConnects => hConnects.2.2 hServes
    simp only [step, clientStep, if_neg hListens, hStep]
    rfl
  · exact Function.update_eq_self k s.net.connections
  · simp [ServerState.set, socket]
  · simp [ServerState.set, socket]

/-- While the server listens, a run of a client process is one of the cluster. -/
theorem exists_client_run {events : List Host.Event} {client : Host.State}
    (hServes : s.server.server.pc = .serve)
    (hRun : Host.State.run (cfg.client k) (s.clients k) events = some client) :
    ∃ s', run cfg s (events.map (.client k)) = some s' ∧ Sends s s' k client := by
  induction events generalizing s with
  | nil =>
      cases hRun
      exact ⟨s, rfl, rfl, (Function.update_eq_self k s.clients).symm, rfl, rfl, rfl⟩
  | cons event rest ih =>
      obtain ⟨middle, hFirst, hRest⟩ := Interleaving.run_cons.mp hRun
      obtain ⟨next, hStep, hNext⟩ := exists_client_step hServes hFirst
      have hRest' : Host.State.run (cfg.client k) (next.clients k) rest = some client := by
        rw [hNext.clients, Function.update_self]
        exact hRest
      obtain ⟨s', hRun', hSends⟩ := ih (hNext.server ▸ hServes) hRest'
      have hClients : s'.clients = Function.update s.clients k client := by
        rw [hSends.clients, hNext.clients, Function.update_idem]
      exact ⟨s', Interleaving.run_cons.mpr ⟨next, hStep, hRun'⟩, hSends.server.trans hNext.server,
        hClients, hSends.connections.trans hNext.connections, hSends.received.trans hNext.received,
        hSends.failed.trans hNext.failed⟩

/-- What holds along a run of a client process holds along it in the cluster. -/
theorem along_of_client {Q : BitVec 64 → List GpuOutput → Prop}
    {clientQ : ℕ → BitVec 64 → List GpuOutput → Prop} {events : List Host.Event}
    (hAlong : Interleaving.Along (Host.State.step (cfg.client k)) (Host.State.Delivers (clientQ k))
      (s.clients k) events) :
    Interleaving.Along (step cfg) (Delivers Q clientQ) s (events.map (.client k)) := by
  induction events generalizing s with
  | nil => trivial
  | cons event rest ih =>
      refine ⟨hAlong.1, fun s' hStep => ih ?_⟩
      cases moves_of_step hStep with
      | client hTaken hNet =>
          simp only [Function.update_self]
          exact hAlong.2 _ hTaken

end Lift

section Read

/-- A connection between two reads, with `n` records on their way to it. -/
structure Waiting (s : State) (k n : ℕ) : Prop where
  serves : s.server.server.pc = .serve
  phase : (s.net.connections k).phase = .read
  pending : (s.net.connections k).pendingDataLen = 0
  succeeds : (s.net.sockets k).failed = false
  inFlight : (s.net.sockets k).inFlight.length = n * 16

/-- One record is read and pushed. -/
theorem Waiting.read (cfg : Cluster) {n : ℕ} (hWaiting : Waiting s k (n + 1)) :
    ∃ output net, step cfg s (.net (.handleRead k 16 false)) =
        some { s with server := s.server.pushOutputs [output], net } ∧
      net.queue = s.net.queue ++ [output] ∧
      Waiting { s with server := s.server.pushOutputs [output], net } k n := by
  obtain ⟨hServes, hPhase, hPending, hSucceeds, hInFlight⟩ := hWaiting
  let filled := { s.net.connections k with
    pendingData := RecordStream.store (s.net.connections k).pendingData
      (s.net.connections k).pendingDataLen ((s.net.sockets k).inFlight.take 16) }
  let output := TcpConnection.recordAt cfg.layout filled.pendingData 0
  have hHandled : (filled.handleRead cfg.layout 16).2 = [output] := by
    simp [TcpConnection.handleRead, filled, output, hPending, sizeofGpuOutput]
  have hNet : s.net.step cfg.layout cfg.serverLarge (.handleRead k 16 false) =
      some (s.net.set k (filled.handleRead cfg.layout 16).1
        ((s.net.sockets k).deliver 16 false) [output]) := by
    have hOffered : 16 ≤ (s.net.connections k).offered := by
      rw [TcpConnection.offered, hPending]
      decide
    have hLength : 16 ≤ (s.net.sockets k).inFlight.length := by omega
    have hReady : ¬(s.net.sockets k).failed ∧ 1 ≤ 16 ∧ 16 ≤ (s.net.connections k).offered ∧
        16 ≤ (s.net.sockets k).inFlight.length := by
      simp [hSucceeds, hOffered, hLength]
    rw [← hHandled]
    exact (if_pos hPhase).trans ((if_neg Bool.false_ne_true).trans (if_pos hReady))
  have hServer : s.server.step cfg.server (.server [output]) =
      some (s.server.pushOutputs [output]) := by
    simp [Host.State.step, cfg.server_on, Host.State.serverStep, hServes]
  let net := s.net.set k (filled.handleRead cfg.layout 16).1
    ((s.net.sockets k).deliver 16 false) [output]
  refine ⟨output, net, ?_, rfl, hServes, ?_, ?_, ?_, ?_⟩
  rotate_left
  · simp [net, ServerState.set, TcpConnection.handleRead, filled, hPending, sizeofGpuOutput,
      TcpConnection.startRead]
  · simp [net, ServerState.set, TcpConnection.handleRead, filled, hPending, sizeofGpuOutput,
      TcpConnection.startRead]
  · simp [net, ServerState.set, Socket.deliver]
  · simp only [net, ServerState.set, Socket.deliver, Function.update_self, List.length_drop, hInFlight]
    omega
  · simp only [step, netStep, hServes, isHandler, hNet, Option.bind_some]
    simp [net, ServerState.set, hServer]

/-- And so all of them. -/
theorem Waiting.reads (cfg : Cluster) {n : ℕ} (hWaiting : Waiting s k n)
    (hQueue : s.net.queue = s.server.gpuOutputs) :
    ∃ outputs net, outputs.length = n ∧
      run cfg s (List.replicate n (.net (.handleRead k 16 false))) =
        some { s with server := s.server.pushOutputs outputs, net } ∧
      net.queue = (s.server.pushOutputs outputs).gpuOutputs ∧ (net.sockets k).inFlight = [] := by
  induction n generalizing s with
  | zero =>
      refine ⟨[], s.net, rfl, ?_, ?_, ?_⟩
      · simp [run, Interleaving.run, Host.State.pushOutputs]
      · rw [hQueue, Host.State.pushOutputs, List.append_nil]
      · exact List.length_eq_zero_iff.mp (hWaiting.inFlight.trans (Nat.zero_mul 16))
  | succ n ih =>
      obtain ⟨output, net, hStep, hNext, hFewer⟩ := Waiting.read cfg hWaiting
      have hBoth : net.queue = (s.server.pushOutputs [output]).gpuOutputs := by
        rw [hNext, hQueue, Host.State.pushOutputs]
      obtain ⟨outputs, net', hLength, hRun, hQueue', hArrived⟩ := ih hFewer hBoth
      refine ⟨output :: outputs, net', ?_, ?_, ?_, hArrived⟩
      · rw [List.length_cons, hLength]
      · refine Interleaving.run_cons.mpr ⟨_, hStep, hRun.trans ?_⟩
        simp [Host.State.pushOutputs]
      · rw [hQueue']
        simp [Host.State.pushOutputs]

end Read

section Found

/-- The server keeps every output. -/
def foundCluster : Cluster :=
  { pairCluster with
    server := { Host.State.serverConfig with process := Host.State.keepAll }
    server_on := rfl
    server_takes := rfl }

/-- The server listens. -/
def serving : Host.State :=
  { Host.State.initial foundCluster.server with server := ⟨.serve, false⟩ }

/-- A client has connected. -/
def connected : Host.State :=
  { Host.State.initial Host.State.clientConfig with client := ⟨.test, false⟩ }

theorem connectEvents_waiting :
    ∃ s, run foundCluster (initial foundCluster blankMemory) connectEvents = some s ∧
      s.server = serving ∧ s.clients 0 = connected ∧
      (s.net.connections 0).phase = .read ∧ (s.net.connections 0).pendingDataLen = 0 ∧
      (s.net.sockets 0).failed = false ∧ (s.net.sockets 0).received.length = 16 :=
  ⟨_, rfl, rfl, rfl, by decide +kernel, rfl, rfl, by decide +kernel⟩

/-- A client finds these outputs in its batch, sends them and returns. -/
def clientFinds (outputs : List GpuOutput) : List Host.Event :=
  [.gpu 0 [], .gpu 0 [], .gpu 0 outputs, .client, .client, .client, .signal, .main, .main, .main,
    .main, .main, .gpu 0 [], .client, .main, .main, .main, .main, .main, .main, .main]

theorem clientFinds_returns (output : GpuOutput) (rest : List GpuOutput) :
    ∃ client, Host.State.run Host.State.clientConfig connected (clientFinds (output :: rest)) =
        some client ∧
      client.main = .returned ∧ client.gpuOutputs = [] ∧ client.sent = output :: rest ∧
      client.client.pc = .exited :=
  ⟨_, rfl, rfl, rfl, rfl, rfl⟩

theorem delivers_clientFinds {Q : BitVec 64 → List GpuOutput → Prop} {output : GpuOutput}
    {rest : List GpuOutput} (hOutputs : Q 0 (output :: rest)) :
    Interleaving.Along (Host.State.step Host.State.clientConfig) (Host.State.Delivers Q) connected
      (clientFinds (output :: rest)) := by
  refine .cons (Host.State.delivers_of_idle .test rfl (fun _ => nofun) _) rfl ?_
  refine .cons (Host.State.delivers_of_idle .next rfl (fun _ => nofun) _) rfl ?_
  refine .cons ?_ rfl ?_
  · rintro _ _ _ ⟨⟩ ⟨⟩
    exact hOutputs
  · iterate 9 refine .cons (Host.State.delivers_of_other (by simp)) rfl ?_
    refine .cons (Host.State.delivers_of_idle .test rfl (fun _ => nofun) _) rfl ?_
    exact Interleaving.along_of_forall fun event hEvent _ => Host.State.delivers_of_other (by
      rintro i outputs rfl
      simp at hEvent)

/-- The server tests as many records and returns. -/
def serverKeeps (n : ℕ) : List Host.Event :=
  (List.replicate n [.cpu 0, .cpu 0, .cpu 0]).flatten ++
    [.signal, .main, .main, .main, .main, .main, .main, .main, .cpu 0, .main, .main, .main, .main,
      .server [], .main]

theorem serverKeeps_isRead (n : ℕ) : ∀ event ∈ serverKeeps n, isRead event = false := by
  intro event hEvent
  simp only [serverKeeps, List.mem_append, List.mem_flatten, List.mem_replicate] at hEvent
  obtain ⟨_, ⟨-, rfl⟩, hEvent⟩ | hEvent := hEvent
  · simp only [List.mem_cons, List.not_mem_nil, or_false, or_self] at hEvent
    rw [hEvent]
    rfl
  · revert event
    decide

theorem serverKeeps_returns (outputs : List GpuOutput) :
    ∃ server, Host.State.run foundCluster.server (serving.pushOutputs outputs)
        (serverKeeps outputs.length) = some server ∧
      server.main = .returned ∧ server.gpuOutputs = [] ∧
      server.outputFile = outputs.filterMap Host.State.keepAll := by
  have hKeep (input : GpuOutput) : (Host.State.keepAll input).isSome := rfl
  have hOne : 0 < foundCluster.server.cpus := Nat.one_pos
  have hTake : ((serving.pushOutputs outputs).cpu 0).pc = .take := rfl
  have hKept := Host.State.run_keep_all hOne hKeep outputs hTake rfl
  rw [List.flatMap, List.map_const'] at hKept
  rw [serverKeeps, Host.State.run, Interleaving.run_append, ← Host.State.run, hKept, Option.bind_some]
  exact ⟨_, rfl, rfl, rfl, rfl⟩

/-- A client connects, finds these outputs and returns; the server reads them one by one,
tests them and returns. -/
def foundEvents (outputs : List GpuOutput) : List Event :=
  connectEvents ++ ((clientFinds outputs).map (.client 0) ++
    (List.replicate outputs.length (.net (.handleRead 0 16 false)) ++
      (serverKeeps outputs.length).map .server))

theorem foundEvents_returns {outputs : List GpuOutput} (hSome : outputs ≠ []) :
    ∃ s, run foundCluster (initial foundCluster blankMemory) (foundEvents outputs) = some s ∧
      s.server.main = .returned ∧ s.server.gpuOutputs = [] ∧ s.server.outputFile ≠ [] ∧
      (s.clients 0).main = .returned ∧ (s.clients 0).gpuOutputs = [] ∧
      (s.net.sockets 0).inFlight = [] := by
  obtain ⟨output, rest, rfl⟩ := List.exists_cons_of_ne_nil hSome
  obtain ⟨s, hConnect, hServing, hConnected, hPhase, hPending, hSucceeds, hReceived⟩ :=
    connectEvents_waiting
  obtain ⟨client, hFinds, hReturned, hDrained, hSent, hExited⟩ := clientFinds_returns output rest
  have hServes : s.server.server.pc = .serve := by
    rw [hServing]
    rfl
  have hRun : Host.State.run (foundCluster.client 0) (s.clients 0) (clientFinds (output :: rest)) =
      some client := by
    rw [hConnected]
    exact hFinds
  obtain ⟨s₁, hClient, hSends⟩ := exists_client_run hServes hRun
  have hBefore : run foundCluster (initial foundCluster blankMemory)
      (connectEvents ++ (clientFinds (output :: rest)).map (.client 0)) = some s₁ := by
    rw [run, Interleaving.run_append, ← run, hConnect, Option.bind_some]
    exact hClient
  have hClients : s₁.clients 0 = client := by
    rw [hSends.clients, Function.update_self]
  have hWaiting : Waiting s₁ 0 (output :: rest).length := by
    refine ⟨?_, ?_, ?_, ?_, ?_⟩
    · rw [hSends.server, hServing]
      rfl
    · rw [hSends.connections, hPhase]
    · rw [hSends.connections, hPending]
    · rw [hSends.failed, hSucceeds]
    · have hStream := congrArg List.length ((run_inv hBefore).stream 0)
      rw [Socket.sent, List.length_append, hSends.received, hReceived, hClients,
        Host.State.stream_length (by simp [hExited]), hSent] at hStream
      omega
  have hBoth : s₁.net.queue = s₁.server.gpuOutputs := (run_inv hBefore).queue
  obtain ⟨outputs, net, hLength, hReads, hNext, hArrived⟩ := hWaiting.reads foundCluster hBoth
  rw [hSends.server, hServing] at hReads hNext
  obtain ⟨server, hKeeps, hServer, hEmpty, hFile⟩ := serverKeeps_returns outputs
  let s₂ : State := { s₁ with server := serving.pushOutputs outputs, net }
  obtain ⟨net', hTests, hSockets⟩ :=
    exists_server_run (s := s₂) hNext (serverKeeps_isRead outputs.length) hKeeps
  refine ⟨{ s₁ with server, net := net' }, ?_, hServer, hEmpty, ?_, ?_, ?_, ?_⟩
  · rw [foundEvents, ← List.append_assoc, run, Interleaving.run_append, ← run, hBefore,
      Option.bind_some, Interleaving.run_append, ← run, hReads, Option.bind_some, ← hLength]
    exact hTests
  · rw [hFile]
    refine filterMap_ne_nil (fun _ => rfl) (List.ne_nil_of_length_pos ?_)
    rw [hLength]
    exact Nat.succ_pos _
  · rw [hClients, hReturned]
  · rw [hClients, hDrained]
  · rw [hSockets, hArrived]
theorem delivers_of_other {Q : BitVec 64 → List GpuOutput → Prop}
    {clientQ : ℕ → BitVec 64 → List GpuOutput → Prop} {event : Event}
    (hServer : ∀ i outputs, event ≠ .server (.gpu i outputs))
    (hClient : ∀ k i outputs, event ≠ .client k (.gpu i outputs)) : Delivers Q clientQ s event := by
  cases event with
  | server event =>
      exact Host.State.delivers_of_other fun i outputs hGpu => hServer i outputs (hGpu ▸ rfl)
  | client k event =>
      exact Host.State.delivers_of_other fun i outputs hGpu => hClient k i outputs (hGpu ▸ rfl)
  | net event => trivial

/-- Only these outputs are delivered. -/
theorem delivers_foundEvents {Q : BitVec 64 → List GpuOutput → Prop}
    {clientQ : ℕ → BitVec 64 → List GpuOutput → Prop} {outputs : List GpuOutput}
    (hSome : outputs ≠ []) (hOutputs : clientQ 0 0 outputs) :
    Interleaving.Along (step foundCluster) (Delivers Q clientQ) (initial foundCluster blankMemory)
      (foundEvents outputs) := by
  obtain ⟨output, rest, rfl⟩ := List.exists_cons_of_ne_nil hSome
  rw [foundEvents]
  refine .append (Interleaving.along_of_forall fun event hEvent s => ?_) fun s hRun =>
    .append ?_ fun s₁ _ => Interleaving.along_of_forall fun event hEvent s => ?_
  · refine delivers_of_other ?_ ?_
    · rintro i outputs rfl
      simp [connectEvents] at hEvent
    · rintro k i outputs rfl
      simp [connectEvents] at hEvent
  · obtain ⟨t, hConnect, -, hConnected, -⟩ := connectEvents_waiting
    cases hRun.symm.trans hConnect
    refine along_of_client ?_
    rw [hConnected]
    exact delivers_clientFinds hOutputs
  · refine delivers_of_other ?_ ?_
    · rintro i outputs rfl
      simp [serverKeeps] at hEvent
    · rintro k i outputs rfl
      simp at hEvent

/-- The other clients take no step. -/
theorem clients_foundEvents {outputs : List GpuOutput}
    (hRun : run foundCluster (initial foundCluster blankMemory) (foundEvents outputs) = some s)
    (hOther : k ≠ 0) : s.clients k = Host.State.initial Host.State.clientConfig := by
  refine run_clients (fun event hEvent e => ?_) hRun
  rintro rfl
  simp [foundEvents, connectEvents, hOther, hOther.symm] at hEvent

theorem cluster_report_sound_foundEvents :
    ∃ row nz outputs s, run foundCluster (initial foundCluster blankMemory) (foundEvents outputs) =
        some s ∧ s.server.outputFile ≠ [] ∧
      ∀ line ∈ s.server.outputFile,
        (∃ seed ∈ seedsFrom foundCluster.server.startSeed
            (s.server.claimed.length * KernelFilterSeeds.threadsPerRun),
          ∃ c ∈ Search.search (Traced row nz) Traced.config seed,
            foundCluster.server.process c.output = some line) ∨
        ∃ k, foundCluster.clientLarge k = foundCluster.serverLarge ∧
          ∃ seed ∈ seedsFrom (foundCluster.client k).startSeed
              ((s.clients k).claimed.length * KernelFilterSeeds.threadsPerRun),
            ∃ c ∈ Search.search (Traced row nz) Traced.config seed,
              foundCluster.server.process c.output = some line := by
  obtain ⟨row, nz, outputs, hSome, hFrom⟩ := exists_fromOrderedBatch
  obtain ⟨s, hRun, -, -, hFile, -⟩ := foundEvents_returns hSome
  refine ⟨row, nz, outputs, s, hRun, hFile, ?_⟩
  exact cluster_report_sound (Traced row nz) Traced.config (fun _ => Traced.config) foundCluster
    blankMemory (foundEvents outputs) s hRun (delivers_foundEvents hSome hFrom.fromBatch)

theorem cluster_report_complete_foundEvents :
    ∃ row nz outputs s, run foundCluster (initial foundCluster blankMemory) (foundEvents outputs) =
        some s ∧ s.server.outputFile ≠ [] ∧
      s.server.outputFile.Perm
        (keptLines (Traced row nz) Traced.config foundCluster.server.process 0
            s.server.claimed.length ++
          (List.range 1).flatMap fun k => keptLines (Traced row nz) Traced.config
            foundCluster.server.process 0 (s.clients k).claimed.length) := by
  obtain ⟨row, nz, outputs, hSome, hFrom⟩ := exists_fromOrderedBatch
  obtain ⟨s, hRun, hReturned, hDrained, hFile, hGone, hEmpty, hArrived⟩ := foundEvents_returns hSome
  refine ⟨row, nz, outputs, s, hRun, hFile, ?_⟩
  refine cluster_report_complete (Traced row nz) Traced.config (fun _ => Traced.config) foundCluster
    blankMemory (foundEvents outputs) s 1 hRun Nat.one_ne_zero hReturned hDrained (fun k hFirst => ?_)
    (fun k hLater => ?_) (delivers_foundEvents hSome hFrom)
  · rw [Nat.lt_one_iff.mp hFirst]
    exact ⟨rfl, hGone, hEmpty, hArrived⟩
  · rw [clients_foundEvents hRun (Nat.one_le_iff_ne_zero.mp hLater)]
    rfl

end Found

end Commission.Host.Cluster
