import Commission.Host.Cluster

/-! What the output file of a server process says about the seeds which it and its clients have
claimed. -/
namespace Commission.Host.Cluster

variable {cfg : Cluster} {s s' : State} {event : Event} {events : List Event}

section Sources

/-- Each process has gone through a run of its own. -/
def Reached (cfg : Cluster) (s : State) : Prop :=
  (∃ events, Host.State.run cfg.server (Host.State.initial cfg.server) events = some s.server) ∧
    ∀ k, ∃ events, Host.State.run (cfg.client k) (Host.State.initial (cfg.client k)) events =
      some (s.clients k)

theorem exists_run_step {cfg : Config} {start s s' : Host.State} {event : Host.Event}
    (hRun : ∃ events, Host.State.run cfg start events = some s)
    (hStep : s.step cfg event = some s') :
    ∃ events, Host.State.run cfg start events = some s' := by
  obtain ⟨events, hRun⟩ := hRun
  refine ⟨events ++ [event], ?_⟩
  rw [Host.State.run, Interleaving.run_append, ← Host.State.run, hRun, Option.bind_some]
  exact Interleaving.run_cons.mpr ⟨s', hStep, rfl⟩

theorem Reached.step (hReached : Reached cfg s) (hStep : step cfg s event = some s') :
    Reached cfg s' := by
  obtain ⟨hServer, hClients⟩ := hReached
  cases moves_of_step hStep with
  | server hRead hTaken hNone => exact ⟨exists_run_step hServer hTaken, hClients⟩
  | queue hRead hTaken hSome hNet => exact ⟨exists_run_step hServer hTaken, hClients⟩
  | @client k event client net hTaken hNet =>
      refine ⟨hServer, fun j => ?_⟩
      by_cases hSame : j = k
      · subst hSame
        simpa using exists_run_step (hClients j) hTaken
      · simpa [Function.update_of_ne hSame] using hClients j
  | handler hHandler hNet hReads => exact ⟨hServer, hClients⟩
  | read hHandler hNet hReads hServes hTaken => exact ⟨exists_run_step hServer hTaken, hClients⟩

/-- The outputs at the end of a batch of any process are in a relation to its start seed. -/
def Delivers (R : BitVec 64 → List GpuOutput → Prop)
    (clientR : ℕ → BitVec 64 → List GpuOutput → Prop) (s : State) : Event → Prop
  | .server event => Host.State.Delivers R s.server event
  | .client k event => Host.State.Delivers (clientR k) (s.clients k) event
  | .net _ => True

/-- The records which the server's own GPU threads have pushed. -/
def own (net : ServerState) : List GpuOutput :=
  (net.pushes.filter fun push => push.1 = none).map Prod.snd

/-- Each process pushes what its own batches have found, up to a relation. -/
structure Sourced (R : List GpuOutput → List GpuOutput → Prop) (found : BitVec 64 → List GpuOutput)
    (clientFound : ℕ → BitVec 64 → List GpuOutput) (s : State) : Prop where
  own : R (own s.net) (s.server.finished.flatMap found)
  client : ∀ k, R (s.clients k).pushed ((s.clients k).finished.flatMap (clientFound k))

/-- A relation between lists which goes along with appending. -/
structure Additive (R : List GpuOutput → List GpuOutput → Prop) : Prop where
  nil : R [] []
  append : ∀ {first second first' second'}, R first second → R first' second' →
    R (first ++ first') (second ++ second')

theorem additive_subset : Additive (· ⊆ ·) where
  nil := List.Subset.refl []
  append hFirst hSecond := List.append_subset.mpr
    ⟨List.Subset.trans hFirst (List.subset_append_left _ _),
      List.Subset.trans hSecond (List.subset_append_right _ _)⟩

theorem additive_perm : Additive List.Perm where
  nil := .refl []
  append := .append

variable {R : List GpuOutput → List GpuOutput → Prop} {found : BitVec 64 → List GpuOutput}
  {clientFound : ℕ → BitVec 64 → List GpuOutput}

/-- One step of a process, beside its connections. -/
theorem Additive.step (hR : Additive R) {cfg : Config} {t t' : Host.State} {event : Host.Event}
    {before : List GpuOutput} (hBefore : R before (t.finished.flatMap found))
    (hDelivers : Host.State.Delivers (fun startSeed outputs => R outputs (found startSeed)) t event)
    (hRead : isRead event = false) (hStep : t.step cfg event = some t') :
    R (before ++ t.pushes event) (t'.finished.flatMap found) := by
  rcases Host.State.step_pushes_cases hRead hStep with ⟨hPushes, hFinished⟩ |
    ⟨i, outputs, startSeed, rfl, hPc, hPushes, hFinished⟩
  · rw [hPushes, hFinished, List.append_nil]
    exact hBefore
  · rw [hPushes, hFinished, List.flatMap_append, List.flatMap_singleton]
    exact hR.append hBefore (hDelivers i outputs startSeed rfl hPc)

theorem own_append_own (net : ServerState) (outputs : List GpuOutput) :
    own { net with
      queue := net.queue ++ outputs
      pushes := net.pushes ++ outputs.map fun output => (none, output) } = own net ++ outputs := by
  have hAll : (outputs.map fun output => ((none : Option ℕ), output)).filter
      (fun push => push.1 = none) = outputs.map fun output => (none, output) := by
    apply List.filter_eq_self.mpr
    simp
  simp only [own, List.filter_append, List.map_append, hAll, List.map_map]
  congr 1
  exact List.map_id _

theorem own_of_reads {net net' : ServerState} {outputs : List GpuOutput}
    (hReads : Reads net net' outputs) : own net' = own net := by
  obtain ⟨id, hPushes⟩ := hReads.pushes
  have hNone : (outputs.map fun output => (some id, output)).filter
      (fun push => push.1 = none) = [] := by
    simp [List.filter_eq_nil_iff]
  rw [own, hPushes, List.filter_append, hNone, List.append_nil, own]

theorem Sourced.step (hR : Additive R) (hSourced : Sourced R found clientFound s)
    (hDelivers : Delivers (fun startSeed outputs => R outputs (found startSeed))
      (fun k startSeed outputs => R outputs (clientFound k startSeed)) s event)
    (hStep : step cfg s event = some s') : Sourced R found clientFound s' := by
  obtain ⟨hOwn, hClient⟩ := hSourced
  cases moves_of_step hStep with
  | @server event server hRead hTaken hNone =>
      have hNext := hR.step hOwn hDelivers hRead hTaken
      have hPushed := Host.State.step_pushed_pushes hTaken
      have hEffect := Host.State.step_queueEvent cfg.server_takes hRead hTaken
      rw [hNone] at hEffect
      rw [hEffect.2, List.self_eq_append_right] at hPushed
      rw [hPushed, List.append_nil] at hNext
      exact ⟨hNext, hClient⟩
  | @queue event server queueEvent net hRead hTaken hSome hNet =>
      have hNext := hR.step hOwn hDelivers hRead hTaken
      have hPushed := Host.State.step_pushed_pushes hTaken
      have hEffect := Host.State.step_queueEvent cfg.server_takes hRead hTaken
      rw [hSome] at hEffect
      cases queueEvent with
      | push outputs =>
          cases hNet
          rw [← hEffect.2.2, ← own_append_own] at hNext
          exact ⟨hNext, hClient⟩
      | pop =>
          rw [hEffect.2.2, List.self_eq_append_right] at hPushed
          rw [hPushed, List.append_nil] at hNext
          simp only [ServerState.step] at hNet
          split at hNet
          · cases hNet
          · cases hNet
            exact ⟨hNext, hClient⟩
      | send | accept | handleHandshake | handleRead => exact hEffect.elim
  | @client k event client net hTaken hNet =>
      cases hNet
      refine ⟨?_, fun j => ?_⟩
      · simpa [Cluster.own, ServerState.set] using hOwn
      · by_cases hSame : j = k
        · subst hSame
          have hRead : isRead event = false := by
            cases event with
            | server outputs =>
                obtain ⟨hOn, -⟩ := Option.ite_none_right_eq_some.mp hTaken
                rw [cfg.client_only] at hOn
                cases hOn
            | signal | main | gpu | cpu | client => rfl
          simp only [Function.update_self]
          rw [Host.State.step_pushed_pushes hTaken]
          exact hR.step (hClient j) hDelivers hRead hTaken
        · simpa [Function.update_of_ne hSame] using hClient j
  | handler hHandler hNet hReads => exact ⟨own_of_reads hReads ▸ hOwn, hClient⟩
  | read hHandler hNet hReads hServes hTaken =>
      obtain ⟨-, -, hFinished, -⟩ :=
        Host.State.step_batches_frame (fun _ _ hEvent => by cases hEvent) hTaken
      refine ⟨?_, hClient⟩
      rw [own_of_reads hReads, hFinished]
      exact hOwn

theorem run_sourced (hR : Additive R) {memory : ℕ → TcpConnection}
    (hDelivers : Interleaving.Along (step cfg)
      (Delivers (fun startSeed outputs => R outputs (found startSeed))
        fun k startSeed outputs => R outputs (clientFound k startSeed)) (initial cfg memory) events)
    (hRun : run cfg (initial cfg memory) events = some s) : Sourced R found clientFound s := by
  have hStart : Sourced R found clientFound (initial cfg memory) := ⟨hR.nil, fun _ => hR.nil⟩
  exact Interleaving.run_invariant_along (Sourced R found clientFound)
    (fun _ _ _ hSourced hHere hStep => hSourced.step hR hHere hStep) hStart hDelivers hRun

theorem Delivers.imp {Q Q' : BitVec 64 → List GpuOutput → Prop}
    {clientQ clientQ' : ℕ → BitVec 64 → List GpuOutput → Prop}
    (hImp : ∀ startSeed outputs, Q startSeed outputs → Q' startSeed outputs)
    (hClient : ∀ k startSeed outputs, clientQ k startSeed outputs → clientQ' k startSeed outputs)
    (hDelivers : Delivers Q clientQ s event) : Delivers Q' clientQ' s event := by
  cases event with
  | server event =>
      exact fun i outputs startSeed hEvent hPc => hImp _ _ (hDelivers i outputs startSeed hEvent hPc)
  | client k event =>
      exact fun i outputs startSeed hEvent hPc =>
        hClient k _ _ (hDelivers i outputs startSeed hEvent hPc)
  | net event => trivial

theorem run_reached {memory : ℕ → TcpConnection}
    (hRun : run cfg (initial cfg memory) events = some s) : Reached cfg s :=
  Interleaving.run_invariant (Reached cfg) (fun _ _ _ hReached hStep => hReached.step hStep)
    ⟨⟨[], rfl⟩, fun _ => ⟨[], rfl⟩⟩ hRun

end Sources

/-- A line in the file of the server process: the CPU test keeps a candidate which the search
finds for a seed claimed by the server, or by a client of the same build. -/
theorem cluster_report_sound (F : Type) [Arith F] (gpuCfg : Commission.Config)
    (clientGpuCfg : ℕ → Commission.Config) (cfg : Cluster) (memory : ℕ → TcpConnection)
    (events : List Event) (s : State) (hRun : run cfg (initial cfg memory) events = some s)
    (hBatches : Interleaving.Along (step cfg)
      (Delivers (Host.State.FromBatch F gpuCfg) fun k => Host.State.FromBatch F (clientGpuCfg k))
      (initial cfg memory) events) :
    ∀ line ∈ s.server.outputFile,
      (∃ seed ∈ seedsFrom cfg.server.startSeed
          (s.server.claimed.length * KernelFilterSeeds.threadsPerRun),
        ∃ c ∈ Search.search F gpuCfg seed, cfg.server.process c.output = some line) ∨
      ∃ k, cfg.clientLarge k = cfg.serverLarge ∧
        ∃ seed ∈ seedsFrom (cfg.client k).startSeed
            ((s.clients k).claimed.length * KernelFilterSeeds.threadsPerRun),
          ∃ c ∈ Search.search F (clientGpuCfg k) seed, cfg.server.process c.output = some line := by
  intro line hLine
  have hInv := run_inv hRun
  obtain ⟨⟨serverEvents, hServer⟩, hClients⟩ := run_reached hRun
  have hSourced : Sourced (· ⊆ ·) (Host.State.batchOutputs F gpuCfg)
      (fun k => Host.State.batchOutputs F (clientGpuCfg k)) s :=
    run_sourced additive_subset (hBatches.imp fun _ _ => Delivers.imp (fun _ _ hFrom => hFrom.subset)
      fun _ _ _ hFrom => hFrom.subset) hRun
  obtain ⟨output, hPushed, hKept⟩ := Host.State.exists_pushed_of_outputFile hServer hLine
  rw [← hInv.pushes] at hPushed
  obtain ⟨⟨source, pushed⟩, hPush, rfl⟩ := List.mem_map.mp hPushed
  cases source with
  | none =>
      left
      have hOwn : pushed ∈ own s.net :=
        List.mem_map.mpr ⟨_, List.mem_filter.mpr ⟨hPush, by simp⟩, rfl⟩
      obtain ⟨seed, hSeed, c, hFound, rfl⟩ :=
        Host.State.exists_candidate_of_finished hServer (hSourced.own hOwn)
      exact ⟨seed, hSeed, c, hFound, hKept⟩
  | some k =>
      right
      have hMem : pushed ∈ s.net.pushedBy k := by
        rw [ServerState.pushedBy]
        exact List.mem_map.mpr ⟨_, List.mem_filter.mpr ⟨hPush, by simp⟩, rfl⟩
      have hSame : cfg.clientLarge k = cfg.serverLarge := by
        by_contra hOther
        rw [hInv.pushedBy_of_ne hOther] at hMem
        cases hMem
      obtain ⟨clientEvents, hClient⟩ := hClients k
      have hOfClient : pushed ∈ (s.clients k).pushed := (hInv.pushedBy_prefix_pushed k).subset hMem
      obtain ⟨seed, hSeed, c, hFound, rfl⟩ :=
        Host.State.exists_candidate_of_finished hClient (hSourced.client k hOfClient)
      exact ⟨k, hSame, seed, hSeed, c, hFound, hKept⟩

section Complete

/-- Records sorted by their source. -/
theorem perm_by_source {α : Type} {n : ℕ} {pushes : List (Option ℕ × α)}
    (hSources : ∀ push ∈ pushes, ∀ k, push.1 = some k → k < n) :
    (pushes.map Prod.snd).Perm (((pushes.filter fun push => push.1 = none).map Prod.snd) ++
      (List.range n).flatMap fun k => (pushes.filter fun push => push.1 = some k).map Prod.snd) := by
  induction n generalizing pushes with
  | zero =>
      have hOwn : (pushes.filter fun push => push.1 = none) = pushes := by
        refine List.filter_eq_self.mpr fun push hPush => ?_
        cases hSource : push.1 with
        | none => rfl
        | some k => exact absurd (hSources push hPush k hSource) k.not_lt_zero
      rw [hOwn, List.range_zero, List.flatMap_nil, List.append_nil]
  | succ n ih =>
      let rest := pushes.filter fun push => !decide (push.1 = some n)
      have hSplit : ((pushes.filter fun push => push.1 = some n) ++ rest).Perm pushes :=
        List.filter_append_perm _ _
      have hFewer : ∀ push ∈ rest, ∀ k, push.1 = some k → k < n := by
        intro push hPush k hSource
        obtain ⟨hMem, hOther⟩ := List.mem_filter.mp hPush
        have hBound := hSources push hMem k hSource
        have hNe : k ≠ n := by
          rintro rfl
          simp [hSource] at hOther
        omega
      have hRest := ih hFewer
      have hOwn : (rest.filter fun push => push.1 = none) =
          pushes.filter fun push => push.1 = none := by
        simp only [rest, List.filter_filter]
        congr 1
        funext push
        cases push.1 <;> simp
      have hEach : ((List.range n).flatMap fun k => (rest.filter fun push => push.1 = some k).map
          Prod.snd) = (List.range n).flatMap fun k =>
            (pushes.filter fun push => push.1 = some k).map Prod.snd := by
        refine List.flatMap_congr fun k hMem => ?_
        have hNe : k ≠ n := (List.mem_range.mp hMem).ne
        simp only [rest, List.filter_filter]
        congr 2
        funext push
        by_cases hSource : push.1 = some k <;> simp [hSource, hNe]
      rw [hOwn, hEach] at hRest
      rw [List.range_succ, List.flatMap_append, List.flatMap_singleton, ← List.append_assoc]
      refine (hSplit.symm.map Prod.snd).trans ?_
      rw [List.map_append]
      exact List.perm_append_comm.trans (hRest.append_right _)

variable {F : Type} [Arith F]

/-- The lines for the candidates which the search finds in the first batches from a start seed
on and which the CPU test keeps. -/
def keptLines (F : Type) [Arith F] (gpuCfg : Commission.Config)
    (process : GpuOutput → Option CpuOutput) (startSeed : BitVec 64) (batches : ℕ) :
    List CpuOutput :=
  (seedsFrom startSeed (batches * KernelFilterSeeds.threadsPerRun)).flatMap fun seed =>
    (Search.search F gpuCfg seed).filterMap fun c => process c.output

/-- The outputs of all finished batches, once they are all finished. -/
theorem finished_keptLines {gpuCfg : Commission.Config} {process : GpuOutput → Option CpuOutput}
    {cfg : Config} {events : List Host.Event} {s : Host.State}
    (hRun : Host.State.run cfg (Host.State.initial cfg) events = some s)
    (hReturned : s.main = .returned) :
    ((s.finished.flatMap (Host.State.batchOutputs F gpuCfg)).filterMap process).Perm
      (keptLines F gpuCfg process cfg.startSeed s.claimed.length) := by
  have hClaimed := (Host.State.finished_perm_claimed hRun (by rw [hReturned]; trivial)).flatMap_right
    (Host.State.batchOutputs F gpuCfg)
  rw [Host.State.claimed_batchOutputs hRun] at hClaimed
  have hAll := hClaimed.filterMap process
  simp only [List.filterMap_map, List.filterMap_flatMap] at hAll ⊢
  exact hAll

/-- The lines of a process which has returned, from what was pushed to its queue. -/
theorem outputFile_of_pushed {cfg : Config} {events : List Host.Event} {s : Host.State}
    (hCpus : cfg.cpus ≠ 0) (hRun : Host.State.run cfg (Host.State.initial cfg) events = some s)
    (hReturned : s.main = .returned) (hDrained : s.gpuOutputs = []) :
    s.outputFile.Perm (s.pushed.filterMap cfg.process) := by
  have hPushed := Host.State.pushed_eq_of_returned hCpus hRun hReturned
  rw [hDrained, Multiset.coe_nil, add_zero] at hPushed
  obtain ⟨tagged, hLines, hTagged, -⟩ := Host.State.outputFile_of_returned hRun hReturned
  have hFile : s.outputFile.Perm (s.produced.map Prod.snd) := by
    rw [← hLines]
    exact hTagged.map _
  rw [Host.State.run_produced hRun] at hFile
  exact hFile.trans ((Multiset.coe_eq_coe.mp hPushed).symm.filterMap _)

/-- What a client process which has returned has found is sent. -/
theorem Inv.sent_of_returned (hInv : Inv cfg s) (hReached : Reached cfg s) {k : ℕ}
    (hReturned : (s.clients k).main = .returned) (hDrained : (s.clients k).gpuOutputs = []) :
    (s.clients k).sent = (s.clients k).pushed := by
  obtain ⟨clientEvents, hClient⟩ := hReached.2 k
  have hExited : (s.clients k).client.pc = .exited :=
    Host.State.clientExited_of_returned (cfg.client_on k) hClient hReturned
  have hOrder := (hInv.order k).1
  rw [Host.State.InOrder, hExited, hDrained] at hOrder
  rw [hOrder]
  simp [ClientPc.pendingData]

/-- A server process which returns with its queue drained, after its clients have returned
and all their bytes have arrived, has written one line for every candidate which the search
finds in the seeds claimed by it and its clients and which the CPU test keeps, and no others. -/
theorem cluster_report_complete (F : Type) [Arith F] (gpuCfg : Commission.Config)
    (clientGpuCfg : ℕ → Commission.Config) (cfg : Cluster) (memory : ℕ → TcpConnection)
    (events : List Event) (s : State) (n : ℕ) (hRun : run cfg (initial cfg memory) events = some s)
    (hCpus : cfg.server.cpus ≠ 0) (hReturned : s.server.main = .returned)
    (hDrained : s.server.gpuOutputs = [])
    (hClients : ∀ k < n, cfg.clientLarge k = cfg.serverLarge ∧ (s.clients k).main = .returned ∧
      (s.clients k).gpuOutputs = [] ∧ (s.net.sockets k).inFlight = [])
    (hOthers : ∀ k, n ≤ k → (s.clients k).pushed = [])
    (hBatches : Interleaving.Along (step cfg)
      (Delivers (Host.State.FromOrderedBatch F gpuCfg) fun k =>
        Host.State.FromOrderedBatch F (clientGpuCfg k)) (initial cfg memory) events) :
    s.server.outputFile.Perm
      (keptLines F gpuCfg cfg.server.process cfg.server.startSeed s.server.claimed.length ++
        (List.range n).flatMap fun k =>
          keptLines F (clientGpuCfg k) cfg.server.process (cfg.client k).startSeed
            (s.clients k).claimed.length) := by
  have hInv := run_inv hRun
  have hReached := run_reached hRun
  obtain ⟨serverEvents, hServer⟩ := hReached.1
  have hSourced : Sourced List.Perm (Host.State.batchOutputs F gpuCfg)
      (fun k => Host.State.batchOutputs F (clientGpuCfg k)) s :=
    run_sourced additive_perm (hBatches.imp fun _ _ => Delivers.imp (fun _ _ hFrom => hFrom.perm)
      fun _ _ _ hFrom => hFrom.perm) hRun
  have hSources : ∀ push ∈ s.net.pushes, ∀ k, push.1 = some k → k < n := by
    intro push hPush k hSource
    by_contra hFar
    have hMem : push.2 ∈ s.net.pushedBy k :=
      List.mem_map.mpr ⟨push, List.mem_filter.mpr ⟨hPush, by simpa using hSource⟩, rfl⟩
    have hPushed := (hInv.pushedBy_prefix_pushed k).subset hMem
    rw [hOthers k (not_lt.mp hFar)] at hPushed
    cases hPushed
  have hClient : ∀ k ∈ List.range n, ((s.net.pushedBy k).filterMap cfg.server.process).Perm
      (keptLines F (clientGpuCfg k) cfg.server.process (cfg.client k).startSeed
        (s.clients k).claimed.length) := by
    intro k hMem
    obtain ⟨hSame, hGone, hEmpty, hArrived⟩ := hClients k (List.mem_range.mp hMem)
    obtain ⟨clientEvents, hTaken⟩ := hReached.2 k
    rw [hInv.pushedBy_of_arrived hSame hArrived, hInv.sent_of_returned hReached hGone hEmpty]
    exact ((hSourced.client k).filterMap _).trans (finished_keptLines hTaken hGone)
  have hPushed := (perm_by_source hSources).filterMap cfg.server.process
  rw [hInv.pushes, List.filterMap_append, List.filterMap_flatMap] at hPushed
  refine (outputFile_of_pushed hCpus hServer hReturned hDrained).trans (hPushed.trans (.append ?_ ?_))
  · exact (hSourced.own.filterMap _).trans (finished_keptLines hServer hReturned)
  · exact List.Perm.flatMap_left _ hClient

end Complete

end Commission.Host.Cluster
