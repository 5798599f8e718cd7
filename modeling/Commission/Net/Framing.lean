import Commission.Net.Connection
import Mathlib.Data.List.Infix

/-! Framing of the records between `ClientThread` and the server, for every way
the byte streams are cut into reads. -/
namespace Commission

open RecordStream

/-- The records in the complete blocks of a byte stream. -/
def decodeAll (layout : Layout) (bytes : List UInt8) : List GpuOutput :=
  (blocks sizeofGpuOutput bytes).map layout.decode

theorem sizeofGpuOutput_pos : 0 < sizeofGpuOutput := by decide

section Layout

variable (layout : Layout)

theorem decodeAll_append (bytes more : List UInt8) :
    decodeAll layout (bytes ++ more) =
      decodeAll layout bytes ++ decodeAll layout (remainder sizeofGpuOutput bytes ++ more) := by
  rw [decodeAll, blocks_append sizeofGpuOutput_pos, List.map_append, decodeAll, decodeAll]

theorem decodeAll_nil : decodeAll layout [] = [] := rfl

theorem blocks_flatMap_encode (records : List GpuOutput) :
    blocks sizeofGpuOutput (records.flatMap layout.encode) = records.map layout.encode := by
  rw [List.flatMap]
  apply blocks_flatten sizeofGpuOutput_pos _
  intro record hRecord
  obtain ⟨output, -, rfl⟩ := List.mem_map.mp hRecord
  exact layout.encode_length output

/-- A prefix of encoded records decodes to those which it holds completely. -/
theorem decodeAll_of_prefix {bytes : List UInt8} {records : List GpuOutput}
    (hPrefix : bytes <+: records.flatMap layout.encode) :
    decodeAll layout bytes = records.take (bytes.length / sizeofGpuOutput) := by
  rw [decodeAll, blocks_prefix sizeofGpuOutput_pos hPrefix, blocks_flatMap_encode,
    ← List.map_take, List.map_map]
  have hId : layout.decode ∘ layout.encode = id := by
    funext output
    exact layout.decode_encode output
  rw [hId, List.map_id]

/-- Passes which found nothing write nothing, and every other pass writes all it
found. -/
theorem ClientThread.loop_flatten (pendingData : List GpuOutput) (drains : List (List GpuOutput))
    (hPending : pendingData = []) :
    (ClientThread.loop layout pendingData drains).flatten =
      drains.flatten.flatMap layout.encode := by
  induction drains generalizing pendingData with
  | nil => rfl
  | cons drained rest ih =>
      subst hPending
      simp only [ClientThread.loop, List.nil_append]
      split
      · next hEmpty =>
          rw [ih drained (List.isEmpty_iff.mp hEmpty), List.isEmpty_iff.mp hEmpty]
          rfl
      · rw [List.flatten_cons, ih [] rfl, List.flatten_cons, List.flatMap_append]

theorem ClientThread.writes_flatten (large : Bool) (drains : List (List GpuOutput)) :
    (ClientThread.writes layout large drains).flatten =
      netHandshake large ++ drains.flatten.flatMap layout.encode := by
  rw [ClientThread.writes, List.flatten_cons, ClientThread.loop_flatten layout [] drains rfl]

end Layout

namespace TcpConnection

variable (layout : Layout) (large : Bool)

theorem load_block (data : ℕ → UInt8) {i : ℕ} (length : ℕ) (hBlock : i * 16 + 16 ≤ length) :
    load data (i * 16) 16 = ((load data 0 length).drop (i * 16)).take 16 := by
  obtain ⟨more, rfl⟩ := Nat.exists_eq_add_of_le hBlock
  rw [Nat.add_assoc, drop_load, take_load, Nat.zero_add]

/-- What `handle_read` does to the used part of the array: the complete records
are pushed and the remainder is moved to the front. -/
theorem handleRead_spec (conn : TcpConnection) (bytesTransferred : ℕ) {pending : List UInt8}
    (hPending : load conn.pendingData 0 (conn.pendingDataLen + bytesTransferred) = pending) :
    (conn.handleRead layout bytesTransferred).2 = decodeAll layout pending ∧
      load (conn.handleRead layout bytesTransferred).1.pendingData 0
          (conn.handleRead layout bytesTransferred).1.pendingDataLen =
        remainder sizeofGpuOutput pending ∧
      (conn.handleRead layout bytesTransferred).1.phase = .read := by
  have hLength : pending.length = conn.pendingDataLen + bytesTransferred := by
    rw [← hPending, load_length]
  simp only [handleRead]
  split
  · refine ⟨?_, ?_, rfl⟩
    · rw [decodeAll, blocks, List.map_map, hLength]
      apply List.map_congr_left
      intro i hi
      have hSucc := Nat.mul_le_mul_right 16 (Nat.succ_le_of_lt (List.mem_range.mp hi))
      have hFits := Nat.div_mul_le_self (conn.pendingDataLen + bytesTransferred) 16
      rw [recordAt, Function.comp_apply, ← hPending]
      simp only [sizeofGpuOutput] at hSucc ⊢
      rw [load_block conn.pendingData (conn.pendingDataLen + bytesTransferred) (by omega)]
    · have hKept := Nat.div_mul_le_self (conn.pendingDataLen + bytesTransferred) sizeofGpuOutput
      obtain ⟨kept, hSplit⟩ := Nat.exists_eq_add_of_le hKept
      simp only [startRead]
      rw [remainder, hLength, ← hPending]
      generalize (conn.pendingDataLen + bytesTransferred) / sizeofGpuOutput * sizeofGpuOutput =
        used at hSplit ⊢
      rw [hSplit, Nat.add_sub_cancel_left, drop_load, Nat.zero_add]
      have hMoved := load_store conn.pendingData 0 (load conn.pendingData used kept)
      rwa [load_length] at hMoved
  · next hShort =>
      have hLt : pending.length < sizeofGpuOutput := by omega
      refine ⟨?_, ?_, rfl⟩
      · rw [decodeAll, blocks_of_length_lt hLt, List.map_nil]
      · rw [remainder_of_length_lt hLt]
        exact hPending

/-- The state of one connection: the outputs it has pushed are those of its
socket's stream, and the array holds the bytes after the last of them. -/
structure Framed (conn : TcpConnection) (socket : Socket) (outputs : List GpuOutput) : Prop where
  decoded : outputs = decodeAll layout (socket.received.drop 16)
  authentic : outputs ≠ [] → socket.received.take 16 = netHandshake large
  untouched : conn.phase = .accepting ∨ conn.phase = .handshake →
    socket.received = [] ∧ conn.pendingDataLen = 0
  pending : conn.phase = .read →
    load conn.pendingData 0 conn.pendingDataLen =
      remainder sizeofGpuOutput (socket.received.drop 16)
  accepted : conn.phase = .read →
    socket.received.take 16 = netHandshake large ∨ socket.failed = true
  started : socket.failed = true → conn.phase = .read ∨ conn.phase = .closed

variable {layout large} {conn : TcpConnection} {socket : Socket} {outputs : List GpuOutput}

/-- More bytes on the way change nothing for the receiver. -/
theorem Framed.send (hFramed : Framed layout large conn socket outputs) (bytes : List UInt8) :
    Framed layout large conn { socket with inFlight := socket.inFlight ++ bytes } outputs :=
  ⟨hFramed.decoded, hFramed.authentic, hFramed.untouched, hFramed.pending, hFramed.accepted,
    hFramed.started⟩

theorem Framed.start (hFramed : Framed layout large conn socket outputs)
    (hPhase : conn.phase = .accepting) (handshake pendingData : ℕ → UInt8) :
    Framed layout large (conn.start handshake pendingData) socket outputs where
  decoded := hFramed.decoded
  authentic := hFramed.authentic
  untouched _ := hFramed.untouched (.inl hPhase)
  pending hRead := by cases hRead
  accepted hRead := by cases hRead
  started hFailed := by
    rcases hFramed.started hFailed with hRead | hClosed
    · rw [hPhase] at hRead
      cases hRead
    · rw [hPhase] at hClosed
      cases hClosed

/-- No byte after the handshake has arrived when `handle_handshake` runs. Without
an error the array holds the first 16 bytes; with one its content is unknown,
but no later read succeeds. -/
theorem Framed.handleHandshake (hFramed : Framed layout large conn socket outputs)
    (hPhase : conn.phase = .handshake) {bytesTransferred : ℕ} {error : Bool}
    (hAvailable : bytesTransferred ≤ socket.inFlight.length)
    (hCount : if error then bytesTransferred < 16 else bytesTransferred = 16) :
    Framed layout large
      (TcpConnection.handleHandshake large { conn with
        handshake := store conn.handshake 0 (socket.inFlight.take bytesTransferred) })
      (socket.deliver bytesTransferred error) outputs := by
  obtain ⟨hReceived, hLen⟩ := hFramed.untouched (.inr hPhase)
  have hShort : bytesTransferred ≤ 16 := by split at hCount <;> omega
  have hDelivered : (socket.deliver bytesTransferred error).received =
      socket.inFlight.take bytesTransferred := by
    rw [Socket.deliver, hReceived, List.nil_append]
  have hRest : (socket.deliver bytesTransferred error).received.drop 16 = [] := by
    rw [hDelivered, List.drop_eq_nil_iff, List.length_take]
    omega
  have hOutputs : outputs = [] := by
    rw [hFramed.decoded, hReceived]
    rfl
  have hFilled : error = false →
      load (store conn.handshake 0 (socket.inFlight.take bytesTransferred)) 0 16 =
        (socket.deliver bytesTransferred error).received.take 16 := by
    intro hError
    rw [hError, if_neg Bool.false_ne_true] at hCount
    have hTaken : (socket.inFlight.take bytesTransferred).length = 16 := by
      rw [List.length_take]
      omega
    have hLoad := load_store conn.handshake 0 (socket.inFlight.take bytesTransferred)
    rw [hTaken] at hLoad
    rw [hLoad, hDelivered, List.take_of_length_le hTaken.le]
  have hDecoded : outputs =
      decodeAll layout ((socket.deliver bytesTransferred error).received.drop 16) := by
    rw [hRest, hOutputs]
    rfl
  simp only [TcpConnection.handleHandshake]
  split
  · exact ⟨hDecoded, fun hNe => absurd hOutputs hNe, by simp, by simp, by simp, fun _ => .inr rfl⟩
  · next hMatch =>
      refine ⟨hDecoded, fun hNe => absurd hOutputs hNe, by simp [startRead], fun _ => ?_,
        fun _ => ?_, fun _ => .inl rfl⟩
      · simp only [startRead, hLen]
        rw [hRest]
        rfl
      · cases error with
        | false => exact .inl ((hFilled rfl).symm.trans (not_not.mp hMatch))
        | true => exact .inr rfl

theorem Framed.fail (hFramed : Framed layout large conn socket outputs) :
    Framed layout large { conn with phase := .closed } (socket.deliver 0 true) outputs := by
  have hReceived : (socket.deliver 0 true).received = socket.received := by
    rw [Socket.deliver, List.take_zero, List.append_nil]
  refine ⟨?_, ?_, by simp, by simp, by simp, fun _ => .inr rfl⟩
  · rw [hReceived]
    exact hFramed.decoded
  · rw [hReceived]
    exact hFramed.authentic

/-- A read which succeeds appends its bytes to the pending ones, and the pushes
of `handle_read` are the records completed by them. -/
theorem Framed.handleRead (hFramed : Framed layout large conn socket outputs)
    (hPhase : conn.phase = .read) (hFailed : socket.failed = false) {bytesTransferred : ℕ}
    (hAvailable : bytesTransferred ≤ socket.inFlight.length) :
    Framed layout large
      (TcpConnection.handleRead layout { conn with
        pendingData := store conn.pendingData conn.pendingDataLen
          (socket.inFlight.take bytesTransferred) } bytesTransferred).1
      (socket.deliver bytesTransferred false)
      (outputs ++ (TcpConnection.handleRead layout { conn with
        pendingData := store conn.pendingData conn.pendingDataLen
          (socket.inFlight.take bytesTransferred) } bytesTransferred).2) := by
  have hHandshake : socket.received.take 16 = netHandshake large := by
    rcases hFramed.accepted hPhase with hTake | hFail
    · exact hTake
    · rw [hFailed] at hFail
      cases hFail
  have hLong : 16 ≤ socket.received.length := by
    have hLength := congrArg List.length hHandshake
    rw [List.length_take, netHandshake_length] at hLength
    omega
  have hDrop : (socket.deliver bytesTransferred false).received.drop 16 =
      socket.received.drop 16 ++ socket.inFlight.take bytesTransferred := by
    rw [Socket.deliver, List.drop_append_of_le_length hLong]
  have hTake : (socket.deliver bytesTransferred false).received.take 16 = netHandshake large := by
    rw [Socket.deliver, List.take_append_of_le_length hLong, hHandshake]
  have hAppend := load_store_append conn.pendingData conn.pendingDataLen
    (socket.inFlight.take bytesTransferred)
  rw [List.length_take_of_le hAvailable, hFramed.pending hPhase] at hAppend
  obtain ⟨hPushed, hKept, hReading⟩ := handleRead_spec layout { conn with
    pendingData := store conn.pendingData conn.pendingDataLen
      (socket.inFlight.take bytesTransferred) } bytesTransferred hAppend
  refine ⟨?_, fun _ => hTake, ?_, fun _ => ?_, fun _ => .inl hTake, fun _ => .inl hReading⟩
  · rw [hDrop, decodeAll_append, hPushed, ← hFramed.decoded]
  · rw [hReading]
    simp
  · rw [hKept, hDrop]
    exact (remainder_append sizeofGpuOutput_pos _ _).symm

end TcpConnection

namespace ServerState

variable {layout : Layout} {large : Bool}

/-- Every connection is framed, and the queue holds the pushes of all of them
which were not popped yet. -/
structure Inv (layout : Layout) (large : Bool) (s : ServerState) : Prop where
  framed : ∀ id, TcpConnection.Framed layout large (s.connections id) (s.sockets id) (s.pushedBy id)
  queued : s.popped ++ s.queue = s.pushes.map Prod.snd

theorem pushedBy_set (s : ServerState) (id : ℕ) (conn : TcpConnection) (socket : Socket)
    (outputs : List GpuOutput) :
    (s.set id conn socket outputs).pushedBy id = s.pushedBy id ++ outputs := by
  simp only [pushedBy, set, List.filter_append, List.map_append]
  congr 1
  rw [List.filter_eq_self.mpr, List.map_map]
  · exact List.map_id outputs
  · intro push hPush
    obtain ⟨output, -, rfl⟩ := List.mem_map.mp hPush
    simp

/-- Pushes of anyone else are not pushes of the connection. -/
theorem filter_pushes_of_ne {source : Option ℕ} {id : ℕ} (hSource : source ≠ some id)
    (outputs : List GpuOutput) :
    (outputs.map fun output => (source, output)).filter (fun push => push.1 = some id) = [] := by
  rw [List.filter_eq_nil_iff]
  intro push hPush
  obtain ⟨output, -, rfl⟩ := List.mem_map.mp hPush
  simpa using hSource

theorem pushedBy_set_of_ne (s : ServerState) {id other : ℕ} (hOther : other ≠ id)
    (conn : TcpConnection) (socket : Socket) (outputs : List GpuOutput) :
    (s.set id conn socket outputs).pushedBy other = s.pushedBy other := by
  have hSource : some id ≠ some other := fun hEq => hOther (Option.some.inj hEq).symm
  simp only [pushedBy, set, List.filter_append]
  rw [filter_pushes_of_ne hSource outputs, List.append_nil]

/-- An event of one connection leaves all others alone. -/
theorem Inv.set {s : ServerState} (hInv : Inv layout large s) {id : ℕ} {conn : TcpConnection}
    {socket : Socket} {outputs : List GpuOutput}
    (hFramed : TcpConnection.Framed layout large conn socket (s.pushedBy id ++ outputs)) :
    Inv layout large (s.set id conn socket outputs) where
  framed other := by
    by_cases hOther : other = id
    · subst hOther
      rw [pushedBy_set]
      simpa only [ServerState.set, Function.update_self] using hFramed
    · rw [pushedBy_set_of_ne s hOther]
      simpa only [ServerState.set, Function.update_of_ne hOther] using hInv.framed other
  queued := by
    simp only [ServerState.set, List.map_append, List.map_map, ← List.append_assoc, hInv.queued]
    congr 1
    exact (List.map_id outputs).symm

theorem inv_initial (memory : ℕ → TcpConnection) : Inv layout large (initial memory) where
  framed id := ⟨(decodeAll_nil layout).symm, fun hNe => absurd rfl hNe, fun _ => ⟨rfl, rfl⟩,
    by simp [initial], by simp [initial], by simp [initial]⟩
  queued := rfl

theorem Inv.step {s s' : ServerState} (hInv : Inv layout large s) {event : Event}
    (hStep : s.step layout large event = some s') : Inv layout large s' := by
  cases event with
  | send id bytes =>
      cases hStep
      apply hInv.set
      rw [List.append_nil]
      exact (hInv.framed id).send bytes
  | accept id handshake pendingData =>
      simp only [ServerState.step, Option.ite_none_right_eq_some, Option.some.injEq] at hStep
      obtain ⟨hPhase, rfl⟩ := hStep
      apply hInv.set
      rw [List.append_nil]
      exact (hInv.framed id).start hPhase handshake pendingData
  | handleHandshake id bytesTransferred error =>
      simp only [ServerState.step, Option.ite_none_right_eq_some, Option.some.injEq] at hStep
      obtain ⟨⟨hPhase, hAvailable, hCount⟩, rfl⟩ := hStep
      apply hInv.set
      rw [List.append_nil]
      exact (hInv.framed id).handleHandshake hPhase hAvailable hCount
  | handleRead id bytesTransferred error =>
      simp only [ServerState.step, Option.ite_none_right_eq_some] at hStep
      obtain ⟨hPhase, hStep⟩ := hStep
      cases error with
      | true =>
          cases hStep
          apply hInv.set
          rw [List.append_nil]
          exact (hInv.framed id).fail
      | false =>
          simp only [Bool.false_eq_true, if_false, Option.ite_none_right_eq_some,
            Option.some.injEq] at hStep
          obtain ⟨⟨hFailed, -, -, hAvailable⟩, rfl⟩ := hStep
          exact hInv.set ((hInv.framed id).handleRead hPhase (by simpa using hFailed) hAvailable)
  | push outputs =>
      cases hStep
      refine ⟨fun id => ?_, ?_⟩
      · have hPushed : (s.pushes ++ outputs.map fun output => (none, output)).filter
            (fun push => push.1 = some id) = s.pushes.filter fun push => push.1 = some id := by
          rw [List.filter_append, filter_pushes_of_ne (Option.some_ne_none id).symm outputs,
            List.append_nil]
        have hFramed := hInv.framed id
        rw [pushedBy, ← hPushed] at hFramed
        exact hFramed
      · simp only [List.map_append, List.map_map, ← List.append_assoc, hInv.queued]
        congr 1
        exact (List.map_id outputs).symm
  | pop =>
      simp only [ServerState.step] at hStep
      split at hStep
      · cases hStep
      · next output rest hQueue =>
          cases hStep
          refine ⟨hInv.framed, ?_⟩
          have hQueued := hInv.queued
          rw [hQueue] at hQueued
          simpa using hQueued

/-- The invariant holds along every run. -/
theorem Inv.run {s s' : ServerState} {events : List Event} (hInv : Inv layout large s)
    (hRun : s.run layout large events = some s') : Inv layout large s' :=
  Interleaving.run_invariant (Inv layout large) (fun _ _ _ hInv hStep => hInv.step hStep) hInv hRun

/-- No event delivers bytes from a socket which has failed. -/
theorem Inv.step_failed {s s' : ServerState} (hInv : Inv layout large s) {event : Event}
    (hStep : s.step layout large event = some s') {id : ℕ} (hFailed : (s.sockets id).failed = true) :
    (s'.sockets id).failed = true ∧ (s'.sockets id).received = (s.sockets id).received := by
  have hStarted := (hInv.framed id).started hFailed
  cases event with
  | send other bytes =>
      cases hStep
      by_cases hOther : id = other
      · subst hOther
        simpa [ServerState.set] using hFailed
      · simpa [ServerState.set, Function.update_of_ne hOther] using hFailed
  | accept other handshake pendingData =>
      simp only [ServerState.step, Option.ite_none_right_eq_some, Option.some.injEq] at hStep
      obtain ⟨-, rfl⟩ := hStep
      simpa [ServerState.set] using hFailed
  | handleHandshake other bytesTransferred error =>
      simp only [ServerState.step, Option.ite_none_right_eq_some, Option.some.injEq] at hStep
      obtain ⟨⟨hPhase, -, -⟩, rfl⟩ := hStep
      have hOther : id ≠ other := by
        rintro rfl
        rw [hPhase] at hStarted
        simp at hStarted
      simpa [ServerState.set, Function.update_of_ne hOther] using hFailed
  | handleRead other bytesTransferred error =>
      simp only [ServerState.step, Option.ite_none_right_eq_some] at hStep
      obtain ⟨hPhase, hStep⟩ := hStep
      cases error with
      | true =>
          cases hStep
          by_cases hOther : id = other
          · subst hOther
            simp [ServerState.set, Socket.deliver]
          · simpa [ServerState.set, Function.update_of_ne hOther] using hFailed
      | false =>
          simp only [Bool.false_eq_true, if_false, Option.ite_none_right_eq_some,
            Option.some.injEq] at hStep
          obtain ⟨⟨hAlive, -, -, -⟩, rfl⟩ := hStep
          have hOther : id ≠ other := by
            rintro rfl
            exact hAlive hFailed
          simpa [ServerState.set, Function.update_of_ne hOther] using hFailed
  | push outputs =>
      cases hStep
      exact ⟨hFailed, rfl⟩
  | pop =>
      simp only [ServerState.step] at hStep
      split at hStep
      · cases hStep
      · cases hStep
        exact ⟨hFailed, rfl⟩

theorem Inv.run_failed {s s' : ServerState} {events : List Event} (hInv : Inv layout large s)
    (hRun : s.run layout large events = some s') {id : ℕ} (hFailed : (s.sockets id).failed = true) :
    (s'.sockets id).received = (s.sockets id).received := by
  have hKept := Interleaving.run_invariant
    (fun t : ServerState => Inv layout large t ∧ (t.sockets id).failed = true ∧
      (t.sockets id).received = (s.sockets id).received)
    (fun t event t' hKept hStep => by
      obtain ⟨hInv, hFailed, hSame⟩ := hKept
      obtain ⟨hStill, hReceived⟩ := hInv.step_failed hStep hFailed
      exact ⟨hInv.step hStep, hStill, hReceived.trans hSame⟩)
    ⟨hInv, hFailed, rfl⟩ hRun
  exact hKept.2.2

theorem Inv.pushedBy_eq_nil {s : ServerState} (hInv : Inv layout large s) {id : ℕ}
    (hShort : (s.sockets id).received.length < 16) : s.pushedBy id = [] := by
  rw [(hInv.framed id).decoded, List.drop_of_length_le hShort.le]
  rfl

/-- Without the handshake in front of its stream a connection pushes nothing. -/
theorem Inv.pushedBy_of_sent_ne {s : ServerState} (hInv : Inv layout large s) {id : ℕ}
    (hBad : (s.sockets id).sent.take 16 ≠ netHandshake large) : s.pushedBy id = [] := by
  by_contra hNe
  have hTake := (hInv.framed id).authentic hNe
  have hLong : 16 ≤ (s.sockets id).received.length := by
    have hLength := congrArg List.length hTake
    rw [List.length_take, netHandshake_length] at hLength
    omega
  apply hBad
  rw [Socket.sent, List.take_append_of_le_length hLong, hTake]

theorem Inv.pendingDataLen_lt {s : ServerState} (hInv : Inv layout large s) {id : ℕ}
    (hPhase : (s.connections id).phase = .read) : (s.connections id).pendingDataLen < 16 := by
  have hPending := congrArg List.length ((hInv.framed id).pending hPhase)
  rw [load_length] at hPending
  rw [hPending]
  exact remainder_length_lt sizeofGpuOutput_pos _

theorem Inv.pushedBy_sublist {s : ServerState} (hInv : Inv layout large s) (id : ℕ) :
    (s.pushedBy id).Sublist (s.popped ++ s.queue) := by
  rw [hInv.queued, pushedBy]
  exact List.filter_sublist.map Prod.snd

/-- A connection to a `ClientThread` has pushed the records drained there, up to
the last one received completely. -/
theorem Inv.pushedBy_client {s : ServerState} (hInv : Inv layout large s) {id : ℕ}
    {drains : List (List GpuOutput)}
    (hSent : (s.sockets id).sent <+: (ClientThread.writes layout large drains).flatten) :
    s.pushedBy id = drains.flatten.take (((s.sockets id).received.length - 16) / 16) := by
  rw [ClientThread.writes_flatten] at hSent
  have hReceived : (s.sockets id).received <+:
      netHandshake large ++ drains.flatten.flatMap layout.encode :=
    (List.prefix_append _ _).trans hSent
  have hRecords : (s.sockets id).received.drop 16 <+: drains.flatten.flatMap layout.encode := by
    have hDrop := hReceived.drop 16
    rwa [List.drop_left' (netHandshake_length large)] at hDrop
  rw [(hInv.framed id).decoded, decodeAll_of_prefix layout hRecords, List.length_drop]
  rfl

/-- In every state which a server reaches, for every connection and however the
streams were cut: the pushed records are the decoding of the complete ones
received after the handshake; the pending bytes are fewer than a record
whenever a read is started; a stream without the handshake, or one which ended
before it was complete, contributes nothing then or later; the records are a
subsequence of everything pushed to the queue; and those of a `ClientThread`
come in the order in which it drained them, none lost and none twice. -/
theorem framing_correct (layout : Layout) (large : Bool) (memory : ℕ → TcpConnection)
    (events : List Event) (s : ServerState)
    (hRun : (initial memory).run layout large events = some s) (id : ℕ) :
    s.pushedBy id = decodeAll layout ((s.sockets id).received.drop 16) ∧
      ((s.connections id).phase = .read →
        (s.connections id).pendingDataLen < 16 ∧ 0 < (s.connections id).offered) ∧
      ((s.sockets id).sent.take 16 ≠ netHandshake large → s.pushedBy id = []) ∧
      ((s.sockets id).failed = true → (s.sockets id).received.length < 16 →
        ∀ later s', s.run layout large later = some s' → s'.pushedBy id = []) ∧
      (s.pushedBy id).Sublist (s.popped ++ s.queue) ∧
      ∀ drains, (s.sockets id).sent <+: (ClientThread.writes layout large drains).flatten →
        s.pushedBy id = drains.flatten.take (((s.sockets id).received.length - 16) / 16) := by
  have hInv : Inv layout large s := (inv_initial memory).run hRun
  refine ⟨(hInv.framed id).decoded, fun hPhase => ?_, hInv.pushedBy_of_sent_ne, ?_,
    hInv.pushedBy_sublist id, fun drains hSent => hInv.pushedBy_client hSent⟩
  · have hLt := hInv.pendingDataLen_lt hPhase
    refine ⟨hLt, ?_⟩
    rw [TcpConnection.offered, TcpConnection.sizeofPendingData]
    omega
  · intro hFailed hShort later s' hLater
    have hSame := hInv.run_failed hLater hFailed
    apply (hInv.run hLater).pushedBy_eq_nil
    rwa [hSame]

/-- One record which arrives in two reads. -/
def splitRecordEvents : List Event :=
  [.send 0 (netHandshake false), .accept 0 (fun _ => 0) (fun _ => 0), .handleHandshake 0 16 false,
    .send 0 (Layout.littleEndian.encode ⟨1, 2, 3⟩), .handleRead 0 5 false, .handleRead 0 11 false]

theorem framing_correct_splitRecord :
    ∃ s, (initial fun _ => ⟨.accepting, fun _ => 0, fun _ => 0, 0⟩).run Layout.littleEndian false
        splitRecordEvents = some s ∧
      s.pushedBy 0 = decodeAll Layout.littleEndian ((s.sockets 0).received.drop 16) := by
  have hRuns : ((initial fun _ => ⟨.accepting, fun _ => 0, fun _ => 0, 0⟩).run Layout.littleEndian
      false splitRecordEvents).isSome := by
    decide +kernel
  obtain ⟨s, hRun⟩ := Option.isSome_iff_exists.mp hRuns
  exact ⟨s, hRun, (framing_correct Layout.littleEndian false _ splitRecordEvents s hRun 0).1⟩

end ServerState

end Commission
