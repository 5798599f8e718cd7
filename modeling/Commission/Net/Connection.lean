import Commission.Common
import Commission.Library.RecordStream
import Commission.Library.Interleaving

/-! The two ends of the network protocol: what `ClientThread` writes, and the
connections of the server with the sockets they read from. -/
namespace Commission

open RecordStream

def sizeofGpuOutput : ℕ := 16

/-- A memory layout of `GpuOutput`, the same at both ends. -/
structure Layout where
  encode : GpuOutput → List UInt8
  decode : List UInt8 → GpuOutput
  encode_length : ∀ output, (encode output).length = sizeofGpuOutput
  decode_encode : ∀ output, decode (encode output) = output

/-- The low `width` bytes of a number, the lowest first. -/
def leBytes (width n : ℕ) : List UInt8 :=
  (List.range width).map fun i => UInt8.ofNat (n / 256 ^ i)

def ofLeBytes (bytes : List UInt8) : ℕ :=
  bytes.foldr (fun byte value => byte.toNat + 256 * value) 0

theorem ofLeBytes_leBytes (width n : ℕ) : ofLeBytes (leBytes width n) = n % 256 ^ width := by
  induction width generalizing n with
  | zero => simp [leBytes, ofLeBytes, Nat.mod_one]
  | succ width ih =>
      have hTail : leBytes (width + 1) n = UInt8.ofNat n :: leBytes width (n / 256) := by
        simp only [leBytes, List.range_succ_eq_map, List.map_cons, List.map_map, pow_zero,
          Nat.div_one, List.cons.injEq, true_and]
        apply List.map_congr_left
        intro i _
        rw [Function.comp_apply, pow_succ', Nat.div_div_eq_div_mul]
      rw [hTail, ofLeBytes, List.foldr_cons, ← ofLeBytes, ih, pow_succ', Nat.mod_mul]
      simp

theorem ofNat_ofLeBytes (width : ℕ) (word : BitVec (8 * width)) :
    BitVec.ofNat (8 * width) (ofLeBytes (leBytes width word.toNat)) = word := by
  have hLt : word.toNat < 256 ^ width := by
    rw [(by norm_num : 256 = 2 ^ 8), ← pow_mul]
    exact word.isLt
  rw [ofLeBytes_leBytes, Nat.mod_eq_of_lt hLt, BitVec.ofNat_toNat, BitVec.setWidth_eq]

/-- The layout of the supported platforms: `seed`, `x` and `z` without padding,
each with its lowest byte first. -/
def Layout.littleEndian : Layout where
  encode output :=
    leBytes 8 output.seed.toNat ++ leBytes 4 output.x.toNat ++ leBytes 4 output.z.toNat
  decode bytes :=
    ⟨BitVec.ofNat 64 (ofLeBytes (bytes.take 8)), BitVec.ofNat 32 (ofLeBytes ((bytes.drop 8).take 4)),
      BitVec.ofNat 32 (ofLeBytes ((bytes.drop 12).take 4))⟩
  encode_length _ := by simp [leBytes, sizeofGpuOutput]
  decode_encode output := by
    have hSeed : (leBytes 8 output.seed.toNat).length = 8 := by simp [leBytes]
    have hX : (leBytes 4 output.x.toNat).length = 4 := by simp [leBytes]
    have hZ : (leBytes 4 output.z.toNat).length = 4 := by simp [leBytes]
    have hFront : (leBytes 8 output.seed.toNat ++ leBytes 4 output.x.toNat).length = 12 := by
      rw [List.length_append, hSeed, hX]
    rw [List.drop_left' hFront, List.take_of_length_le hZ.le, List.append_assoc,
      List.take_left' hSeed, List.drop_left' hSeed, List.take_left' hX]
    exact congr (congrArg₂ GpuOutput.mk (ofNat_ofLeBytes 8 output.seed)
      (ofNat_ofLeBytes 4 output.x)) (ofNat_ofLeBytes 4 output.z)

namespace ClientThread

variable (layout : Layout) (large : Bool)

/-- The loop of `ClientThread::run`. Each element of the list is what one pass
found in the queue; the result is the calls of `asio::write`. -/
def loop (pendingData : List GpuOutput) : List (List GpuOutput) → List (List UInt8)
  | [] => []
  | drained :: rest =>
      let pendingData := pendingData ++ drained
      if pendingData.isEmpty then loop pendingData rest
      else pendingData.flatMap layout.encode :: loop [] rest

/-- All writes to the socket, the handshake first. -/
def writes (drains : List (List GpuOutput)) : List (List UInt8) :=
  netHandshake large :: loop layout [] drains

end ClientThread

namespace TcpConnection

/-- Which asynchronous operation is outstanding. -/
inductive Phase where
  | accepting
  | handshake
  | read
  | closed
  deriving DecidableEq, Repr

end TcpConnection

/-- The members of `tcp_connection`. The arrays are not initialised by the
constructor. -/
structure TcpConnection where
  phase : TcpConnection.Phase
  handshake : ℕ → UInt8
  pendingData : ℕ → UInt8
  pendingDataLen : ℕ

namespace TcpConnection

def sizeofPendingData : ℕ := 1024

variable (layout : Layout) (large : Bool)

def startRead (conn : TcpConnection) : TcpConnection :=
  { conn with phase := .read }

/-- `start`, on the memory which the object was created in. -/
def start (conn : TcpConnection) (handshake pendingData : ℕ → UInt8) : TcpConnection :=
  { conn with phase := .handshake, handshake, pendingData }

/-- `handle_handshake`. The error code is not looked at. -/
def handleHandshake (conn : TcpConnection) : TcpConnection :=
  if load conn.handshake 0 16 ≠ netHandshake large then { conn with phase := .closed }
  else conn.startRead

/-- The bytes offered to `async_read_some`. -/
def offered (conn : TcpConnection) : ℕ := sizeofPendingData - conn.pendingDataLen

/-- The record which the loop of `handle_read` copies out of the array. -/
def recordAt (data : ℕ → UInt8) (i : ℕ) : GpuOutput :=
  layout.decode (load data (i * sizeofGpuOutput) sizeofGpuOutput)

/-- `handle_read` without an error, with the records it pushes. -/
def handleRead (conn : TcpConnection) (bytesTransferred : ℕ) : TcpConnection × List GpuOutput :=
  let pendingDataLen := conn.pendingDataLen + bytesTransferred
  if sizeofGpuOutput ≤ pendingDataLen then
    let count := pendingDataLen / sizeofGpuOutput
    let outputs := (List.range count).map (recordAt layout conn.pendingData)
    let kept := pendingDataLen - count * sizeofGpuOutput
    let pendingData := store conn.pendingData 0
      (load conn.pendingData (count * sizeofGpuOutput) kept)
    (startRead { conn with pendingData, pendingDataLen := kept }, outputs)
  else (startRead { conn with pendingDataLen }, [])

end TcpConnection

/-- One socket of the server: the bytes it has delivered, the bytes the peer has
sent beyond them, and whether a read has failed. -/
structure Socket where
  received : List UInt8
  inFlight : List UInt8
  failed : Bool

/-- All bytes which the peer has sent so far. -/
def Socket.sent (socket : Socket) : List UInt8 := socket.received ++ socket.inFlight

/-- The bytes of a read move from the stream to the receiver. -/
def Socket.deliver (socket : Socket) (count : ℕ) (error : Bool) : Socket :=
  ⟨socket.received ++ socket.inFlight.take count, socket.inFlight.drop count, error⟩

/-- The server: its connections, and the queue which they and the GPU threads push
to and which the CPU threads pop from. `pushes` records which connection, if
any, pushed what. -/
structure ServerState where
  connections : ℕ → TcpConnection
  sockets : ℕ → Socket
  queue : List GpuOutput
  popped : List GpuOutput
  pushes : List (Option ℕ × GpuOutput)

namespace ServerState

inductive Event where
  /-- The peer of a connection writes bytes. -/
  | send (id : ℕ) (bytes : List UInt8)
  /-- `handle_accept`, with the memory of the new connection. -/
  | accept (id : ℕ) (handshake pendingData : ℕ → UInt8)
  /-- Completion of the `async_read` of the handshake. -/
  | handleHandshake (id : ℕ) (bytesTransferred : ℕ) (error : Bool)
  /-- Completion of an `async_read_some`. -/
  | handleRead (id : ℕ) (bytesTransferred : ℕ) (error : Bool)
  /-- A GPU thread of the same process pushes its results. -/
  | push (outputs : List GpuOutput)
  /-- A CPU thread takes an output. -/
  | pop

def initial (memory : ℕ → TcpConnection) : ServerState where
  connections id := { memory id with phase := .accepting, pendingDataLen := 0 }
  sockets _ := ⟨[], [], false⟩
  queue := []
  popped := []
  pushes := []

/-- The connection and the socket of `id` after an event, and its pushes. -/
def set (s : ServerState) (id : ℕ) (conn : TcpConnection) (socket : Socket)
    (outputs : List GpuOutput) : ServerState where
  connections := Function.update s.connections id conn
  sockets := Function.update s.sockets id socket
  queue := s.queue ++ outputs
  popped := s.popped
  pushes := s.pushes ++ outputs.map fun output => (some id, output)

variable (layout : Layout) (large : Bool)

/-- One event, if it can happen. A read without an error delivers at least one
byte and at most the bytes offered; reads after an error fail again. -/
def step (s : ServerState) : Event → Option ServerState
  | .send id bytes =>
      let socket := s.sockets id
      some (s.set id (s.connections id) { socket with inFlight := socket.inFlight ++ bytes } [])
  | .accept id handshake pendingData =>
      if (s.connections id).phase = .accepting then
        some (s.set id ((s.connections id).start handshake pendingData) (s.sockets id) [])
      else none
  | .handleHandshake id bytesTransferred error =>
      let conn := s.connections id
      let socket := s.sockets id
      if conn.phase = .handshake ∧ bytesTransferred ≤ socket.inFlight.length ∧
          (if error then bytesTransferred < 16 else bytesTransferred = 16) then
        let filled := { conn with
          handshake := store conn.handshake 0 (socket.inFlight.take bytesTransferred) }
        some (s.set id (filled.handleHandshake large) (socket.deliver bytesTransferred error) [])
      else none
  | .handleRead id bytesTransferred error =>
      let conn := s.connections id
      let socket := s.sockets id
      if conn.phase = .read then
        if error then
          some (s.set id { conn with phase := .closed } (socket.deliver 0 true) [])
        else if ¬ socket.failed ∧ 1 ≤ bytesTransferred ∧ bytesTransferred ≤ conn.offered ∧
            bytesTransferred ≤ socket.inFlight.length then
          let filled := { conn with
            pendingData := store conn.pendingData conn.pendingDataLen
              (socket.inFlight.take bytesTransferred) }
          let handled := filled.handleRead layout bytesTransferred
          some (s.set id handled.1 (socket.deliver bytesTransferred false) handled.2)
        else none
      else none
  | .push outputs =>
      some { s with
        queue := s.queue ++ outputs
        pushes := s.pushes ++ outputs.map fun output => (none, output) }
  | .pop =>
      match s.queue with
      | [] => none
      | output :: rest => some { s with queue := rest, popped := s.popped ++ [output] }

/-- A sequence of events, in any order the connections allow. -/
def run (s : ServerState) (events : List Event) : Option ServerState :=
  Interleaving.run (step layout large) s events

/-- The records which a connection has pushed, in order. -/
def pushedBy (s : ServerState) (id : ℕ) : List GpuOutput :=
  (s.pushes.filter fun push => push.1 = some id).map Prod.snd

end ServerState

end Commission
