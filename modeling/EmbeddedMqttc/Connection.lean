import EmbeddedMqttc.Buffer
import EmbeddedMqttc.Pid

/-!
# The connection

`TcpConnectionState` of `src/state/connection/mod.rs`. Its functions are programs over the state of
the component together with its environment: the transport, the pid pool and a script of the
answers that the coming polls of the environment give. A function whose script ends while it waits
is suspended there; the state it leaves is the one that dropping the future leaves, and resuming it
is running it with a longer script.

A pending or failed write has taken no bytes and a pending or failed read has delivered none.
-/

namespace EmbeddedMqttc

/-- What one poll of the environment answers. A write that is ready takes up to `k + 1` of the bytes
it is offered, and a read hands over up to `k + 1` bytes. -/
inductive Poll where
  | ready (k : Nat)
  | pending
  | error (kind : ErrorKind)
  deriving DecidableEq, Repr

/-- The transport. `rx` is what the peer sends and the client has not read yet, and `closed` says
whether the stream ends after it; `tx` is what the transport has taken since the connection was
established. The last two fields are history: the packets for which a `try_write_packet` answered
`Ok(true)` on this connection, and the packets that were read from it. -/
structure Net where
  rx : List UInt8
  closed : Bool
  tx : List UInt8
  accepted : List Packet
  returned : List Packet
  deriving DecidableEq, Repr

inductive ConnectionStateValue where
  | connectSent
  | connected
  | disconnected
  | error
  deriving DecidableEq, Repr

/-- The connection component. `connection` says whether a connection is stored. `mapped` is the
`bytes_read` of the packet reference that borrows the receive buffer, if there is one: it is the
only borrow of a buffer that outlives the function that takes it. -/
structure TcpConnectionState (N : Nat) where
  inner : Option ConnectionStateValue
  connection : Bool
  sendBuffer : StackBuffer N
  recvBuffer : StackBuffer N
  mapped : Option Nat
  deriving DecidableEq, Repr

structure World (N : Nat) extends TcpConnectionState N where
  net : Net
  pool : PidPool PID_POOL_SIZE
  script : List Poll
  deriving DecidableEq, Repr

abbrev Io (N : Nat) := Prog (World N) MqttError

def World.withScript {N : Nat} (w : World N) (script : List Poll) : World N := { w with script }

/-! ## Configuration -/

def MAX_TOPIC_SIZE : Nat := 64

def KEEP_ALIVE : Nat := 60

structure AutoSubscribe where
  topic : BoundedVec UInt8 MAX_TOPIC_SIZE
  qos : QoS
  deriving DecidableEq, Repr

structure ClientCredentials where
  username : List UInt8
  password : List UInt8
  deriving DecidableEq, Repr

inductive Host where
  | hostname (host : List UInt8)
  | ip (addr : List UInt8)
  deriving DecidableEq, Repr

structure ClientConfig where
  host : Host
  clientId : List UInt8
  credentials : Option ClientCredentials
  autoSubscribes : BoundedVec AutoSubscribe 10
  deriving DecidableEq, Repr

variable {N : Nat}

def TcpConnectionState.new : TcpConnectionState N where
  inner := none
  connection := false
  sendBuffer := .new
  recvBuffer := .new
  mapped := none

/-- A new component, before its first connect. -/
def World.new (script : List Poll) : World N where
  toTcpConnectionState := .new
  net := { rx := [], closed := false, tx := [], accepted := [], returned := [] }
  pool := .new
  script := script

/-! ## The transport -/

/-- The first answer that is not `Pending`, as an awaiting task sees it. -/
def nextAnswer : List Poll → Option (Except ErrorKind Nat × List Poll)
  | [] => none
  | .pending :: ps => nextAnswer ps
  | .ready k :: ps => some (.ok k, ps)
  | .error kind :: ps => some (.error kind, ps)

def awaitAnswer : Io N (Except ErrorKind Nat) := do
  let w ← get
  match nextAnswer w.script with
  | some (a, ps) =>
    set { w with script := ps }
    return a
  | none =>
    set { w with script := [] }
    Prog.park

/-- `network_write!` -/
def networkWrite (bytes : List UInt8) : Io N Nat := do
  match ← awaitAnswer with
  | .ok k =>
    let n := min (k + 1) bytes.length
    modify fun w => { w with net := { w.net with tx := w.net.tx ++ bytes.take n } }
    return n
  | .error kind => Prog.fail (.connectionFailed2 kind)

/-- `network_flush!` -/
def networkFlush : Io N Unit := do
  match ← awaitAnswer with
  | .ok _ => return ()
  | .error kind => Prog.fail (.connectionFailed2 kind)

/-- What one poll of a read into a slice of length `len > 0` answers; `none` is `Pending`. A closed
stream that has been read to its end answers `Ok(0)`. -/
def Net.readAnswer (net : Net) (len : Nat) : Poll → Option (Except ErrorKind (List UInt8))
  | .pending => none
  | .error kind => some (.error kind)
  | .ready k =>
    if net.rx = [] then
      if net.closed then some (.ok []) else none
    else some (.ok (net.rx.take (min (k + 1) len)))

/-- The first answer to a read that is not `Pending`. -/
def Net.awaitRead (net : Net) (len : Nat) :
    List Poll → Option (Except ErrorKind (List UInt8) × List Poll)
  | [] => none
  | p :: ps =>
    match net.readAnswer len p with
    | some r => some (r, ps)
    | none => net.awaitRead len ps

/-- The outcome of a read that is ready. -/
def finishRead : Except ErrorKind (List UInt8) → Io N (List UInt8)
  | .ok bytes => do
    modify fun w => { w with net := { w.net with rx := w.net.rx.drop bytes.length } }
    return bytes
  | .error kind => Prog.fail (.connectionFailed2 kind)

/-- `network_read!` into a slice of length `len`. A read into an empty slice is ready at once. -/
def networkRead (len : Nat) : Io N (List UInt8) := do
  if len = 0 then return []
  let w ← get
  match w.net.awaitRead len w.script with
  | some (r, ps) =>
    set { w with script := ps }
    finishRead r
  | none =>
    set { w with script := [] }
    Prog.park

/-- `network_try_read`: a read that is polled once, where `Pending` is reported as `Ok(0)`. -/
def networkTryRead (len : Nat) : Io N (List UInt8) := do
  if len = 0 then return []
  let w ← get
  match w.script with
  | [] => return []
  | p :: ps =>
    set { w with script := ps }
    match w.net.readAnswer len p with
    | some r => finishRead r
    | none => return []

namespace TcpConnectionState

/-- `self.recv_buffer.borrow()`, which panics while a packet reference borrows the buffer. -/
def borrowRecv : Io N Unit := do
  let w ← get
  Prog.ensure (w.mapped = none) .panic

/-- `self.connection.borrow_mut().as_mut().unwrap()` -/
def unwrapConnection : Io N Unit := do
  let w ← get
  Prog.ensure w.connection .panic

/-- The lines `let bytes_sent = network_write!(send_buffer.reaable_data(), connection);` and
`send_buffer.add_bytes_read(bytes_sent).unwrap();`. -/
def transmit : Io N Unit := do
  let w ← get
  let bytesSent ← networkWrite w.sendBuffer.reaableData
  let sendBuffer ← Prog.unwrap (w.sendBuffer.addBytesRead bytesSent).toOption
  modify fun w => { w with sendBuffer }

/-- A read into `recv_buffer.writeable_data()` and the `commit_bytes_written` of what it gave. -/
def receive (read : Nat → Io N (List UInt8)) : Io N Nat := do
  modify fun w => { w with recvBuffer := w.recvBuffer.writeableData }
  let w ← get
  let bytes ← read w.recvBuffer.freeData.length
  let recvBuffer ← Prog.unwrap
    ((w.recvBuffer.writeSlice bytes).commitBytesWritten bytes.length).toOption
  modify fun w => { w with recvBuffer }
  return bytes.length

variable (C : Codec)

def tryReadPacket : Io N (Option Packet) := do
  borrowRecv
  let w ← get
  match C.decodeSliceWithLen w.recvBuffer.reaableData with
  | .ok (some (bytesRead, packet)) =>
    set { w with
      mapped := some bytesRead
      net := { w.net with returned := w.net.returned ++ [packet] } }
    return some packet
  | .ok none =>
    if w.recvBuffer.isMaxLen then Prog.fail .bufferTooSmall
    else return none
  | .error err => Prog.fail (.codecError err)

/-- The drop of the packet reference that a read returned. -/
def dropPacket : Io N Unit := do
  let w ← get
  match w.mapped with
  | some bytesRead =>
    let recvBuffer ← Prog.unwrap (w.recvBuffer.addBytesRead bytesRead).toOption
    set { w with recvBuffer, mapped := none }
  | none => return ()

/-- One turn of the loop of `read_packet`. -/
def readPacketTurn : Io N (Option Packet) := do
  match ← tryReadPacket C with
  | some packet => return some packet
  | none =>
    let _ ← receive networkRead
    return none

def readPacket : Io N Packet := do
  unwrapConnection
  let w ← get
  Prog.loop (w.script.length + 1) (readPacketTurn C)

/-- One turn of the loop of `send_all_intern`. -/
def sendAllTurn : Io N (Option Unit) := do
  let w ← get
  if w.sendBuffer.hasRemainingLen then
    transmit
    return none
  else return some ()

def sendAllIntern : Io N Unit := do
  let w ← get
  Prog.loop (w.script.length + 1) sendAllTurn
  networkFlush

def sendAll : Io N Unit := do
  unwrapConnection
  sendAllIntern

def send : Io N Unit := do
  let w ← get
  if w.sendBuffer.hasRemainingLen then
    unwrapConnection
    transmit
    networkFlush

/-- The inherent method, which moves the pending bytes to the front before it writes. -/
def tryWritePacket (packet : Packet) : Io N Bool := do
  let w ← get
  let buffer := w.sendBuffer.flip.writeableData
  let (result, slice) := C.encodeSlice packet buffer.freeData
  let buffer := buffer.writeSlice slice
  set { w with sendBuffer := buffer }
  match result with
  | .ok bytesWritten =>
    let sendBuffer ← Prog.unwrap (buffer.commitBytesWritten bytesWritten).toOption
    set { w with
      sendBuffer
      net := { w.net with accepted := w.net.accepted ++ [packet] } }
    return true
  | .error .writeZero =>
    if buffer.isMaxCapacity then Prog.fail .bufferTooSmall
    else return false
  | .error err => Prog.fail (.codecError err)

/-- One turn of the loop of `write_packet_async`. -/
def writePacketTurn (packet : Packet) : Io N (Option Unit) := do
  if ← tryWritePacket C packet then return some ()
  send
  return none

def writePacketAsync (packet : Packet) : Io N Unit := do
  let w ← get
  Prog.loop (w.script.length + 1) (writePacketTurn C packet)

/-- One turn of the `while` loop of `send_receive`; `some true` is the early return with data, and
`some false` the end of the loop. -/
def sendReceiveTurn : Io N (Option Bool) := do
  let w ← get
  if w.sendBuffer.hasRemainingLen then
    transmit
    networkFlush
    let bytesReceived ← receive networkTryRead
    return if 0 < bytesReceived then some true else none
  else return some false

def sendReceive : Io N Unit := do
  borrowRecv
  modify fun w => { w with recvBuffer := w.recvBuffer.flip }
  unwrapConnection
  let w ← get
  let early ← Prog.loop (w.script.length + 1) sendReceiveTurn
  if !early then
    let _ ← receive networkRead

/-! ### Auto subscribes -/

/-- `next_pid` on the global pool. -/
def nextPid : Io N Pid := do
  let w ← get
  let (pid, pool) ← Prog.unwrap w.pool.nextPid
  modify fun w => { w with pool }
  return pid

/-- `chunks(5)`; the first argument bounds the number of chunks. -/
def chunksOfFive {α : Type} : Nat → List α → List (List α)
  | 0, _ => []
  | _ + 1, [] => []
  | n + 1, l => l.take 5 :: chunksOfFive n (l.drop 5)

/-- The `TryInto<SubscribeTopic>` of an auto subscribe. -/
def subscribeTopic (a : AutoSubscribe) : Except MqttError SubscribeTopic :=
  if a.topic.toList.length ≤ C.topicPathCapacity then .ok ⟨a.topic.toList, a.qos⟩
  else .error .topicSizeError

def processSuback : List SubscribeReturnCodes → List AutoSubscribe → Except MqttError Unit
  | .success _ :: codes, _ :: autoSubscribes => processSuback codes autoSubscribes
  | .failure :: _, _ :: _ => .error .subscribeOrUnsubscribeFailed
  | _, _ => .ok ()

/-- What a packet read while waiting for the suback of a chunk amounts to. -/
def checkSuback (chunk : List AutoSubscribe) : Packet → Except MqttError Unit
  | .suback suback => processSuback suback.returnCodes chunk
  | _ => .error .connackError

def liftExcept {α : Type} : Except MqttError α → Io N α
  | .ok a => pure a
  | .error err => Prog.fail err

def subscribeChunks : List (List AutoSubscribe) → Io N Unit
  | [] => return ()
  | chunk :: chunks => do
    let pid ← nextPid
    let topics ← liftExcept (chunk.mapM (subscribeTopic C))
    writePacketAsync C (.subscribe { pid, topics })
    sendAll
    let nextPacket ← readPacket C
    dropPacket
    liftExcept (checkSuback chunk nextPacket)
    subscribeChunks chunks

def subscribeAutoSubscribes (config : ClientConfig) : Io N Unit :=
  subscribeChunks C (chunksOfFive 10 config.autoSubscribes.toList)

def notify (value : ConnectionStateValue) : Io N Unit :=
  modify fun w => { w with inner := some value }

def processConnack (config : ClientConfig) (connack : Connack) : Io N Unit := do
  match connack.code with
  | .accepted =>
    subscribeAutoSubscribes C config
    notify .connected
  | .refusedProtocolVersion | .refusedIdentifierRejected | .serverUnavailable =>
    notify .error
    Prog.fail .connackError
  | .badUsernamePassword | .notAuthorized =>
    notify .error
    Prog.fail .authenticationError

/-! ### Connect -/

/-- `Host::resolve`; an IP address needs no answer. -/
def resolve (host : Host) : Io N Unit := do
  match host with
  | .hostname _ =>
    match ← awaitAnswer with
    | .ok _ => return ()
    | .error _ => Prog.fail .dnsFailed
  | .ip _ => return ()

/-- `TcpConnect::connect`. The new connection will carry `incoming`. -/
def connectTransport (incoming : List UInt8) (closed : Bool) : Io N Unit := do
  match ← awaitAnswer with
  | .ok _ =>
    modify fun w => { w with
      connection := true
      net := { rx := incoming, closed, tx := [], accepted := [], returned := [] } }
  | .error kind => Prog.fail (.connectionFailed2 kind)

def connectPacket (config : ClientConfig) (lastWill : Option LastWill) : Packet :=
  .connect {
    protocol := .mqtt311
    keepAlive := KEEP_ALIVE
    clientId := config.clientId
    cleanSession := false
    lastWill
    username := config.credentials.map (·.username)
    password := config.credentials.map (·.password) }

/-- The part of `connect` from the established connection to the wait for the connack. -/
def sendConnect (config : ClientConfig) (lastWill : Option LastWill) : Io N Unit := do
  let sent ← tryWritePacket C (connectPacket config lastWill)
  Prog.ensure sent (.fail .bufferTooSmall)
  send
  notify .connectSent

/-- What a packet read while waiting for the connack amounts to. -/
def checkConnack : Packet → Except MqttError Connack
  | .connack connack => .ok connack
  | _ => .error .connackError

/-- The part of `connect` that waits for the connack and processes it. -/
def awaitConnack (config : ClientConfig) : Io N Unit := do
  let nextPacket ← readPacket C
  dropPacket
  let connack ← liftExcept (checkConnack nextPacket)
  processConnack C config connack

end TcpConnectionState

namespace ConnectionState

open TcpConnectionState

variable (C : Codec)

/-- The part of `connect` up to the established connection. -/
def establish (config : ClientConfig) (incoming : List UInt8) (closed : Bool) : Io N Unit := do
  let w ← get
  Prog.ensure (w.inner = none ∨ w.inner = some .error) .panic
  borrowRecv
  modify fun w => { w with recvBuffer := w.recvBuffer.reset, sendBuffer := w.sendBuffer.reset }
  resolve config.host
  connectTransport incoming closed

/-- The part of `connect` before its first read. -/
def connectUntilConnack (config : ClientConfig) (lastWill : Option LastWill)
    (incoming : List UInt8) (closed : Bool) : Io N Unit := do
  establish config incoming closed
  sendConnect C config lastWill

def connect (config : ClientConfig) (lastWill : Option LastWill) (incoming : List UInt8)
    (closed : Bool) : Io N Unit := do
  connectUntilConnack C config lastWill incoming closed
  awaitConnack C config

/-- The trait method, which writes behind the pending bytes where they are. -/
def tryWritePacket (packet : Packet) : Io N Bool := do
  let w ← get
  let buffer := w.sendBuffer.writeableData
  let (result, slice) := C.encodeSlice packet buffer.freeData
  let buffer := buffer.writeSlice slice
  set { w with sendBuffer := buffer }
  match result with
  | .error .writeZero => return false
  | .ok n =>
    let sendBuffer ← Prog.unwrap (buffer.commitBytesWritten n).toOption
    set { w with
      sendBuffer
      net := { w.net with accepted := w.net.accepted ++ [packet] } }
    return true
  | .error err => Prog.fail (.codecError err)

def writePacket (packet : Packet) : Io N Unit := writePacketAsync C packet

def setError : Io N Unit := notify .error

def disconnect : Io N Unit := do
  let w ← get
  Prog.ensure (w.inner = some .connected) .panic
  sendAll
  -- `self.try_write_packet` is the inherent method here
  let sent ← TcpConnectionState.tryWritePacket C .disconnect
  Prog.ensure sent .panic
  sendAll
  unwrapConnection
  modify fun w => { w with connection := false }
  notify .disconnected

/-- One turn of the loop of `run_io`. -/
def runIoTurn : Io N (Option Packet) := do
  sendReceive
  tryReadPacket C

def runIo : Io N Packet := do
  let w ← get
  Prog.ensure (w.inner = some .connected) .panic
  Prog.loop (w.script.length + 1) (runIoTurn C)

def runIoNonblocking : Io N (Option Packet) := do
  let w ← get
  Prog.ensure (w.inner = some .connected) .panic
  send
  unwrapConnection
  borrowRecv
  let _ ← receive networkTryRead
  tryReadPacket C

end ConnectionState

end EmbeddedMqttc
