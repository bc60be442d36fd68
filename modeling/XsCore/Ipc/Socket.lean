import XsCore.Foundation.Ring

/-! # Stream sockets

The receive side of `kernel/socket.c`: a ring of bytes with stream positions, and beside it the
queue of descriptor records, each attached to a stream position.  A send works on the peer's receive
side; every function here is one section under the pool lock.
-/

namespace XsCore.Ipc

open Ring

inductive SocketState where
  | closed | bound | listen | synSent | synRecv | established | finWait | closeWait | timeWait
  deriving DecidableEq

inductive Domain where
  | unix | inet
  deriving DecidableEq

inductive SocketKind where
  | stream | dgram
  deriving DecidableEq

inductive SocketError where
  | badFile | invalid | again | brokenPipe | notConnected | notSupported
  deriving DecidableEq

def socketBufSize : Nat := 8192

def unixRightsMax : Nat := 4

def unixRightsQueue : Nat := 8

/-- Descriptions travelling with the byte at a stream position. -/
structure RightsRecord where
  position : Nat
  files : List Nat

structure Socket where
  inUse : Bool
  domain : Domain
  kind : SocketKind
  state : SocketState
  localIp : Nat
  localPort : Nat
  remoteIp : Nat
  remotePort : Nat
  seq : Nat
  ack : Nat
  readShutdown : Bool
  writeShutdown : Bool
  peerWriteShutdown : Bool
  rx : Buffer UInt8
  readPosition : Nat
  writePosition : Nat
  records : List RightsRecord
  peer : Option Nat
  pending : Option Nat

variable (sock : Socket)

def emptyRx : Buffer UInt8 := ⟨fun _ => 0, 0, 0, 0⟩

def findPosition (records : List RightsRecord) (position : Nat) : Option Nat :=
  records.findIdx? fun r => r.position == position

def nextPosition (records : List RightsRecord) (position : Nat) : Option Nat :=
  ((records.map RightsRecord.position).filter (position < ·)).min?

/-- The peer's side of a send: bytes go into its ring. -/
def Socket.accept (peer : Socket) (bytes : List UInt8) : Socket :=
  { peer with
    rx := peer.rx.putAll socketBufSize bytes
    writePosition := (peer.writePosition + bytes.length) % 2 ^ 64 }

def Socket.gone (peer : Socket) : Bool :=
  !peer.inUse || peer.readShutdown || decide (peer.state = .closed) ||
    decide (peer.state = .closeWait)

/-- `xscore_socket_send` on a Unix socket; `peer` is the socket at the other end, if there is one.
Returns the peer and the number of bytes it took. -/
def unixSend (peer : Option Socket) (bytes : List UInt8) :
    Except SocketError (Option Socket × Nat) :=
  if !sock.inUse then .error .badFile
  else if sock.writeShutdown then .error .brokenPipe
  else if sock.state ≠ .established then .error .notConnected
  else
    match peer with
    | none => .error .notConnected
    | some peer =>
      if peer.gone then .error .brokenPipe
      else
        let toCopy := min bytes.length (socketBufSize - peer.rx.count)
        if toCopy = 0 ∧ 0 < bytes.length then .error .again
        else .ok (some (peer.accept (bytes.take toCopy)), toCopy)

def Socket.attach (peer : Socket) (files : List Nat) : Socket :=
  match findPosition peer.records peer.writePosition with
  | some i =>
    { peer with records := peer.records.modify i fun r => { r with files := r.files ++ files } }
  | none => { peer with records := peer.records ++ [⟨peer.writePosition, files⟩] }

/-- There is no room for the message in the peer's ring or in its queue of records. -/
def Socket.crowded (peer : Socket) (bytes : List UInt8) (files : List Nat) : Bool :=
  (match findPosition peer.records peer.writePosition with
    | some i => decide (unixRightsMax - ((peer.records[i]?).elim 0 fun r => r.files.length)
        < files.length)
    | none => decide (unixRightsQueue ≤ peer.records.length)) ||
  decide (socketBufSize - peer.rx.count < bytes.length)

def unixSendmsg (peer : Option Socket) (bytes : List UInt8) (files : List Nat) :
    Except SocketError (Option Socket × Nat) :=
  if !sock.inUse || decide (unixRightsMax < files.length) ||
      decide (socketBufSize < bytes.length) then .error .invalid
  else if files = [] then
    if bytes = [] then .ok (peer, 0) else unixSend sock peer bytes
  else if sock.domain ≠ .unix ∨ sock.kind ≠ .stream then .error .notSupported
  else if sock.state ≠ .established then .error .notConnected
  else
    match peer with
    | none => .error .notConnected
    | some peer =>
      if sock.writeShutdown || peer.gone then .error .brokenPipe
      else if peer.crowded bytes files then .error .again
      else .ok (some ((peer.attach files).accept bytes), bytes.length)

def Socket.ended : Bool :=
  sock.peerWriteShutdown || decide (sock.state = .closeWait) || decide (sock.state = .closed)

/-- A `recvmsg` between its two sections: what it will copy and the record it will remove. -/
structure Receipt where
  toCopy : Nat
  index : Option Nat
  files : List Nat
  delivered : Nat

/-- The first section of `xscore_socket_recvmsg`: a result without effect, or a receipt. -/
def recvmsgBegin (capacity fdCapacity : Nat) : Except SocketError Nat ⊕ Receipt :=
  if !sock.inUse || decide (unixRightsMax < fdCapacity) then .inl (.error .invalid)
  else if sock.domain ≠ .unix ∨ sock.kind ≠ .stream then .inl (.error .notSupported)
  else if sock.readShutdown then .inl (.ok 0)
  else
    let index := findPosition sock.records sock.readPosition
    if sock.rx.count = 0 ∧ index = none then
      .inl (if sock.ended then .ok 0 else .error .again)
    else
      let wanted := min capacity sock.rx.count
      -- A copy stops before the next byte that carries descriptions.
      let toCopy := (nextPosition sock.records sock.readPosition).elim wanted
        fun next => min wanted (next - sock.readPosition)
      let files := (index.bind fun i => sock.records[i]?).elim [] RightsRecord.files
      .inr ⟨toCopy, index, files, min files.length fdCapacity⟩

def Socket.consume (k : Nat) : Socket :=
  { sock with
    rx := sock.rx.skip socketBufSize k
    readPosition := (sock.readPosition + k) % 2 ^ 64 }

/-- The descriptions the second section releases: as many as were counted in the first, read again
from the record. -/
def Receipt.released (receipt : Receipt) (sock : Socket) : List Nat :=
  match receipt.index with
  | none => []
  | some i =>
    match sock.records[i]? with
    | some r => r.files.take receipt.files.length
    | none => receipt.files

/-- The second section of `xscore_socket_recvmsg`, after the descriptors were installed. -/
def recvmsgCommit (receipt : Receipt) : Socket × List UInt8 :=
  ({ sock.consume receipt.toCopy with
      records := receipt.index.elim sock.records sock.records.eraseIdx },
    sock.rx.peek socketBufSize receipt.toCopy)

structure Received where
  result : Except SocketError (List UInt8)
  discarded : List RightsRecord

/-- The section of `xscore_socket_recvfrom` under the locks. -/
def recvfrom (len : Nat) : Socket × Received :=
  if !sock.inUse then (sock, ⟨.error .badFile, []⟩)
  else if sock.readShutdown then (sock, ⟨.ok [], []⟩)
  else if sock.rx.count = 0 then
    let eof := decide (sock.kind = .stream) && sock.ended
    match if sock.domain = .unix then findPosition sock.records sock.readPosition else none with
    | some i =>
      if len = 0 then (sock, ⟨if eof then .ok [] else .error .again, []⟩)
      else ({ sock with records := sock.records.eraseIdx i }, ⟨.ok [], (sock.records[i]?).toList⟩)
    | none => (sock, ⟨if eof then .ok [] else .error .again, []⟩)
  else
    let toCopy := min len sock.rx.count
    let after := sock.consume toCopy
    let bytes := sock.rx.peek socketBufSize toCopy
    if sock.domain = .unix ∧ toCopy ≠ 0 then
      -- Records up to and including the position reached are dropped.
      ({ after with
          records := sock.records.filter fun r => decide (after.readPosition < r.position) },
        ⟨.ok bytes, sock.records.filter fun r => decide (r.position ≤ after.readPosition)⟩)
    else (after, ⟨.ok bytes, []⟩)

def Socket.shut : Socket :=
  { sock with
    records := []
    inUse := false
    state := .closed
    rx := { sock.rx with count := 0 }
    readPosition := 0
    writePosition := 0 }

def Socket.orphan (peer : Socket) : Socket := { peer with state := .closeWait, peer := none }

end XsCore.Ipc
