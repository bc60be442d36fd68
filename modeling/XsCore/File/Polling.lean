import XsCore.File.Pipes

/-! # Polling pipes and connections

What `fd_poll_file` reports of a pipe or a connected Unix stream socket, beside what a read or a
write of one byte without blocking returns.  Poll looks at the socket alone, a send also at the room
its peer has left.
-/

namespace XsCore.File

open XsCore.Ipc

/-- The events of `fd_poll_file`, when the caller asks for all of them. -/
structure Ready where
  pollIn : Bool
  pollOut : Bool
  pollHup : Bool
  pollErr : Bool

/-- A pipe, through a description with the given access. -/
def Pipe.poll (pipe : Pipe) (readable writable : Bool) : Ready where
  pollIn := readable && decide (pipe.ring.count ≠ 0)
  pollOut := writable && decide (pipe.readers ≠ 0 ∧ pipe.ring.count < pipeBufSize)
  pollHup := readable && decide (pipe.writers = 0)
  pollErr := writable && decide (pipe.readers = 0)

def socketPollReadable (sock : Socket) : Bool :=
  sock.inUse &&
    if sock.state = .listen then sock.pending.isSome
    else decide (0 < sock.rx.count) ||
      (decide (sock.domain = .unix) && (findPosition sock.records sock.readPosition).isSome) ||
      sock.readShutdown || (decide (sock.kind = .stream) && sock.ended)

def socketPollWritable (sock : Socket) : Bool :=
  sock.inUse && (decide (sock.state = .established) || decide (sock.kind = .dgram))

/-- A socket; its descriptions are open for reading and writing. -/
def socketPoll (sock : Socket) : Ready :=
  ⟨socketPollReadable sock, socketPollWritable sock, false, false⟩

/-- A Unix stream socket that has or had a peer. -/
structure Connected (sock : Socket) : Prop where
  inUse : sock.inUse = true
  unix : sock.domain = .unix
  stream : sock.kind = .stream
  state : sock.state = .established ∨ sock.state = .closeWait

/-- A pipe, or one end of a connection with the socket at the other end. -/
inductive Endpoint where
  | pipe (pipe : Pipe)
  | stream (sock : Socket) (peer : Option Socket) (connected : Connected sock)

namespace Endpoint

/-- What poll reports to a reader, and what to a writer. -/
def polls : Endpoint → Ready × Ready
  | .pipe p => (p.poll true false, p.poll false true)
  | .stream sock _ _ => (socketPoll sock, socketPoll sock)

def ReadBlocks : Endpoint → Prop
  | .pipe p => (p.read 1).2 = .again
  | .stream sock _ _ => (recvfrom sock 1).2.result = .error .again

def WriteBlocks (byte : UInt8) : Endpoint → Prop
  | .pipe p => (p.write [byte]).2 = .again
  | .stream sock peer _ => unixSend sock peer [byte] = .error .again

structure Agrees (e : Endpoint) (byte : UInt8) : Prop where
  read : e.polls.1.pollIn = true ∨ e.polls.1.pollHup = true ↔ ¬ e.ReadBlocks
  write : e.polls.2.pollOut = true ↔ ¬ e.WriteBlocks byte

/-- The other side is there, and a connection that can be written to has room at its peer. -/
def Open : Endpoint → Prop
  | .pipe p => p.readers ≠ 0
  | .stream sock peer _ => sock.state = .established ∧
      ∀ p ∈ peer, sock.writeShutdown = true ∨ p.gone = true ∨ p.rx.count < socketBufSize

theorem polls_read (e : Endpoint) : e.polls.1.pollIn ∨ e.polls.1.pollHup ↔ ¬ e.ReadBlocks := by
  cases e with
  | pipe p =>
    simp only [polls, Pipe.poll, ReadBlocks, Pipe.read]
    split_ifs with hempty hwriters <;> simp_all
  | stream sock peer h =>
    have hlisten : sock.state ≠ .listen := by rcases h.state with hs | hs <;> simp [hs]
    simp only [polls, socketPoll, socketPollReadable, ReadBlocks, recvfrom, h.inUse, h.unix, h.stream]
    cases hfind : findPosition sock.records sock.readPosition <;>
      by_cases hshut : sock.readShutdown = true <;> by_cases hcount : sock.rx.count = 0 <;>
      cases hended : sock.ended <;> simp_all [Nat.pos_iff_ne_zero]

theorem polls_write (e : Endpoint) (byte : UInt8) :
    (e.polls.2.pollOut ↔ ¬ e.WriteBlocks byte) ↔ e.Open := by
  cases e with
  | pipe p =>
    simp only [polls, Pipe.poll, WriteBlocks, Pipe.write, Open]
    split_ifs with hreaders hfull <;> simp_all
  | stream sock peer h =>
    simp only [polls, socketPoll, socketPollWritable, Open, WriteBlocks, unixSend, h.inUse, h.stream]
    by_cases hest : sock.state = .established
    · cases peer with
      | none => cases hshut : sock.writeShutdown <;> simp [hest]
      | some p =>
        cases hshut : sock.writeShutdown <;> cases hgone : p.gone <;>
          simp [hest, hgone, Nat.sub_eq_zero_iff_le]
    · cases hshut : sock.writeShutdown <;> simp [hest]

theorem poll_agrees_iff (e : Endpoint) (byte : UInt8) : e.Agrees byte ↔ e.Open := by
  rw [← polls_write e byte]
  exact ⟨fun h => h.write, fun h => ⟨polls_read e, h⟩⟩

/-- The peer has no room, and the socket is reported writable all the same. -/
theorem full_peer_polls_writable : ¬ Agrees (.stream (unixChild 1)
    (some { unixChild 0 with rx := { emptyRx with count := socketBufSize } })
    ⟨rfl, rfl, rfl, .inl rfl⟩) 0 := by
  exact fun h => absurd (((polls_write _ _).mp h.write).2 _ rfl) (by decide)

end Endpoint

end XsCore.File
