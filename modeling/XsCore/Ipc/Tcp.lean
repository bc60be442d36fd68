import XsCore.Foundation.Machine
import XsCore.Ipc.Socket

/-! # Receiving a TCP stream

How `kernel/socket.c` takes segments from the network: `xscore_socket_demux_tcp` gives a segment to
the first socket of the pool it matches, which stores the payload and answers with an
acknowledgement.  Neither the sequence number of a segment nor the room left for its payload is
looked at.
-/

namespace XsCore.Ipc

open Ring Function List Machine

variable {s : Socket} {offset length ack : Nat} {syn acks fin rst : Bool}

def socketMax : Nat := 256

structure Segment where
  srcIp : Nat
  dstIp : Nat
  srcPort : Nat
  dstPort : Nat
  seq : Nat
  ack : Nat
  syn : Bool
  acks : Bool
  fin : Bool
  rst : Bool
  payload : List UInt8

def tcpPacket (s : Socket) (syn fin : Bool) : Segment where
  srcIp := s.localIp
  dstIp := s.remoteIp
  srcPort := s.localPort
  dstPort := s.remotePort
  seq := s.seq
  ack := s.ack
  syn := syn
  acks := true
  fin := fin
  rst := false
  payload := []

def Socket.store (s : Socket) (payload : List UInt8) : Socket :=
  payload.foldl (fun s byte =>
    if s.rx.count < socketBufSize then { s with rx := s.rx.put socketBufSize byte } else s) s

/-- The payload of a segment, and the acknowledgement sent for it. -/
def takePayload (s : Socket) (seg : Segment) : Socket × List Segment :=
  if seg.payload = [] then (s, [])
  else
    let s := { s.store seg.payload with ack := (seg.seq + seg.payload.length) % 2 ^ 32 }
    (s, [tcpPacket s false false])

def takeFin (s : Socket) (seg : Segment) : Socket × List Segment :=
  if seg.fin then
    let s := { s with ack := (seg.seq + seg.payload.length + 1) % 2 ^ 32 }
    ({ s with state := .closeWait }, [tcpPacket s false false])
  else (s, [])

/-- A segment at a socket that is not listening; `none` if the socket lets it pass. -/
def handleSegment (s : Socket) (seg : Segment) : Option (Socket × List Segment) :=
  if ¬ (s.localPort = seg.dstPort ∧ s.remotePort = seg.srcPort) then none
  else if s.state = .synSent ∧ (seg.syn || seg.acks) = true then
    let s := { s with ack := (seg.seq + 1) % 2 ^ 32, seq := seg.ack, state := .established }
    some (s, [tcpPacket s false false])
  else if s.state = .synRecv ∧ seg.acks = true then some ({ s with state := .established }, [])
  else if s.state = .established ∨ s.state = .synRecv then
    if seg.rst then some ({ s with state := .closed }, [])
    else
      let stored := takePayload s seg
      let closed := takeFin stored.1 seg
      some (closed.1, stored.2 ++ closed.2)
  else none

def childSocket (seg : Segment) : Socket where
  inUse := true
  domain := .inet
  kind := .stream
  state := .synRecv
  localIp := seg.dstIp
  localPort := seg.dstPort
  remoteIp := seg.srcIp
  remotePort := seg.srcPort
  seq := 5000
  ack := (seg.seq + 1) % 2 ^ 32
  readShutdown := false
  writeShutdown := false
  peerWriteShutdown := false
  rx := emptyRx
  readPosition := 0
  writePosition := 0
  records := []
  peer := none
  pending := none

def acceptSyn (pool : Nat → Socket) (i : Nat) (seg : Segment) : (Nat → Socket) × List Segment :=
  match (List.range socketMax).find? fun c => !(pool c).inUse with
  | none => (pool, [])
  | some c =>
    let child := childSocket seg
    (update (update pool c { child with seq := child.seq + 1 }) i
      { pool i with pending := some c }, [tcpPacket child true false])

def demuxFrom (pool : Nat → Socket) (seg : Segment) : Nat → Nat → (Nat → Socket) × List Segment
  | 0, _ => (pool, [])
  | n + 1, i =>
    if !(pool i).inUse || decide ((pool i).kind ≠ .stream) then demuxFrom pool seg n (i + 1)
    else if (pool i).state = .listen ∧ (pool i).localPort = seg.dstPort ∧ seg.syn = true then
      acceptSyn pool i seg
    else
      match handleSegment (pool i) seg with
      | some (s, sent) => (update pool i s, sent)
      | none => demuxFrom pool seg n (i + 1)

/-- `xscore_socket_demux_tcp` on a decoded segment: the new pool and what is sent. -/
def demuxTcp (pool : Nat → Socket) (seg : Segment) : (Nat → Socket) × List Segment :=
  demuxFrom pool seg socketMax 0

/-! ## A connection and its peer -/

/-- The peer of a connection: its ports, its initial sequence number and the bytes it sends. -/
structure Peer where
  ip : Nat
  port : Nat
  localIp : Nat
  localPort : Nat
  isn : Nat
  stream : Nat → UInt8

def Peer.seqOf (peer : Peer) (offset : Nat) : Nat := (peer.isn + 1 + offset) % 2 ^ 32

def Peer.slice (peer : Peer) (offset length : Nat) : List UInt8 :=
  (List.range length).map fun i => peer.stream (offset + i)

/-- What the network and the application do: segments of the peer's stream arrive, in any order and
any number of times, and the application reads. -/
inductive Event where
  | arrive (offset length ack : Nat) (syn acks fin rst : Bool)
  | read (len : Nat)

def Peer.segment (peer : Peer) (offset length ack : Nat) (syn acks fin rst : Bool) : Segment where
  srcIp := peer.ip
  dstIp := peer.localIp
  srcPort := peer.port
  dstPort := peer.localPort
  seq := peer.seqOf offset
  ack := ack
  syn := syn
  acks := acks
  fin := fin
  rst := rst
  payload := peer.slice offset length

structure Ack where
  number : Nat
  received : Nat

/-- The pool, the bytes the application has read from the connection, and what was acknowledged. -/
structure Stack where
  pool : Nat → Socket
  data : List UInt8
  acks : List Ack

def Stack.received (k : Stack) (i : Nat) : Nat := k.data.length + (k.pool i).rx.count

def Stack.arrive (i : Nat) (k : Stack) (seg : Segment) : Stack :=
  let r := demuxTcp k.pool seg
  let arrived : Stack := { k with pool := r.1 }
  { arrived with acks := k.acks ++ r.2.map fun sent => ⟨sent.ack, arrived.received i⟩ }

def Stack.read (i : Nat) (k : Stack) (len : Nat) : Stack :=
  let r := recvfrom (k.pool i) len
  { k with
    pool := update k.pool i r.1
    data := k.data ++ (match r.2.result with | .ok bytes => bytes | .error _ => []) }

def Stack.step (peer : Peer) (i : Nat) (k : Stack) : Event → Stack
  | .arrive offset length ack syn acks fin rst =>
    k.arrive i (peer.segment offset length ack syn acks fin rst)
  | .read len => k.read i len

/-- A segment brings the bytes expected next, and there is room for them; no SYN comes again. -/
def Stack.InOrder (i : Nat) (k : Stack) : Event → Prop
  | .arrive offset length _ syn _ fin rst =>
    syn = false ∧ (rst = false → (k.pool i).state = .established → 0 < length ∨ fin = true →
      offset = k.received i ∧ (k.pool i).rx.count + length ≤ socketBufSize)
  | .read _ => True

/-- Socket `i` is the one bound to the connection. -/
structure Bound (peer : Peer) (i : Nat) (pool : Nat → Socket) : Prop where
  index : i < socketMax
  inUse : (pool i).inUse = true
  stream : (pool i).kind = .stream
  inet : (pool i).domain = .inet
  localPort : (pool i).localPort = peer.localPort
  remotePort : (pool i).remotePort = peer.port
  state : (pool i).state = .established ∨ (pool i).state = .closeWait ∨ (pool i).state = .closed
  only : ∀ j, j ≠ i → (pool j).inUse = true → (pool j).kind = .stream →
    ¬ ((pool j).localPort = peer.localPort ∧ (pool j).remotePort = peer.port)

structure Fresh (peer : Peer) (i : Nat) (k : Stack) : Prop where
  bound : Bound peer i k.pool
  ring : (k.pool i).rx.Ok socketBufSize
  empty : (k.pool i).rx.count = 0
  data : k.data = []
  acks : k.acks = []

variable {peer : Peer} {i : Nat} {k : Stack} {seg : Segment} {pool : Nat → Socket}

/-! ## One segment -/

theorem handleSegment_other (h : ¬ (s.localPort = seg.dstPort ∧ s.remotePort = seg.srcPort)) :
    handleSegment s seg = none := by
  rw [handleSegment, if_pos h]

theorem demuxFrom_succ (hsyn : seg.syn = false) (n start : Nat)
    (hpass : (pool start).inUse → (pool start).kind = .stream →
      handleSegment (pool start) seg = none) :
    demuxFrom pool seg (n + 1) start = demuxFrom pool seg n (start + 1) := by
  rw [demuxFrom]
  by_cases hskip : (!(pool start).inUse || decide ((pool start).kind ≠ .stream))
  · rw [if_pos hskip]
  rw [if_neg hskip, if_neg (by simp [hsyn])]
  simp only [Bool.or_eq_true, not_or, Bool.not_eq_true, Bool.not_eq_false', decide_eq_true_eq,
    not_not] at hskip
  rw [hpass hskip.1 hskip.2]

theorem demuxFrom_pass (hsyn : seg.syn = false) (n start : Nat)
    (hpass : ∀ j, start ≤ j → (pool j).inUse → (pool j).kind = .stream →
      handleSegment (pool j) seg = none) :
    demuxFrom pool seg n start = (pool, []) := by
  induction n generalizing start with
  | zero => rfl
  | succ n ih =>
    rw [demuxFrom_succ hsyn n start (hpass start le_rfl)]
    exact ih (start + 1) fun j hj => hpass j (by omega)

theorem demuxTcp_eq (h : Bound peer i pool) (hsyn : seg.syn = false)
    (hsrc : seg.srcPort = peer.port) (hdst : seg.dstPort = peer.localPort) :
    demuxTcp pool seg = (handleSegment (pool i) seg).elim (pool, [])
      fun r => (update pool i r.1, r.2) := by
  have hother : ∀ j ≠ i, (pool j).inUse → (pool j).kind = .stream →
      handleSegment (pool j) seg = none := by
    intro j hj huse hkind
    refine handleSegment_other ?_
    rw [hsrc, hdst]
    exact h.only j hj huse hkind
  -- The scan starts at or before the socket and reaches it.
  have hscan : ∀ n start, start ≤ i → i < start + n →
      demuxFrom pool seg n start = (handleSegment (pool i) seg).elim (pool, [])
        fun r => (update pool i r.1, r.2) := by
    intro n
    induction n with
    | zero => intro start hstart hi; omega
    | succ n ih =>
      intro start hstart hi
      by_cases hhere : start = i
      · subst hhere
        rw [demuxFrom, if_neg (by simp [h.inUse, h.stream]), if_neg (by simp [hsyn])]
        cases hhandle : handleSegment (pool start) seg with
        | some r => rfl
        | none =>
          exact demuxFrom_pass hsyn n (start + 1) fun j hj => hother j (by omega)
      · rw [demuxFrom_succ hsyn n start (hother start hhere)]
        exact ih (start + 1) (by omega) (by omega)
  exact hscan socketMax 0 (Nat.zero_le i) (by have := h.index; omega)

theorem store_eq (s : Socket) (payload : List UInt8)
    (hroom : s.rx.count + payload.length ≤ socketBufSize) :
    s.store payload = { s with rx := s.rx.putAll socketBufSize payload } := by
  induction payload generalizing s with
  | nil => rfl
  | cons byte payload ih =>
    rw [length_cons] at hroom
    rw [Socket.store, foldl_cons, if_pos (by omega), ← Socket.store, ih]
    · rfl
    · show s.rx.count + 1 + payload.length ≤ socketBufSize
      omega

@[simp]
theorem Peer.length_slice (peer : Peer) (offset length : Nat) :
    (peer.slice offset length).length = length := by
  simp [Peer.slice]

theorem Peer.slice_append (peer : Peer) (offset m n : Nat) :
    peer.slice offset m ++ peer.slice (offset + m) n = peer.slice offset (m + n) := by
  simp [Peer.slice, range_add, Nat.add_assoc]

theorem Peer.seqOf_add (peer : Peer) (offset n : Nat) :
    (peer.seqOf offset + n) % 2 ^ 32 = peer.seqOf (offset + n) := by
  rw [seqOf, seqOf, Nat.mod_add_mod, Nat.add_assoc]

theorem segment_stored (s : Socket) (seg : Segment)
    (hroom : s.rx.count + seg.payload.length ≤ socketBufSize) : let stored := takePayload s seg
    let closed := takeFin stored.1 seg
    (∃ ack, closed.1 = { s with
      rx := s.rx.putAll socketBufSize seg.payload
      ack := ack
      state := if seg.fin then .closeWait else s.state }) ∧
    ∀ sent ∈ stored.2 ++ closed.2,
      0 < seg.payload.length ∧ sent.ack = (seg.seq + seg.payload.length) % 2 ^ 32 ∨
      seg.fin ∧ sent.ack = (seg.seq + seg.payload.length + 1) % 2 ^ 32 := by
  intro stored closed
  have hstored : (∃ ack, stored.1 = { s with
      rx := s.rx.putAll socketBufSize seg.payload
      ack := ack }) ∧
      ∀ sent ∈ stored.2,
        0 < seg.payload.length ∧ sent.ack = (seg.seq + seg.payload.length) % 2 ^ 32 := by
    by_cases hempty : seg.payload = []
    · simp only [stored, takePayload, if_pos hempty]
      refine ⟨⟨s.ack, ?_⟩, fun sent hsent => absurd hsent (by simp)⟩
      rw [hempty]
      rfl
    · simp only [stored, takePayload, if_neg hempty, store_eq s seg.payload hroom]
      refine ⟨⟨_, rfl⟩, fun sent hsent => ⟨length_pos_iff.mpr hempty, ?_⟩⟩
      rw [mem_singleton.mp hsent]
      rfl
  obtain ⟨⟨ack, hsocket⟩, hsent⟩ := hstored
  by_cases hfin : seg.fin
  · simp only [closed, takeFin, if_pos hfin]
    refine ⟨⟨_, by rw [hsocket]⟩, fun sent hmem => ?_⟩
    rcases mem_append.mp hmem with hfirst | hlast
    · exact .inl (hsent sent hfirst)
    · rw [mem_singleton.mp hlast]
      exact .inr ⟨hfin, rfl⟩
  · simp only [closed, takeFin, if_neg hfin, append_nil]
    exact ⟨⟨ack, hsocket⟩, fun sent hmem => .inl (hsent sent hmem)⟩

structure ConnOk (peer : Peer) (i : Nat) (k : Stack) : Prop where
  bound : Bound peer i k.pool
  ring : (k.pool i).rx.Ok socketBufSize
  data : k.data ++ (k.pool i).rx.queue socketBufSize = peer.slice 0 (k.received i)
  acks : ∀ a ∈ k.acks, a.received ≤ k.received i ∧
    (a.number = peer.seqOf a.received ∨
      (k.pool i).state = .closeWait ∧ a.number = peer.seqOf (a.received + 1))

theorem Fresh.ok (h : Fresh peer i k) : ConnOk peer i k := by
  refine ⟨h.bound, h.ring, ?_, fun a ha => absurd ha (by simp [h.acks])⟩
  simp [h.data, Stack.received, h.empty, Buffer.queue, Peer.slice]

theorem Bound.update (h : Bound peer i pool) (huse : s.inUse = (pool i).inUse)
    (hkind : s.kind = (pool i).kind) (hdomain : s.domain = (pool i).domain)
    (hlocal : s.localPort = (pool i).localPort) (hremote : s.remotePort = (pool i).remotePort)
    (hstate : s.state = .established ∨ s.state = .closeWait ∨ s.state = .closed) :
    Bound peer i (update pool i s) := by
  refine ⟨h.index, ?_, ?_, ?_, ?_, ?_, ?_, fun j hj => ?_⟩
  all_goals try rw [update_self]
  · rw [huse, h.inUse]
  · rw [hkind, h.stream]
  · rw [hdomain, h.inet]
  · rw [hlocal, h.localPort]
  · rw [hremote, h.remotePort]
  · exact hstate
  · rw [update_of_ne hj]
    exact h.only j hj

/-- An established socket takes the segment expected next. -/
theorem ConnOk.stored (h : ConnOk peer i k) (hestablished : (k.pool i).state = .established)
    (hnext : 0 < length ∨ fin →
      offset = k.received i ∧ (k.pool i).rx.count + length ≤ socketBufSize) :
    let seg := peer.segment offset length ack syn acks fin rst
    let stored := takePayload (k.pool i) seg
    let closed := takeFin stored.1 seg
    let arrived : Stack := { k with pool := update k.pool i closed.1 }
    ConnOk peer i { arrived with
      acks := k.acks ++ (stored.2 ++ closed.2).map fun sent => ⟨sent.ack, arrived.received i⟩ } := by
  intro seg stored closed arrived
  have hlength : seg.payload.length = length := peer.length_slice offset length
  have hroom : (k.pool i).rx.count + seg.payload.length ≤ socketBufSize := by
    rw [hlength]
    by_cases hbytes : 0 < length ∨ fin
    · exact (hnext hbytes).2
    · have hcount := h.ring.count_le
      omega
  obtain ⟨⟨number, hsocket⟩, hsent⟩ := segment_stored (k.pool i) seg hroom
  have hring := Buffer.putAll_spec h.ring seg.payload hroom
  have hself : arrived.pool i = closed.1 := update_self i closed.1 k.pool
  have hrx : (arrived.pool i).rx = (k.pool i).rx.putAll socketBufSize seg.payload := by
    rw [hself, hsocket]
  have hreceived : arrived.received i = k.received i + length := by
    show k.data.length + (arrived.pool i).rx.count = k.received i + length
    rw [hrx, hring.2.2, hlength, Stack.received, Nat.add_assoc]
  have hpayload : seg.payload = peer.slice (k.received i) length := by
    by_cases hbytes : 0 < length ∨ fin
    · show peer.slice offset length = _
      rw [(hnext hbytes).1]
    · have hzero : length = 0 := by omega
      simp [seg, Peer.segment, Peer.slice, hzero]
  -- A number sent acknowledges what has been received by now, and possibly the FIN.
  have hnew : ∀ sent ∈ stored.2 ++ closed.2, sent.ack = peer.seqOf (arrived.received i) ∨
      (arrived.pool i).state = .closeWait ∧
        sent.ack = peer.seqOf (arrived.received i + 1) := by
    intro sent hmem
    have hseq : 0 < length ∨ fin → seg.seq = peer.seqOf (k.received i) := by
      intro hbytes
      show peer.seqOf offset = _
      rw [(hnext hbytes).1]
    rw [hreceived]
    rcases hsent sent hmem with ⟨hbytes, hack⟩ | ⟨hfin, hack⟩
    · rw [hlength] at hbytes
      rw [hack, hseq (.inl hbytes), hlength, Peer.seqOf_add]
      exact .inl rfl
    refine .inr ⟨?_, ?_⟩
    · rw [hself, hsocket]
      exact if_pos hfin
    · rw [hack, hseq (.inr hfin), hlength, Nat.add_assoc, Peer.seqOf_add, Nat.add_assoc]
  refine ⟨?_, ?_, ?_, fun a ha => ?_⟩
  · show Bound peer i (update k.pool i closed.1)
    rw [hsocket]
    refine h.bound.update rfl rfl rfl rfl rfl ?_
    by_cases hfin : seg.fin
    · exact .inr (.inl (if_pos hfin))
    · refine .inl ?_
      rw [if_neg hfin, hestablished]
  · show (arrived.pool i).rx.Ok socketBufSize
    rw [hrx]
    exact hring.1
  · show k.data ++ (arrived.pool i).rx.queue socketBufSize = peer.slice 0 (arrived.received i)
    rw [hrx, hring.2.1, ← append_assoc, h.data, hpayload, hreceived]
    simpa using peer.slice_append 0 (k.received i) length
  · show a.received ≤ arrived.received i ∧ (a.number = peer.seqOf a.received ∨
      (arrived.pool i).state = .closeWait ∧ a.number = peer.seqOf (a.received + 1))
    rcases mem_append.mp ha with hold | hfresh
    · have hbefore := h.acks a hold
      simp only [hestablished, reduceCtorEq, false_and, or_false] at hbefore
      exact ⟨by omega, .inl hbefore.2⟩
    · obtain ⟨sent, hmem, rfl⟩ := mem_map.mp hfresh
      exact ⟨le_rfl, hnew sent hmem⟩

theorem ConnOk.arrive (h : ConnOk peer i k)
    (horder : Stack.InOrder i k (.arrive offset length ack syn acks fin rst)) :
    ConnOk peer i (k.step peer i (.arrive offset length ack syn acks fin rst)) := by
  obtain ⟨hsyn, hnext⟩ := horder
  have hdemux := demuxTcp_eq h.bound hsyn
    (rfl : (peer.segment offset length ack syn acks fin rst).srcPort = peer.port) rfl
  have hports : (k.pool i).localPort = peer.localPort ∧ (k.pool i).remotePort = peer.port :=
    ⟨h.bound.localPort, h.bound.remotePort⟩
  simp only [Stack.step, Stack.arrive]
  rw [hdemux]
  -- After a FIN or a reset the socket lets every segment pass.
  have hpass : ∀ state, (k.pool i).state = state → state = .closeWait ∨ state = .closed →
      handleSegment (k.pool i) (peer.segment offset length ack syn acks fin rst) = none := by
    rintro state hstate (rfl | rfl)
    all_goals simp [handleSegment, Peer.segment, hports, hstate]
  rcases h.bound.state with hestablished | hended
  · have hhandle : handleSegment (k.pool i)
        (peer.segment offset length ack syn acks fin rst) =
        if rst then some ({ k.pool i with state := .closed }, [])
        else
          let stored := takePayload (k.pool i)
            (peer.segment offset length ack syn acks fin rst)
          let closed := takeFin stored.1 (peer.segment offset length ack syn acks fin rst)
          some (closed.1, stored.2 ++ closed.2) := by
      simp [handleSegment, Peer.segment, hports, hestablished]
    rw [hhandle]
    split_ifs with hrst
    · simp only [Option.elim_some, map_nil, append_nil]
      refine ⟨h.bound.update rfl rfl rfl rfl rfl (.inr (.inr rfl)), ?_, ?_, fun a ha => ?_⟩
      · simpa using h.ring
      · simpa [Stack.received] using h.data
      · have hold := h.acks a ha
        simp only [hestablished, reduceCtorEq, false_and, or_false] at hold
        refine ⟨by simpa [Stack.received] using hold.1, .inl hold.2⟩
    · exact h.stored hestablished fun hbytes => hnext (by simpa using hrst) hestablished hbytes
  · rw [hpass _ rfl hended]
    simpa using h

/-! ## The application's reads -/

theorem recvfrom_inet (hdomain : s.domain = .inet) (len : Nat) :
    (∃ n ≤ s.rx.count, (recvfrom s len).1 = s.consume n ∧
      (recvfrom s len).2.result = .ok (s.rx.peek socketBufSize n)) ∨
    (recvfrom s len).1 = s ∧
      ((recvfrom s len).2.result = .ok [] ∨ ∃ e, (recvfrom s len).2.result = .error e) := by
  unfold recvfrom
  have hunix : s.domain ≠ .unix := by simp [hdomain]
  by_cases huse : s.inUse
  case neg => exact .inr (by simp [huse])
  by_cases hshut : s.readShutdown
  case pos => exact .inr (by simp [huse, hshut])
  by_cases hempty : s.rx.count = 0
  · simp only [huse, hshut, hempty, hunix, Bool.not_true, Bool.false_eq_true, if_true, if_false]
    right
    cases decide (s.kind = .stream) && s.ended <;> simp
  · simp only [huse, hshut, hempty, hunix, Bool.not_true, Bool.false_eq_true, if_false, false_and]
    exact .inl ⟨min len s.rx.count, Nat.min_le_right _ _, rfl, rfl⟩

theorem ConnOk.read (h : ConnOk peer i k) (len : Nat) :
    ConnOk peer i (k.step peer i (.read len)) := by
  rcases recvfrom_inet h.bound.inet len with ⟨n, hn, hafter, hbytes⟩ | ⟨hafter, hbytes⟩
  · have hstep : k.step peer i (.read len) = { k with
        pool := update k.pool i ((k.pool i).consume n)
        data := k.data ++ (k.pool i).rx.peek socketBufSize n } := by
      simp only [Stack.step, Stack.read, hafter, hbytes]
    have hreceived : (k.step peer i (.read len)).received i = k.received i := by
      rw [hstep]
      simp only [Stack.received, update_self, length_append, Socket.consume,
        Buffer.skip, Buffer.peek, length_map, length_range]
      omega
    refine ⟨?_, ?_, ?_, fun a ha => ?_⟩
    · rw [hstep]
      exact h.bound.update rfl rfl rfl rfl rfl h.bound.state
    · simpa [hstep, Socket.consume] using h.ring.skip hn
    · rw [hreceived, ← h.data, hstep]
      simp [Socket.consume, Buffer.peek_append_skip _ hn]
    · rw [hreceived]
      have hsame : ((k.step peer i (.read len)).pool i).state = (k.pool i).state := by
        simp [hstep, Socket.consume]
      rw [hsame]
      rw [hstep] at ha
      exact h.acks a ha
  · have hstep : k.step peer i (.read len) = k := by
      rcases hbytes with hbytes | ⟨e, hbytes⟩
      all_goals simp [Stack.step, Stack.read, hafter, hbytes]
    rw [hstep]
    exact h

/-! ## Whole connections -/

theorem ConnOk.step (h : ConnOk peer i k) (e : Event) (horder : Stack.InOrder i k e) :
    ConnOk peer i (k.step peer i e) := by
  cases e with
  | arrive offset length ack syn acks fin rst => exact h.arrive horder
  | read len => exact h.read len

/-- As long as every segment with bytes or a FIN is the one expected next and finds room, the
application reads a prefix of the peer's stream, the rest of what was received is in the buffer, and
nothing beyond that (the FIN apart) has been acknowledged. -/
theorem tcp_receive_in_order (peer : Peer) (i : Nat) (k : Stack) (hfresh : Fresh peer i k)
    (events : List Event) (horder : Guarded (Stack.step peer i) (Stack.InOrder i) k events) :
    let reached := run (Stack.step peer i) k events
    reached.data = peer.slice 0 reached.data.length ∧
    reached.data ++ (reached.pool i).rx.queue socketBufSize =
      peer.slice 0 (reached.received i) ∧
    ∀ a ∈ reached.acks, a.received ≤ reached.received i ∧
      (a.number = peer.seqOf a.received ∨
        (reached.pool i).state = .closeWait ∧ a.number = peer.seqOf (a.received + 1)) := by
  intro reached
  have hok : ConnOk peer i reached :=
    horder.invariant (ConnOk peer i) (fun _ e hk he => hk.step e he) hfresh.ok
  have hsplit := peer.slice_append 0 reached.data.length (reached.pool i).rx.count
  have hdata := hok.data
  rw [Stack.received, ← hsplit] at hdata
  exact ⟨(append_inj hdata (by simp)).1, hok.data, hok.acks⟩

def countingPeer : Peer := ⟨0x0A000202, 80, 0x0A00020F, 4000, 99, fun n => UInt8.ofNat n⟩

def connectedSocket : Socket :=
  { childSocket (countingPeer.segment 0 0 0 true false false false) with state := .established }

def connectedStack : Stack where
  pool j := { connectedSocket with inUse := decide (j = 0) }
  data := []
  acks := []

theorem connectedStack_fresh : Fresh countingPeer 0 connectedStack where
  bound := ⟨by decide, rfl, rfl, rfl, rfl, rfl, .inl rfl, fun j hj huse => by
    simp [connectedStack, hj] at huse⟩
  ring := ⟨by decide, rfl, by decide⟩
  empty := rfl
  data := rfl
  acks := rfl

def inOrderEvents : List Event :=
  [.arrive 0 2 5001 false true false false, .read 2,
    .arrive 2 1 5001 false true true false, .read 4]

theorem tcp_receive_in_order_two :
    Guarded (Stack.step countingPeer 0) (Stack.InOrder 0) connectedStack inOrderEvents ∧
    let reached := run (Stack.step countingPeer 0) connectedStack inOrderEvents
    reached.data = countingPeer.slice 0 reached.data.length := by
  refine ⟨?order, (tcp_receive_in_order countingPeer 0 connectedStack connectedStack_fresh
    inOrderEvents ?order).1⟩
  refine ⟨⟨rfl, fun _ _ _ => ⟨rfl, by decide⟩⟩, trivial, ⟨rfl, fun _ _ _ => ⟨?_, ?_⟩⟩, trivial,
    trivial⟩
  all_goals decide +kernel

/-- The same segment delivered twice: the application reads its byte twice. -/
theorem tcp_duplicate_read_twice :
    let reached := run (Stack.step countingPeer 0) connectedStack
      [.arrive 0 1 5001 false true false false, .arrive 0 1 5001 false true false false, .read 2]
    reached.data = [0, 0] ∧ countingPeer.slice 0 2 = [0, 1] := by
  decide +kernel

end XsCore.Ipc
