import XsCore.Ipc.Demux

/-! # Datagrams

A datagram socket between `xscore_socket_demux_udp` and `xscore_socket_recvfrom`.  The payloads of
all datagrams share the ring of the socket, and their senders share its two fields for the remote
end, so a datagram is received as it was sent only while it is alone.
-/

namespace XsCore.Ipc

open Ring Machine Function List

structure Datagram where
  ip : Nat
  port : Nat
  payload : List UInt8
  deriving DecidableEq

/-- What the packet brings to socket `i`. -/
def delivered (i : Nat) (pool : Nat → Socket) (packet : Packet) (len srcIp : Nat) : List Datagram :=
  if len < udpHeader ∨ len < word16 packet 4 ∨ udpSocket pool (word16 packet 2) ≠ some i then []
  else [⟨srcIp, word16 packet 0, udpPayload packet⟩]

/-- The sockets, and the datagrams that were delivered to one of them and not yet received. -/
structure UdpSession where
  pool : Nat → Socket
  waiting : List Datagram

inductive UdpStep where
  | packet (packet : Packet) (len srcIp : Nat)
  | recv (len : Nat)

namespace UdpSession

variable (i : Nat) (s : UdpSession)

def step : UdpStep → UdpSession
  | .packet packet len srcIp =>
    ⟨demuxUdp s.pool packet len srcIp, s.waiting ++ delivered i s.pool packet len srcIp⟩
  | .recv len =>
    let out := recvfrom (s.pool i) len
    ⟨update s.pool i out.1, match out.2.result with
      | .ok _ => s.waiting.tail
      | .error _ => s.waiting⟩

/-- A receive that succeeds returns the first datagram, cut to the buffer, and its sender. -/
def OneDatagram : Prop :=
  ∀ len bytes, (recvfrom (s.pool i) len).2.result = .ok bytes → ∃ d ∈ s.waiting.head?,
    bytes = d.payload.take len ∧ (s.pool i).remoteIp = d.ip ∧ (s.pool i).remotePort = d.port

/-- A datagram has a payload that fits and comes when the last one has been received, and a buffer
takes the whole datagram. -/
def Apart : UdpStep → Prop
  | .packet packet len srcIp => ∀ d ∈ delivered i s.pool packet len srcIp,
    (s.pool i).rx.count = 0 ∧ d.payload ≠ [] ∧ d.payload.length ≤ socketBufSize
  | .recv len => (s.pool i).rx.count ≤ len

/-- Socket `i` is an open datagram socket, and what is in its ring is the datagram that waits. -/
structure Whole : Prop where
  inUse : (s.pool i).inUse = true
  domain : (s.pool i).domain = .inet
  kind : (s.pool i).kind = .dgram
  reads : (s.pool i).readShutdown = false
  ring : (s.pool i).rx.Ok socketBufSize
  waiting : s.waiting = [] ∧ (s.pool i).rx.count = 0 ∨
    ∃ d, s.waiting = [d] ∧ (s.pool i).rx.queue socketBufSize = d.payload ∧ d.payload ≠ [] ∧
      (s.pool i).remoteIp = d.ip ∧ (s.pool i).remotePort = d.port

variable {i s}

theorem Whole.recvfrom_eq (h : Whole i s) (len : Nat) : recvfrom (s.pool i) len =
      if (s.pool i).rx.count = 0 then (s.pool i, ⟨.error .again, []⟩)
      else ((s.pool i).consume (min len (s.pool i).rx.count),
        ⟨.ok ((s.pool i).rx.peek socketBufSize (min len (s.pool i).rx.count)), []⟩) := by
  simp [recvfrom, h.inUse, h.domain, h.kind, h.reads]

theorem Whole.oneDatagram (h : Whole i s) : OneDatagram i s := by
  intro len bytes hbytes
  rw [h.recvfrom_eq] at hbytes
  split_ifs at hbytes with hempty
  cases hbytes
  rcases h.waiting with ⟨-, hzero⟩ | ⟨d, hwaiting, hqueue, -, hsender⟩
  · exact absurd hzero hempty
  have hcount : (s.pool i).rx.count = d.payload.length := by rw [← hqueue, Buffer.length_queue]
  refine ⟨d, by simp [hwaiting], ?_, hsender⟩
  rw [Buffer.peek_eq _ (Nat.min_le_right _ _), hqueue, hcount, ← take_eq_take_min]

theorem demuxUdp_eq (i : Nat) (pool : Nat → Socket) (packet : Packet) (len srcIp : Nat) :
    demuxUdp pool packet len srcIp i = (delivered i pool packet len srcIp).foldl
      (fun s d => { s with remoteIp := d.ip, remotePort := d.port }.store d.payload) (pool i) := by
  unfold demuxUdp delivered
  by_cases hshort : len < udpHeader ∨ len < word16 packet 4
  · rw [if_pos hshort, if_pos (or_assoc.mp (.inl hshort))]
    rfl
  rw [if_neg hshort]
  rcases hfound : udpSocket pool (word16 packet 2) with _ | j
  · simp
  by_cases hj : j = i
  · subst hj
    rw [if_neg (by simpa using hshort)]
    exact update_self _ _ _
  · rw [if_pos (.inr (.inr (by simpa using hj)))]
    exact update_of_ne (Ne.symm hj) _ _

theorem Whole.packet (h : Whole i s) {packet : Packet} {len srcIp : Nat}
    (hapart : Apart i s (.packet packet len srcIp)) :
    Whole i (s.step i (.packet packet len srcIp)) := by
  have hpool := demuxUdp_eq i s.pool packet len srcIp
  have hone : (delivered i s.pool packet len srcIp).length ≤ 1 := by
    unfold delivered
    split_ifs <;> simp
  simp only [step, Apart] at hapart ⊢
  generalize delivered i s.pool packet len srcIp = ds at hpool hone hapart
  match ds with
  | [] =>
    rw [append_nil]
    constructor <;> simp only [hpool, foldl_nil]
    exacts [h.inUse, h.domain, h.kind, h.reads, h.ring, h.waiting]
  | [d] =>
    obtain ⟨hempty, hpayload, hfits⟩ := hapart d (by simp)
    have hring := Buffer.putAll_spec h.ring d.payload (by omega)
    have hnone : (s.pool i).rx.queue socketBufSize = [] :=
      eq_nil_of_length_eq_zero (by rw [Buffer.length_queue, hempty])
    have hwaiting : s.waiting = [] := by
      rcases h.waiting with ⟨hwaiting, -⟩ | ⟨d, -, hqueue, hsome, -⟩
      · exact hwaiting
      · exact absurd (hqueue.symm.trans hnone) hsome
    have hqueue := hring.2.1
    rw [hnone, nil_append] at hqueue
    rw [foldl_cons, foldl_nil, store_eq _ _ (by simpa [hempty] using hfits)] at hpool
    rw [hwaiting, nil_append]
    constructor <;> simp only [hpool]
    exacts [h.inUse, h.domain, h.kind, h.reads, hring.1, .inr ⟨d, rfl, hqueue, hpayload, rfl, rfl⟩]

theorem Whole.recv (h : Whole i s) {len : Nat} (hapart : Apart i s (.recv len)) :
    Whole i (s.step i (.recv len)) := by
  have hall : min len (s.pool i).rx.count = (s.pool i).rx.count := Nat.min_eq_right hapart
  simp only [step, h.recvfrom_eq, hall]
  split_ifs with hempty
  · rw [update_eq_self]
    exact h
  have hskip := h.ring.skip (Nat.le_refl (s.pool i).rx.count)
  constructor <;> simp only [update_self]
  · exact h.inUse
  · exact h.domain
  · exact h.kind
  · exact h.reads
  · exact hskip
  · refine .inl ⟨?_, Nat.sub_self _⟩
    rcases h.waiting with ⟨hwaiting, -⟩ | ⟨d, hwaiting, -⟩ <;> rw [hwaiting] <;> rfl

end UdpSession

open UdpSession

theorem datagrams_received_whole (i : Nat) {s : UdpSession} (hstart : Whole i s)
    {steps : List UdpStep} (hapart : Guarded (step i) (Apart i) s steps) :
    OneDatagram i (run (step i) s steps) := by
  refine (hapart.invariant (Whole i) (fun s op h hop => ?_) hstart).oneDatagram
  cases op with
  | packet packet len srcIp => exact h.packet hop
  | recv len => exact h.recv hop

/-- A datagram of one byte for port 7. -/
def datagramFrom (sender byte : UInt8) : Packet := fun i =>
  [0, sender, 0, 7, 0, 9, 0, 0, byte].getD i 0

def portSeven : UdpSession := ⟨fun _ => { connectedSocket with kind := .dgram, localPort := 7 }, []⟩

theorem portSeven_whole : Whole 0 portSeven :=
  ⟨rfl, rfl, rfl, rfl, ⟨by decide, rfl, by decide⟩, .inl ⟨rfl, rfl⟩⟩

theorem datagrams_received_whole_one :
    OneDatagram 0 (run (step 0) portSeven
      [.packet (datagramFrom 1 10) 9 1, .recv 4, .packet (datagramFrom 2 20) 9 1]) := by
  refine datagrams_received_whole 0 portSeven_whole ⟨fun d hd => ?_, ?_, fun d hd => ?_, trivial⟩
  · have hone : delivered 0 portSeven.pool (datagramFrom 1 10) 9 1 = [⟨1, 1, [10]⟩] := by
      decide +kernel
    rw [hone, mem_singleton] at hd
    subst hd
    decide
  · unfold Apart
    decide +kernel
  · have hone : delivered 0 ((portSeven.step 0 (.packet (datagramFrom 1 10) 9 1)).step 0
        (.recv 4)).pool (datagramFrom 2 20) 9 1 = [⟨1, 2, [20]⟩] := by
      decide +kernel
    rw [hone, mem_singleton] at hd
    subst hd
    decide +kernel

theorem datagrams_merged : ¬ OneDatagram 0 (run (step 0) portSeven
    [.packet (datagramFrom 1 10) 9 1, .packet (datagramFrom 2 20) 9 1]) := by
  intro h
  obtain ⟨d, hd, hbytes, -⟩ := h 4 [10, 20] (by decide +kernel)
  have hfirst : some ⟨1, 1, [10]⟩ = some d := by
    rw [← hd]
    decide +kernel
  cases hfirst
  exact absurd hbytes (by decide)

end XsCore.Ipc
