import XsCore.Ipc.Tcp

/-! # Packets from the network

From the bytes of a packet to the socket it changes: `xscore_socket_demux_udp` and the decoding in
`xscore_socket_demux_tcp`.  A packet is the memory from its first byte on with a length; what lies
behind the length is somebody else's.
-/

namespace XsCore.Ipc

open Function List Ring

abbrev Packet := Nat → UInt8

def word16 (packet : Packet) (pos : Nat) : Nat :=
  (packet pos).toNat * 256 + (packet (pos + 1)).toNat

def word32 (packet : Packet) (pos : Nat) : Nat :=
  word16 packet pos * 65536 + word16 packet (pos + 2)

def slice (packet : Packet) (start count : Nat) : List UInt8 :=
  (range count).map fun i => packet (start + i)

def udpHeader : Nat := 8

def tcpHeader : Nat := 20

/-- The socket of `xscore_socket_demux_udp` with the port. -/
def udpSocket (pool : Nat → Socket) (port : Nat) : Option Nat :=
  (range socketMax).find? fun i =>
    (pool i).inUse && decide ((pool i).kind = .dgram) && decide ((pool i).localPort = port)

/-- The length of the payload is the difference of two words. -/
def udpPayload (packet : Packet) : List UInt8 :=
  slice packet udpHeader ((2 ^ 32 + word16 packet 4 - udpHeader) % 2 ^ 32)

def demuxUdp (pool : Nat → Socket) (packet : Packet) (len srcIp : Nat) : Nat → Socket :=
  if len < udpHeader ∨ len < word16 packet 4 then pool
  else
    match udpSocket pool (word16 packet 2) with
    | none => pool
    | some i =>
      let s := { pool i with remoteIp := srcIp, remotePort := word16 packet 0 }
      update pool i (s.store (udpPayload packet))

def decodeTcp (packet : Packet) (len srcIp dstIp : Nat) : Option Segment :=
  let hlen := (packet 12).toNat / 16 * 4
  if len < tcpHeader ∨ len < hlen then none
  else
    let flag := fun n => (packet 13).toNat.testBit n
    some
      { srcIp := srcIp, dstIp := dstIp, srcPort := word16 packet 0, dstPort := word16 packet 2
        seq := word32 packet 4, ack := word32 packet 8, fin := flag 0, syn := flag 1, rst := flag 2
        acks := flag 4, payload := slice packet hlen (len - hlen) }

inductive Protocol where
  | udp | tcp

/-- The dispatch of `kernel/net.c`. -/
def demux (pool : Nat → Socket) (packet : Packet) (len srcIp dstIp : Nat) : Protocol → Nat → Socket
  | .udp => demuxUdp pool packet len srcIp
  | .tcp => (decodeTcp packet len srcIp dstIp).elim pool fun seg => (demuxTcp pool seg).1

/-! ## What a packet may change -/

/-- The socket of the connection, a listening socket for a connection request, or the free slot that
the new connection takes. -/
def TcpTarget (seg : Segment) (s : Socket) : Prop :=
  (s.inUse = false ∧ seg.syn = true) ∨
    (s.domain = .inet ∧ s.kind = .stream ∧ s.localPort = seg.dstPort ∧
      (s.remoteIp = seg.srcIp ∧ s.remotePort = seg.srcPort ∨ s.state = .listen ∧ seg.syn = true))

def UdpTarget (port : Nat) (s : Socket) : Prop :=
  s.domain = .inet ∧ s.kind = .dgram ∧ s.localPort = port ∧ port ≠ 0

structure Demuxed (pool : Nat → Socket) (packet : Packet) (len srcIp dstIp : Nat)
    (protocol : Protocol) : Prop where
  target : ∀ j, demux pool packet len srcIp dstIp protocol j ≠ pool j →
    match protocol with
    | .udp => UdpTarget (word16 packet 2) (pool j)
    | .tcp => ∃ seg ∈ decodeTcp packet len srcIp dstIp, TcpTarget seg (pool j)
  inside : ∀ packet', (∀ i < len, packet' i = packet i) →
    demux pool packet' len srcIp dstIp protocol = demux pool packet len srcIp dstIp protocol

/-! ## When a packet changes only that -/

/-- The socket is one that `xscore_socket_demux_tcp` leaves the scan with, but for listeners. -/
def Socket.heeds (s : Socket) (seg : Segment) : Bool :=
  decide (s.localPort = seg.dstPort ∧ s.remotePort = seg.srcPort) &&
    (decide (s.state = .synSent) && (seg.syn || seg.acks) || decide (s.state = .synRecv) ||
      decide (s.state = .established))

def Socket.listens (s : Socket) (seg : Segment) : Bool :=
  decide (s.state = .listen ∧ s.localPort = seg.dstPort) && seg.syn

/-- The socket of `xscore_socket_demux_tcp` for the segment. -/
def tcpSocket (pool : Nat → Socket) (seg : Segment) (start n : Nat) : Option Nat :=
  (range' start n).find? fun i => (pool i).inUse && decide ((pool i).kind = .stream) &&
    ((pool i).listens seg || (pool i).heeds seg)

def Socket.Full (s : Socket) : Prop := socketBufSize ≤ s.rx.count

/-- A bare acknowledgement, or bytes that were acknowledged before and find no room. -/
structure TcpIdle (s : Socket) (seg : Segment) : Prop where
  state : s.state = .established ∨ s.state = .synRecv ∧ seg.acks = false
  flags : seg.rst = false ∧ seg.fin = false
  payload : seg.payload = [] ∨ s.Full ∧ s.ack = (seg.seq + seg.payload.length) % 2 ^ 32

/-- The socket that is found belongs to the sender, or nothing changes. -/
def TcpClear (pool : Nat → Socket) (seg : Segment) (i : Nat) : Prop :=
  if (pool i).listens seg then
    (pool i).domain = .inet ∨
      ∀ c ∈ (range socketMax).find? (fun c => !(pool c).inUse), (pool i).pending = some c
  else (pool i).domain = .inet ∧ (pool i).remoteIp = seg.srcIp ∨ TcpIdle (pool i) seg

def UdpIdle (s : Socket) (packet : Packet) (srcIp : Nat) : Prop :=
  s.remoteIp = srcIp ∧ s.remotePort = word16 packet 0 ∧ (word16 packet 4 = udpHeader ∨ s.Full)

/-- The socket that is found is bound to the port, or nothing changes, and the length field is that
of a datagram, or the room in the socket ends before the packet does. -/
def UdpClear (s : Socket) (packet : Packet) (len srcIp : Nat) : Prop :=
  (s.domain = .inet ∧ word16 packet 2 ≠ 0 ∨ UdpIdle s packet srcIp) ∧
    (udpHeader ≤ word16 packet 4 ∨ udpHeader + (socketBufSize - s.rx.count) ≤ len)

def Clear (pool : Nat → Socket) (packet : Packet) (len srcIp dstIp : Nat) : Protocol → Prop
  | .udp => udpHeader ≤ len → word16 packet 4 ≤ len →
      ∀ i ∈ udpSocket pool (word16 packet 2), UdpClear (pool i) packet len srcIp
  | .tcp => ∀ seg ∈ decodeTcp packet len srcIp dstIp, ∀ i ∈ tcpSocket pool seg 0 socketMax,
      TcpClear pool seg i

variable {pool : Nat → Socket} {seg : Segment} {packet packet' : Packet}
  {len srcIp dstIp i j : Nat} {s : Socket} {payload : List UInt8}

/-! ## The bytes that are stored -/

theorem store_full (h : s.Full) (payload : List UInt8) : s.store payload = s := by
  induction payload with
  | nil => rfl
  | cons byte payload ih =>
    rw [Socket.store, foldl_cons, if_neg (Nat.not_lt.mpr h), ← Socket.store, ih]

theorem count_le_store (s : Socket) (payload : List UInt8) :
    s.rx.count ≤ (s.store payload).rx.count := by
  induction payload generalizing s with
  | nil => exact le_rfl
  | cons byte payload ih =>
    rw [Socket.store, foldl_cons, ← Socket.store]
    refine le_trans ?_ (ih _)
    split_ifs
    · exact Nat.le_succ _
    · exact le_rfl

theorem store_count_eq_iff : (s.store payload).rx.count = s.rx.count ↔ payload = [] ∨ s.Full := by
  by_cases hfull : s.Full
  · simp [store_full hfull, hfull]
  rcases payload with _ | ⟨byte, payload⟩
  · simp [Socket.store]
  have hgrown := count_le_store { s with rx := s.rx.put socketBufSize byte } payload
  rw [Socket.store, foldl_cons, if_pos (Nat.not_le.mp hfull), ← Socket.store]
  simp only [hfull, or_false, reduceCtorEq, iff_false]
  exact (Nat.lt_of_succ_le hgrown).ne'

theorem handleSegment_isSome : (handleSegment s seg).isSome = s.heeds seg := by
  unfold handleSegment Socket.heeds
  cases s.state <;> cases seg.syn <;> cases seg.acks <;> split_ifs <;> simp_all

theorem takePayload_idle : (takePayload s seg).1 = s ↔
    seg.payload = [] ∨ s.Full ∧ s.ack = (seg.seq + seg.payload.length) % 2 ^ 32 := by
  unfold takePayload
  split_ifs with hempty
  · simp [hempty]
  simp only [hempty, false_or]
  constructor
  · intro hsame
    have hcount := store_count_eq_iff.mp (congrArg (·.rx.count) hsame)
    exact ⟨hcount.resolve_left hempty, (congrArg Socket.ack hsame).symm⟩
  · rintro ⟨hfull, hack⟩
    rw [store_full hfull, ← hack]

theorem handleSegment_some {s : Socket} {r : Socket × List Segment}
    (h : handleSegment s seg = some r) :
    s.localPort = seg.dstPort ∧ s.remotePort = seg.srcPort ∧ s.state ≠ .listen := by
  have hports : s.localPort = seg.dstPort ∧ s.remotePort = seg.srcPort := by
    by_contra hports
    rw [handleSegment_other hports] at h
    cases h
  refine ⟨hports.1, hports.2, fun hlisten => ?_⟩
  simp [handleSegment, hports, hlisten] at h

/-- A segment that a socket heeds changes its state, its numbers or its buffer, or is idle. -/
theorem handleSegment_idle {r : Socket × List Segment} (h : handleSegment s seg = some r) :
    r.1 = s ↔ TcpIdle s seg := by
  have hmoved : ∀ {t : Socket} {p : Prop}, t.state ≠ s.state → ¬ p → (t = s ↔ p) :=
    fun hne hp => iff_of_false (fun heq => hne (by rw [heq])) hp
  unfold handleSegment at h
  split_ifs at h with hports hsent hrecv hopen hrst
  · rw [← Option.some.inj h]
    refine hmoved (by simp [hsent.1]) ?_
    rintro ⟨hstate, -, -⟩
    simp [hsent.1] at hstate
  · rw [← Option.some.inj h]
    refine hmoved (by simp [hrecv.1]) ?_
    rintro ⟨hstate, -, -⟩
    simp [hrecv.1, hrecv.2] at hstate
  · rw [← Option.some.inj h]
    refine hmoved (by rcases hopen with hopen | hopen <;> simp [hopen]) ?_
    rintro ⟨-, hflags, -⟩
    simp [hrst] at hflags
  · rw [← Option.some.inj h]
    cases hfin : seg.fin with
    | true =>
      rw [takeFin, if_pos hfin]
      refine hmoved (by rcases hopen with hopen | hopen <;> simp [hopen]) ?_
      rintro ⟨-, hflags, -⟩
      simp [hfin] at hflags
    | false =>
      rw [takeFin, if_neg (by simp [hfin]), takePayload_idle]
      refine ⟨fun hpayload => ⟨?_, ⟨by simpa using hrst, hfin⟩, hpayload⟩, TcpIdle.payload⟩
      exact hopen.imp_right fun hstate => ⟨hstate, by simpa [hstate] using hrecv⟩

/-! ## The socket that is found -/

/-- What becomes of the pool once the scan of `xscore_socket_demux_tcp` stops at a socket. -/
def tcpGiven (pool : Nat → Socket) (seg : Segment) (i : Nat) : Nat → Socket :=
  if (pool i).listens seg then (acceptSyn pool i seg).1
  else (handleSegment (pool i) seg).elim pool fun r => update pool i r.1

theorem demuxFrom_eq (pool : Nat → Socket) (seg : Segment) (n start : Nat) :
    (demuxFrom pool seg n start).1 =
      (tcpSocket pool seg start n).elim pool (tcpGiven pool seg) := by
  induction n generalizing start with
  | zero => rfl
  | succ n ih =>
    have hlisten : ((pool start).state = .listen ∧ (pool start).localPort = seg.dstPort ∧
        seg.syn = true) ↔ (pool start).listens seg := by
      simp [Socket.listens, and_assoc]
    rw [demuxFrom, tcpSocket, range'_succ, find?_cons, ← tcpSocket]
    cases huse : (pool start).inUse && decide ((pool start).kind = .stream) with
    | false =>
      rw [if_pos (by simpa [imp_iff_not_or, or_comm] using huse)]
      exact ih (start + 1)
    | true =>
      simp only [Bool.and_eq_true, decide_eq_true_eq] at huse
      rw [if_neg (by simp [huse]), if_congr hlisten rfl rfl]
      cases hlistens : (pool start).listens seg with
      | true => simp [tcpGiven, hlistens]
      | false =>
        have hheeds : _ = (pool start).heeds seg := handleSegment_isSome
        cases hhandle : handleSegment (pool start) seg with
        | none => simpa [hhandle, ← hheeds] using ih (start + 1)
        | some r => simp [hhandle, ← hheeds, tcpGiven, hlistens]

theorem tcpSocket_spec (h : tcpSocket pool seg 0 socketMax = some i) : (pool i).inUse ∧
    (pool i).kind = .stream ∧ ((pool i).listens seg ∨ (pool i).heeds seg) := by
  simpa [and_assoc] using find?_some h

/-- Where the other changes are right ones, it comes down to the socket that is found. -/
theorem update_target_iff {pool' : Nat → Socket} {target : Socket → Prop} (t : Socket) {p : Prop}
    (hother : ∀ j, j ≠ i → pool' j ≠ pool j → target (pool j)) (hp : target (pool i) ↔ p) :
    (∀ j, update pool' i t j ≠ pool j → target (pool j)) ↔ (p ∨ t = pool i) := by
  constructor
  · intro hall
    by_cases hsame : t = pool i
    · exact .inr hsame
    · exact .inl (hp.mp (hall i (by simpa using hsame)))
  · intro hor j hj
    by_cases hji : j = i
    · subst hji
      rw [update_self] at hj
      exact hp.mpr (hor.resolve_right hj)
    · rw [update_of_ne hji] at hj
      exact hother j hji hj

theorem tcpGiven_target_iff (h : tcpSocket pool seg 0 socketMax = some i) :
    (∀ j, tcpGiven pool seg i j ≠ pool j → TcpTarget seg (pool j)) ↔ TcpClear pool seg i := by
  obtain ⟨huse, hkind, htakes⟩ := tcpSocket_spec h
  unfold tcpGiven TcpClear
  cases hlistens : (pool i).listens seg with
  | true =>
    have hlisten : ((pool i).state = .listen ∧ (pool i).localPort = seg.dstPort) ∧ seg.syn := by
      simpa [Socket.listens] using hlistens
    rw [if_pos rfl, if_pos rfl, acceptSyn]
    cases hfree : (range socketMax).find? fun c => !(pool c).inUse with
    | none => simp
    | some c =>
      have hc : (pool c).inUse = false := by simpa using find?_some hfree
      have htarget : TcpTarget seg (pool i) ↔ (pool i).domain = .inet := by
        simp [TcpTarget, huse, hkind, hlisten]
      refine (update_target_iff _ ?_ htarget).trans (or_congr Iff.rfl ?_)
      · intro j _ hj
        by_cases hjc : j = c
        · rw [hjc]
          exact .inl ⟨hc, hlisten.2⟩
        · exact absurd (update_of_ne hjc _ _) hj
      · constructor
        · intro hsame c' hc'
          rw [← Option.some.inj hc', ← hsame]
        · intro hpending
          rw [← hpending c rfl]
  | false =>
    have hheeds : (pool i).heeds seg := by simpa [hlistens] using htakes
    rw [← handleSegment_isSome, Option.isSome_iff_exists] at hheeds
    obtain ⟨r, hhandle⟩ := hheeds
    obtain ⟨hlocal, hremote, hstate⟩ := handleSegment_some hhandle
    rw [if_neg (by simp), if_neg (by simp), hhandle, ← handleSegment_idle hhandle]
    have htarget : TcpTarget seg (pool i) ↔
        (pool i).domain = .inet ∧ (pool i).remoteIp = seg.srcIp := by
      simp [TcpTarget, huse, hkind, hlocal, hremote, hstate]
    exact update_target_iff r.1 (fun j _ hj => absurd rfl hj) htarget

/-! ## Datagrams -/

theorem store_eq_rx (s : Socket) (payload : List UInt8) :
    s.store payload = { s with rx := (s.store payload).rx } := by
  induction payload generalizing s with
  | nil => rfl
  | cons byte payload ih =>
    rw [Socket.store, foldl_cons, ← Socket.store]
    split_ifs
    · rw [ih]
    · exact ih s

theorem store_take (s : Socket) (payload : List UInt8) :
    s.store payload = s.store (payload.take (socketBufSize - s.rx.count)) := by
  induction payload generalizing s with
  | nil => simp
  | cons byte payload ih =>
    by_cases hfull : s.Full
    · rw [store_full hfull, store_full hfull]
    have hroom := Nat.not_le.mp hfull
    obtain ⟨n, hn⟩ := Nat.exists_eq_succ_of_ne_zero (Nat.sub_ne_zero_of_lt hroom)
    have hn' : socketBufSize -
        ({ s with rx := s.rx.put socketBufSize byte } : Socket).rx.count = n := by
      show socketBufSize - (s.rx.count + 1) = n
      omega
    rw [hn, take_succ_cons, Socket.store, foldl_cons, if_pos hroom, ← Socket.store, ih, hn',
      Socket.store, Socket.store, foldl_cons, if_pos hroom]

theorem udpPayload_eq_nil_iff : udpPayload packet = [] ↔ word16 packet 4 = udpHeader := by
  have hlow := (packet 4).toNat_lt
  have hhigh := (packet 5).toNat_lt
  have hheader : udpHeader = 8 := rfl
  have hword : word16 packet 4 = (packet 4).toNat * 256 + (packet 5).toNat := rfl
  simp only [udpPayload, slice, map_eq_nil_iff, range_eq_nil]
  omega

theorem udp_idle_iff : ({ s with remoteIp := srcIp, remotePort := word16 packet 0 }.store
    (udpPayload packet)) = s ↔ UdpIdle s packet srcIp := by
  rw [store_eq_rx]
  constructor
  · intro hsame
    have hcount := congrArg (·.rx.count) hsame
    have hkept := store_count_eq_iff.mp hcount
    rw [udpPayload_eq_nil_iff] at hkept
    exact ⟨(congrArg Socket.remoteIp hsame).symm, (congrArg Socket.remotePort hsame).symm, hkept⟩
  · rintro ⟨hip, hport, hkept⟩
    rw [← hip, ← hport]
    rw [← udpPayload_eq_nil_iff] at hkept
    rcases hkept with hempty | hfull
    · rw [hempty]
      rfl
    · rw [store_full hfull]

section

variable (hsame : ∀ i < len, packet' i = packet i)
include hsame

theorem word16_same {pos : Nat} (hpos : pos + 1 < len) :
    word16 packet' pos = word16 packet pos := by
  rw [word16, word16, hsame _ hpos, hsame pos (by omega)]

theorem slice_same {start count : Nat} (hend : start + count ≤ len) :
    slice packet' start count = slice packet start count := by
  refine map_congr_left fun i hi => hsame _ ?_
  have := mem_range.mp hi
  omega

theorem decodeTcp_inside :
    decodeTcp packet' len srcIp dstIp = decodeTcp packet len srcIp dstIp := by
  unfold decodeTcp word32
  by_cases hshort : len < tcpHeader
  · rw [if_pos (.inl hshort), if_pos (.inl hshort)]
  have hheader : tcpHeader = 20 := rfl
  rw [hsame 12 (by omega)]
  dsimp only
  split_ifs with hlong
  · rfl
  have hwords : ∀ pos < 18, word16 packet' pos = word16 packet pos := fun pos hpos =>
    word16_same hsame (by omega)
  rw [hsame 13 (by omega), slice_same hsame (by omega)]
  simp [hwords]

end

theorem take_slice (packet : Packet) (start : Nat) {count k : Nat} (hk : k ≤ count) :
    (slice packet start count).take k = slice packet start k := by
  rw [slice, ← map_take, take_range, Nat.min_eq_left hk, slice]

theorem slice_succ (packet : Packet) (start k : Nat) :
    slice packet start (k + 1) = slice packet start k ++ [packet (start + k)] := by
  rw [slice, range_succ, map_append, slice]
  rfl

/-- With a length field below that of the header, what fits in the socket is taken from wherever it
lies. -/
theorem store_short (s : Socket) (hshort : word16 packet 4 < udpHeader) :
    s.store (udpPayload packet) =
      s.store (slice packet udpHeader (socketBufSize - s.rx.count)) := by
  have hheader : udpHeader = 8 := rfl
  have hsize : socketBufSize = 8192 := rfl
  rw [store_take, udpPayload, take_slice]
  omega

theorem udp_inside_iff (hlen : udpHeader ≤ len) (hle : word16 packet 4 ≤ len) :
    (∀ packet', (∀ i < len, packet' i = packet i) →
        s.store (udpPayload packet') = s.store (udpPayload packet)) ↔
      udpHeader ≤ word16 packet 4 ∨ udpHeader + (socketBufSize - s.rx.count) ≤ len := by
  have hheader : udpHeader = 8 := rfl
  have hwords : ∀ packet' : Packet, (∀ i < len, packet' i = packet i) →
      word16 packet' 4 = word16 packet 4 := fun packet' hsame => word16_same hsame (by omega)
  by_cases hshort : word16 packet 4 < udpHeader
  · simp only [Nat.not_le.mpr hshort, false_or]
    constructor
    · intro hall
      by_contra hlong
      obtain ⟨k, hk⟩ := Nat.exists_eq_succ_of_ne_zero
        (show socketBufSize - s.rx.count ≠ 0 by omega)
      -- a packet that differs in the last byte that is stored, which lies behind the packet
      generalize hlast : packet (udpHeader + k) = byte
      have hsame : ∀ i < len, update packet (udpHeader + k) (byte + 1) i = packet i :=
        fun i hi => update_of_ne (by omega) _ _
      have heq := hall _ hsame
      have hfront : slice (update packet (udpHeader + k) (byte + 1)) udpHeader k =
          slice packet udpHeader k := by
        refine map_congr_left fun i hi => update_of_ne ?_ _ _
        have := mem_range.mp hi
        omega
      have hroom : ∀ x : UInt8, s.rx.count + (slice packet udpHeader k ++ [x]).length ≤
          socketBufSize := by
        intro x
        simp only [slice, length_append, length_map, length_range, length_singleton]
        omega
      rw [store_short s (by rwa [hwords _ hsame]), store_short s hshort, hk, slice_succ, slice_succ,
        hfront, update_self, hlast, store_eq _ _ (hroom _), store_eq _ _ (hroom _),
        Buffer.putAll, Buffer.putAll, foldl_append, foldl_append] at heq
      have hcell := congrFun (congrArg (·.rx.cells) heq)
        ((slice packet udpHeader k).foldl (Buffer.put socketBufSize) s.rx).writePos
      simp [Buffer.put] at hcell
    · intro hroom packet' hsame
      rw [store_short s (by rwa [hwords _ hsame]), store_short s hshort, slice_same hsame hroom]
  · refine iff_of_true (fun packet' hsame => ?_) (.inl (Nat.not_lt.mp hshort))
    rw [udpPayload, udpPayload, hwords _ hsame, slice_same hsame (by omega)]

theorem demuxUdp_kept (h : len < udpHeader ∨ len < word16 packet 4 ∨
    udpSocket pool (word16 packet 2) = none) : demuxUdp pool packet len srcIp = pool := by
  unfold demuxUdp
  split_ifs with hdrop
  · rfl
  · rw [(h.resolve_left fun hlt => hdrop (.inl hlt)).resolve_left fun hlt => hdrop (.inr hlt)]

theorem demuxUdp_found (hlen : udpHeader ≤ len) (hle : word16 packet 4 ≤ len)
    (hfind : udpSocket pool (word16 packet 2) = some i) : demuxUdp pool packet len srcIp =
      update pool i ({ pool i with remoteIp := srcIp, remotePort := word16 packet 0 }.store
        (udpPayload packet)) := by
  rw [demuxUdp, if_neg (by omega), hfind]

theorem demuxed_udp_iff :
    Demuxed pool packet len srcIp dstIp .udp ↔ Clear pool packet len srcIp dstIp .udp := by
  have hheader : udpHeader = 8 := rfl
  have hsplit : Demuxed pool packet len srcIp dstIp .udp ↔
      (∀ j, demuxUdp pool packet len srcIp j ≠ pool j → UdpTarget (word16 packet 2) (pool j)) ∧
        ∀ packet', (∀ i < len, packet' i = packet i) →
          demuxUdp pool packet' len srcIp = demuxUdp pool packet len srcIp :=
    ⟨fun h => ⟨h.target, h.inside⟩, fun h => ⟨h.1, h.2⟩⟩
  have hkept : (∀ packet', (∀ i < len, packet' i = packet i) →
      demuxUdp pool packet' len srcIp = pool) → Demuxed pool packet len srcIp dstIp .udp := by
    intro hall
    have hself := hall packet fun _ _ => rfl
    exact hsplit.mpr ⟨fun j hj => absurd (by rw [hself]) hj,
      fun packet' hsame => (hall packet' hsame).trans hself.symm⟩
  by_cases hlen : len < udpHeader
  · exact iff_of_true (hkept fun packet' _ => demuxUdp_kept (.inl hlen))
      fun h => absurd h (by omega)
  have hwords : ∀ packet' : Packet, (∀ i < len, packet' i = packet i) → ∀ pos < 7,
      word16 packet' pos = word16 packet pos :=
    fun packet' hsame pos hpos => word16_same hsame (by omega)
  by_cases hle : len < word16 packet 4
  · refine iff_of_true (hkept fun packet' hsame => demuxUdp_kept ?_) fun _ h => absurd h (by omega)
    exact .inr (.inl (by rwa [hwords packet' hsame 4 (by omega)]))
  rw [not_lt] at hlen hle
  rcases hfind : udpSocket pool (word16 packet 2) with _ | i
  · refine iff_of_true (hkept fun packet' hsame => demuxUdp_kept ?_) fun _ _ => by simp [hfind]
    exact .inr (.inr (by rwa [hwords packet' hsame 2 (by omega)]))
  obtain ⟨-, hkind, hport⟩ : (pool i).inUse ∧ (pool i).kind = .dgram ∧
      (pool i).localPort = word16 packet 2 := by simpa [and_assoc] using find?_some hfind
  have htarget : UdpTarget (word16 packet 2) (pool i) ↔
      (pool i).domain = .inet ∧ word16 packet 2 ≠ 0 := by
    simp [UdpTarget, hkind, hport]
  have hclear : Clear pool packet len srcIp dstIp .udp ↔ UdpClear (pool i) packet len srcIp := by
    simp [Clear, hlen, hle, hfind]
  rw [hsplit, hclear, demuxUdp_found hlen hle hfind, UdpClear, ← udp_idle_iff]
  refine and_congr (update_target_iff _ (fun j _ hj => absurd rfl hj) htarget) (Iff.trans ?_
    (udp_inside_iff (s := { pool i with remoteIp := srcIp, remotePort := word16 packet 0 })
      hlen hle))
  refine forall₂_congr fun packet' hsame => ?_
  have hsame' := hwords packet' hsame
  rw [demuxUdp_found hlen (by rwa [hsame' 4 (by omega)]) (by rwa [hsame' 2 (by omega)]),
    hsame' 0 (by omega), (update_injective pool i).eq_iff]

/-- A packet changes only the socket it is for and takes only its own bytes exactly when the socket
that is found is the right one or stays as it is. -/
theorem inbound_demux (pool : Nat → Socket) (packet : Packet) (len srcIp dstIp : Nat)
    (protocol : Protocol) : Demuxed pool packet len srcIp dstIp protocol ↔
      Clear pool packet len srcIp dstIp protocol := by
  cases protocol with
  | udp => exact demuxed_udp_iff
  | tcp =>
    have htarget : (∀ j, demux pool packet len srcIp dstIp .tcp j ≠ pool j →
        ∃ seg ∈ decodeTcp packet len srcIp dstIp, TcpTarget seg (pool j)) ↔
        Clear pool packet len srcIp dstIp .tcp := by
      unfold demux Clear
      rcases decodeTcp packet len srcIp dstIp with _ | seg
      · simp
      rw [Option.elim_some, demuxTcp, demuxFrom_eq]
      rcases hfind : tcpSocket pool seg 0 socketMax with _ | i
      · simp [hfind]
      · simpa [hfind] using tcpGiven_target_iff hfind
    rw [← htarget]
    refine ⟨fun h => h.target, fun h => ⟨h, fun packet' hsame => ?_⟩⟩
    rw [demux, demux, decodeTcp_inside hsame]

def resetPacket : Packet := fun i => [0, 80, 15, 160, 0, 0, 0, 0, 0, 0, 0, 0, 80, 4].getD i 0

/-- The address a segment comes from is not looked at: anybody can reset a connection. -/
theorem stranger_resets_connection : ¬ Demuxed connectedStack.pool resetPacket 20 1 2 .tcp := by
  intro h
  have hreset : demux connectedStack.pool resetPacket 20 1 2 .tcp 0 ≠ connectedStack.pool 0 :=
    fun hsame => absurd (congrArg Socket.state hsame) (by decide +kernel)
  obtain ⟨seg, hseg, htarget⟩ := h.target 0 hreset
  cases hseg
  unfold TcpTarget at htarget
  exact absurd htarget (by decide +kernel)

end XsCore.Ipc
