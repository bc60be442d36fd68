import XsCore.Foundation.Bytes
import XsCore.Ipc.Tcp

/-! # Checksums of transmitted segments

`net_checksum` and `tcp_checksum` add up 16-bit words as the machine reads them, with the low byte
first.  The receiver adds them up in network order; modulo `2 ^ 16 - 1` that is 256 times the sum.
-/

namespace XsCore.Ipc

open Bytes List

def wordSum : List UInt8 → Nat
  | [] => 0
  | [a] => a.toNat
  | a :: b :: rest => a.toNat + 256 * b.toNat + wordSum rest

def networkSum : List UInt8 → Nat
  | [] => 0
  | [a] => 256 * a.toNat
  | a :: b :: rest => 256 * a.toNat + b.toNat + networkSum rest

/-- The last loop of both functions: carries are added in again. -/
def foldCarries (sum : Nat) : Nat :=
  if sum < 2 ^ 16 then sum else foldCarries (sum % 2 ^ 16 + sum / 2 ^ 16)
termination_by sum
decreasing_by omega

def netChecksum (bytes : List UInt8) : Nat := 2 ^ 16 - 1 - foldCarries (wordSum bytes % 2 ^ 32)

def beBytes (width n : Nat) : List UInt8 := (leBytes width n).reverse

def pseudoHeader (srcIp dstIp len : Nat) : List UInt8 :=
  leBytes 4 srcIp ++ leBytes 4 dstIp ++ [0, 6] ++ beBytes 2 len

def tcpChecksum (srcIp dstIp : Nat) (segment : List UInt8) : Nat :=
  let sum := wordSum (pseudoHeader srcIp dstIp segment.length) + wordSum segment
  2 ^ 16 - 1 - foldCarries (sum % 2 ^ 32)

def gatewayMac : List UInt8 := [0x52, 0x54, 0x00, 0x12, 0x34, 0x56]

def ethHeader (sock : Socket) : List UInt8 :=
  (if sock.remoteIp = 127 + 2 ^ 24 then replicate 6 0 else gatewayMac) ++ gatewayMac ++ [0x08, 0x00]

/-- The fields before the checksum. -/
def ipFields (sock : Socket) (len : Nat) : List UInt8 :=
  [0x45, 0] ++ beBytes 2 (20 + 20 + len) ++ beBytes 2 sock.seq ++ [0, 0, 64, 6]

def ipHeader (sock : Socket) (len checksum : Nat) : List UInt8 :=
  ipFields sock len ++ leBytes 2 checksum ++ (leBytes 4 sock.localIp ++ leBytes 4 sock.remoteIp)

def tcpFields (sock : Socket) (flags : UInt8) : List UInt8 :=
  beBytes 2 sock.localPort ++ beBytes 2 sock.remotePort ++ beBytes 4 sock.seq ++
    beBytes 4 sock.ack ++ [0x50, flags] ++ beBytes 2 8192

def tcpSegment (sock : Socket) (flags : UInt8) (payload : List UInt8) (checksum : Nat) :
    List UInt8 :=
  tcpFields sock flags ++ leBytes 2 checksum ++ ([0, 0] ++ payload)

/-- The buffer of `send_tcp_packet` at the three pointers into it. -/
structure TcpFrame where
  eth : List UInt8
  ip : List UInt8
  tcp : List UInt8

def sendTcpPacket (sock : Socket) (flags : UInt8) (payload : List UInt8) : Option TcpFrame :=
  if 1536 < 14 + 20 + 20 + payload.length then none
  else
    let ip := ipHeader sock payload.length
    let tcp := tcpSegment sock flags payload
    some ⟨ethHeader sock, ip (netChecksum (ip 0)),
      tcp (tcpChecksum sock.localIp sock.remoteIp (tcp 0))⟩

/-- The one's-complement sum of the words is all ones. -/
def Verifies (bytes : List UInt8) : Prop := foldCarries (networkSum bytes) = 2 ^ 16 - 1

/-- What a receiver checks of a frame with the payload; the addresses in the pseudo header are those
of the IP header. -/
structure TcpFrame.Verified (frame : TcpFrame) (payload : List UInt8) : Prop where
  header : frame.ip.length = 20
  carries : frame.tcp.drop 20 = payload
  ip : Verifies frame.ip
  tcp : Verifies (frame.ip.drop 12 ++ [0, 6] ++ beBytes 2 frame.tcp.length ++ frame.tcp)

variable {bytes front back : List UInt8}

theorem foldCarries_spec (sum : Nat) :
    foldCarries sum < 2 ^ 16 ∧ foldCarries sum ≡ sum [MOD 2 ^ 16 - 1] ∧
      (foldCarries sum = 0 ↔ sum = 0) := by
  fun_induction foldCarries sum with
  | case1 sum hsmall => exact ⟨hsmall, rfl, Iff.rfl⟩
  | case2 sum hbig ih =>
    refine ⟨ih.1, ih.2.1.trans ?_, ih.2.2.trans ?_⟩
    · unfold Nat.ModEq
      omega
    · omega

theorem networkSum_modEq (bytes : List UInt8) :
    networkSum bytes ≡ 256 * wordSum bytes [MOD 2 ^ 16 - 1] := by
  fun_induction wordSum bytes with
  | case1 => rfl
  | case2 a => rfl
  | case3 a b rest ih =>
    rw [networkSum]
    unfold Nat.ModEq at ih ⊢
    omega

theorem wordSum_eq_zero (h : networkSum bytes = 0) : wordSum bytes = 0 := by
  fun_induction wordSum bytes with
  | case1 => rfl
  | case2 a =>
    rw [networkSum] at h
    omega
  | case3 a b rest ih =>
    rw [networkSum] at h
    have := ih (by omega)
    omega

theorem wordSum_append (heven : front.length % 2 = 0) :
    wordSum (front ++ back) = wordSum front + wordSum back := by
  fun_induction wordSum front with
  | case1 => simp
  | case2 a => cases heven
  | case3 a b rest ih =>
    rw [cons_append, cons_append, wordSum, ih (by simp at heven; omega)]
    omega

theorem wordSum_le (bytes : List UInt8) : wordSum bytes ≤ 2 ^ 16 * bytes.length := by
  fun_induction wordSum bytes with
  | case1 => simp
  | case2 a =>
    have := a.toNat_lt
    simp only [length_singleton]
    omega
  | case3 a b rest ih =>
    have := a.toNat_lt
    have := b.toNat_lt
    simp only [length_cons]
    omega

theorem wordSum_leBytes (n : Nat) (hn : n < 2 ^ 16) : wordSum (leBytes 2 n) = n := by
  simp [leBytes, wordSum]
  omega

/-- The checksum of a sum makes the sum with it a multiple of `2 ^ 16 - 1`, and not zero. -/
theorem verifies_of_checksum {sum : Nat} (hsum : sum < 2 ^ 32)
    (hbytes : wordSum bytes = sum + (2 ^ 16 - 1 - foldCarries (sum % 2 ^ 32))) : Verifies bytes := by
  rw [Nat.mod_eq_of_lt hsum] at hbytes
  obtain ⟨hlt, hmod, hzero⟩ := foldCarries_spec sum
  obtain ⟨hlt', hmod', hzero'⟩ := foldCarries_spec (networkSum bytes)
  have hnetwork := networkSum_modEq bytes
  have hne : networkSum bytes ≠ 0 := by
    intro h
    have := wordSum_eq_zero h
    omega
  unfold Nat.ModEq at *
  rw [Verifies]
  omega

theorem verifies_netChecksum (heven : front.length % 2 = 0)
    (hlen : (front ++ leBytes 2 0 ++ back).length < 2 ^ 16) :
    Verifies (front ++ leBytes 2 (netChecksum (front ++ leBytes 2 0 ++ back)) ++ back) := by
  have hwords : ∀ n < 2 ^ 16, wordSum (front ++ leBytes 2 n ++ back) =
      wordSum front + n + wordSum back := by
    intro n hn
    rw [wordSum_append (by simp; omega), wordSum_append heven, wordSum_leBytes n hn]
  have hle := wordSum_le (front ++ leBytes 2 0 ++ back)
  have hsum : wordSum (front ++ leBytes 2 0 ++ back) < 2 ^ 32 := by omega
  refine verifies_of_checksum hsum ?_
  rw [hwords _ (by unfold netChecksum; omega), netChecksum, hwords 0 (by omega)]
  omega

@[simp] theorem beBytes_length (width n : Nat) : (beBytes width n).length = width := by
  simp [beBytes]

theorem tcpChecksum_eq (srcIp dstIp : Nat) (segment : List UInt8) :
    tcpChecksum srcIp dstIp segment =
      netChecksum (pseudoHeader srcIp dstIp segment.length ++ segment) := by
  rw [tcpChecksum, netChecksum, wordSum_append (by simp [pseudoHeader])]

theorem ipFields_length (sock : Socket) (len : Nat) : (ipFields sock len).length = 10 := by
  simp [ipFields]

theorem tcpSegment_length (sock : Socket) (flags : UInt8) (payload : List UInt8) (n : Nat) :
    (tcpSegment sock flags payload n).length = 20 + payload.length := by
  simp [tcpSegment, tcpFields]
  omega

theorem checksums_verify {sock : Socket} {flags : UInt8} {payload : List UInt8} {frame : TcpFrame}
    (hsent : sendTcpPacket sock flags payload = some frame) : frame.Verified payload := by
  rw [sendTcpPacket] at hsent
  split_ifs at hsent with hlong
  cases hsent
  have hip := ipFields_length sock payload.length
  constructor
  · simp [ipHeader, hip]
  · rw [tcpSegment, ← append_assoc]
    exact drop_left' (by simp [tcpFields])
  · apply verifies_netChecksum <;> simp [hip]
  · have haddresses : ∀ n, (ipHeader sock payload.length n).drop 12 =
        leBytes 4 sock.localIp ++ leBytes 4 sock.remoteIp := fun n => drop_left' (by simp [hip])
    have hsplit : ∀ pseudo n, pseudo ++ tcpSegment sock flags payload n =
        pseudo ++ tcpFields sock flags ++ leBytes 2 n ++ ([0, 0] ++ payload) := by
      intro pseudo n
      simp only [tcpSegment, append_assoc]
    have hfields : (tcpFields sock flags).length = 16 := by simp [tcpFields]
    rw [haddresses, tcpSegment_length, tcpChecksum_eq, tcpSegment_length, hsplit, hsplit]
    apply verifies_netChecksum
    · simp [hfields]
    · simp only [length_append, beBytes_length, leBytes_length, length_cons, length_nil, hfields]
      omega

theorem checksums_verify_odd :
    ∃ frame, sendTcpPacket connectedSocket 0x18 [7] = some frame ∧ frame.Verified [7] := by
  have hsent : sendTcpPacket connectedSocket 0x18 [7] = some _ := rfl
  exact ⟨_, hsent, checksums_verify hsent⟩

end XsCore.Ipc
