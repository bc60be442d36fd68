import XsCore.Foundation.Machine
import XsCore.Ipc.Socket

/-! # Descriptors passed over a Unix stream

A connected pair of Unix sockets under any interleaving of its calls.  A `recvmsg` is two sections,
between which the other side may send; receivers of one socket exclude each other, and a socket
stays open while one of them is at work.  The log of an end records what was attached to its
incoming bytes and what became of it.
-/

namespace XsCore.Ipc

open Ring Function List Machine Option

variable {k n : Nat} {files : List Nat} {records' : List RightsRecord} {peer : Socket} {r : Receipt}

inductive Fate where
  | installed | discarded | closed
  deriving DecidableEq

/-- What became of one description: the receive that decided it consumed `length` bytes from stream
position `first` on and had room for `room` descriptors; the description was the `index`-th one at
its position. -/
structure Settlement where
  position : Nat
  file : Nat
  fate : Fate
  first : Nat
  length : Nat
  room : Nat
  index : Nat
  deriving DecidableEq

structure Log where
  attached : List (Nat × Nat)
  settled : List Settlement
  installed : List Nat
  released : List Nat

/-- Both ends; `receipt` is the `recvmsg` at work on an end and the room it has. -/
structure Pair where
  ends : Bool → Socket
  receipt : Bool → Option (Receipt × Nat)
  log : Bool → Log

inductive Op where
  | send (x : Bool) (bytes : List UInt8)
  | sendmsg (x : Bool) (bytes : List UInt8) (files : List Nat)
  | recv (x : Bool) (len : Nat)
  | recvmsg (x : Bool) (capacity fdCapacity : Nat) (installs : Bool)
  | finish (x : Bool)
  | close (x : Bool)

def settleFiles (fate : Nat → Fate) (first length room position : Nat) :
    Nat → List Nat → List Settlement
  | _, [] => []
  | k, file :: files =>
    ⟨position, file, fate k, first, length, room, k⟩ ::
      settleFiles fate first length room position (k + 1) files

def settleAll (fate : Nat → Fate) (first length room : Nat) (records : List RightsRecord) :
    List Settlement :=
  records.flatMap fun r => settleFiles fate first length room r.position 0 r.files

def queued (records : List RightsRecord) : List (Nat × Nat) :=
  records.flatMap fun r => r.files.map fun file => (r.position, file)

def Pair.other (s : Pair) (x : Bool) : Option Socket := (s.ends x).peer.map fun _ => s.ends (!x)

def Pair.setEnd (s : Pair) (x : Bool) (sock : Socket) (log : Log) : Pair :=
  { s with ends := update s.ends x sock, log := update s.log x log }

def Pair.delivered (s : Pair) (x : Bool) (files : List Nat) :
    Except SocketError (Option Socket × Nat) → Pair
  | .ok (some peer, _) =>
    s.setEnd (!x) peer { s.log (!x) with
      attached := (s.log (!x)).attached ++
        files.map fun file => ((s.ends (!x)).writePosition, file) }
  | _ => s

def Log.discard (log : Log) (first length : Nat) (records : List RightsRecord) : Log :=
  { log with
    settled := log.settled ++ settleAll (fun _ => .discarded) first length 0 records
    released := log.released ++ records.flatMap RightsRecord.files }

def Pair.recv (s : Pair) (x : Bool) (len : Nat) : Pair :=
  let sock := s.ends x
  let r := recvfrom sock len
  s.setEnd x r.1 ((s.log x).discard sock.readPosition (min len sock.rx.count) r.2.discarded)

def Pair.finish (s : Pair) (x : Bool) (receipt : Receipt) (room : Nat) : Pair :=
  let sock := s.ends x
  let removed := (receipt.index.bind fun i => sock.records[i]?).toList
  { s.setEnd x (recvmsgCommit sock receipt).1 { s.log x with
      settled := (s.log x).settled ++ settleAll
        (fun k => if k < receipt.delivered then .installed else .discarded)
        sock.readPosition receipt.toCopy room removed
      installed := (s.log x).installed ++ receipt.files.take receipt.delivered
      released := (s.log x).released ++ receipt.released sock } with
    receipt := update s.receipt x none }

def Pair.close (s : Pair) (x : Bool) : Pair :=
  let sock := s.ends x
  let s := s.setEnd x sock.shut { s.log x with
    settled := (s.log x).settled ++ settleAll (fun _ => .closed) 0 0 0 sock.records
    released := (s.log x).released ++ sock.records.flatMap RightsRecord.files }
  if sock.peer.isSome && (s.ends (!x)).inUse && (s.ends (!x)).peer.isSome then
    { s with ends := update s.ends (!x) (s.ends (!x)).orphan }
  else s

def Pair.step (s : Pair) : Op → Pair
  | .send x bytes => s.delivered x [] (unixSend (s.ends x) (s.other x) bytes)
  | .sendmsg x bytes files =>
    s.delivered x files (unixSendmsg (s.ends x) (s.other x) bytes files)
  | .recv x len => if (s.receipt x).isSome then s else s.recv x len
  | .recvmsg x capacity fdCapacity installs =>
    if (s.receipt x).isSome then s
    else
      match recvmsgBegin (s.ends x) capacity fdCapacity with
      | .inl _ => s
      | .inr receipt =>
        if receipt.delivered ≠ 0 ∧ installs = false then s
        else { s with receipt := update s.receipt x (some (receipt, fdCapacity)) }
  | .finish x =>
    match s.receipt x with
    | none => s
    | some (receipt, room) => s.finish x receipt room
  | .close x =>
    if (s.receipt x).isSome || !(s.ends x).inUse then s else s.close x

def Socket.connected (peer : Nat) : Socket where
  inUse := true
  domain := .unix
  kind := .stream
  state := .established
  localIp := 0
  localPort := 0
  remoteIp := 0
  remotePort := 0
  seq := 0
  ack := 0
  readShutdown := false
  writeShutdown := false
  peerWriteShutdown := false
  rx := emptyRx
  readPosition := 0
  writePosition := 0
  records := []
  peer := some peer
  pending := none

def Pair.connected : Pair :=
  ⟨fun x => Socket.connected (if x then 0 else 1), fun _ => none, fun _ => ⟨[], [], [], []⟩⟩

/-- Descriptors travel with at least one byte, a `recvmsg` asks for at least one byte, a plain
receive does not stop right before a byte that carries descriptors, and stream positions stay
within 64 bits. -/
def Pair.Careful (s : Pair) : Op → Prop
  | .send x bytes => (s.ends (!x)).writePosition + bytes.length < 2 ^ 64
  | .sendmsg x bytes files => (files ≠ [] → bytes ≠ []) ∧
      (s.ends (!x)).writePosition + bytes.length < 2 ^ 64
  | .recv x len => ∀ r ∈ (s.ends x).records,
      r.position ≠ (s.ends x).readPosition + min len (s.ends x).rx.count ∨
        min len (s.ends x).rx.count = 0
  | .recvmsg _ capacity _ _ => 0 < capacity
  | .finish _ => True
  | .close _ => True

/-! ## What the log says -/

structure LogOk (records : List RightsRecord) (log : Log) : Prop where
  attached : log.attached.Perm
    ((log.settled.map fun e => (e.position, e.file)) ++ queued records)
  installed : log.installed.Perm
    ((log.settled.filter fun e => e.fate = .installed).map Settlement.file)
  released : log.released.Perm (log.settled.map Settlement.file)
  consumed : ∀ e ∈ log.settled, e.fate ≠ .closed →
    e.first ≤ e.position ∧ e.position < e.first + e.length
  refused : ∀ e ∈ log.settled, e.fate = .discarded → e.room ≤ e.index

section Settling

variable (fate : Nat → Fate) (first length room : Nat)

theorem settleFiles_pairs (position k : Nat) (files : List Nat) :
    (settleFiles fate first length room position k files).map (fun e => (e.position, e.file)) =
      files.map fun file => (position, file) := by
  induction files generalizing k with
  | nil => rfl
  | cons file files ih => rw [settleFiles, map_cons, ih, map_cons]

theorem settleFiles_installed (position k delivered : Nat) (files : List Nat) :
    ((settleFiles (fun k => if k < delivered then .installed else .discarded) first length room
        position k files).filter fun e => e.fate = .installed).map Settlement.file =
      files.take (delivered - k) := by
  induction files generalizing k with
  | nil => simp [settleFiles]
  | cons file files ih =>
    by_cases hroom : k < delivered
    · rw [settleFiles, filter_cons_of_pos (by simp [hroom]), map_cons, ih,
        show delivered - k = delivered - (k + 1) + 1 by omega, take_succ_cons]
    rw [settleFiles, filter_cons_of_neg (by simp [hroom]), ih,
      show delivered - (k + 1) = 0 by omega, show delivered - k = 0 by omega,
      take_zero, take_zero]

variable {e : Settlement}

theorem mem_settleFiles {position : Nat}
    (h : e ∈ settleFiles fate first length room position k files) :
    e.position = position ∧ e.first = first ∧ e.length = length ∧ e.room = room ∧
      e.fate = fate e.index ∧ e.index < k + files.length := by
  induction files generalizing k with
  | nil => simp [settleFiles] at h
  | cons file files ih =>
    rw [settleFiles, mem_cons] at h
    rw [length_cons]
    rcases h with rfl | h
    · exact ⟨rfl, rfl, rfl, rfl, rfl, by show k < _; omega⟩
    · have hrest := ih h
      exact ⟨hrest.1, hrest.2.1, hrest.2.2.1, hrest.2.2.2.1, hrest.2.2.2.2.1, by omega⟩

@[simp]
theorem settleAll_nil : settleAll fate first length room [] = [] := rfl

@[simp]
theorem settleAll_cons (r : RightsRecord) (records : List RightsRecord) :
    settleAll fate first length room (r :: records) =
      settleFiles fate first length room r.position 0 r.files ++
        settleAll fate first length room records := rfl

theorem settleAll_pairs (records : List RightsRecord) :
    (settleAll fate first length room records).map (fun e => (e.position, e.file)) =
      queued records := by
  induction records with
  | nil => rfl
  | cons r records ih =>
    rw [settleAll_cons, map_append, settleFiles_pairs, ih]
    rfl

theorem settleAll_files (records : List RightsRecord) :
    (settleAll fate first length room records).map Settlement.file =
      records.flatMap RightsRecord.files := by
  have hpairs := congrArg (map Prod.snd) (settleAll_pairs fate first length room records)
  simpa [queued, map_flatMap, comp_def] using hpairs

theorem mem_settleAll {records : List RightsRecord}
    (h : e ∈ settleAll fate first length room records) :
    ∃ r ∈ records, e.position = r.position ∧ e.first = first ∧ e.length = length ∧
      e.room = room ∧ e.fate = fate e.index ∧ e.index < r.files.length := by
  obtain ⟨r, hr, he⟩ := mem_flatMap.mp h
  have hfacts := mem_settleFiles fate first length room he
  rw [Nat.zero_add] at hfacts
  exact ⟨r, hr, hfacts⟩

end Settling

@[simp]
theorem queued_append (front back : List RightsRecord) :
    queued (front ++ back) = queued front ++ queued back := by
  simp [queued]

variable {records : List RightsRecord} {log : Log}

theorem LogOk.attach (h : LogOk records log) (position : Nat) (files : List Nat) :
    LogOk (records ++ [⟨position, files⟩])
      { log with attached := log.attached ++ files.map fun file => (position, file) } := by
  refine ⟨?_, h.installed, h.released, h.consumed, h.refused⟩
  refine (h.attached.append_right _).trans ?_
  simp [queued]

variable {log' : Log}

theorem LogOk.settle (h : LogOk records log) (gone kept : List RightsRecord)
    (fate : Nat → Fate) (first length room : Nat)
    (hqueue : (queued records).Perm (queued gone ++ queued kept))
    (hattached : log'.attached = log.attached)
    (hsettled : log'.settled = log.settled ++ settleAll fate first length room gone)
    (hinstalled : log'.installed.Perm (log.installed ++
      ((settleAll fate first length room gone).filter fun e => e.fate = .installed).map
        Settlement.file))
    (hreleased : log'.released.Perm (log.released ++ gone.flatMap RightsRecord.files))
    (hconsumed : ∀ r ∈ gone, (∃ k < r.files.length, fate k ≠ .closed) →
      first ≤ r.position ∧ r.position < first + length)
    (hrefused : ∀ k, fate k = .discarded → ∀ r ∈ gone, k < r.files.length → room ≤ k) :
    LogOk kept log' := by
  refine ⟨?_, ?_, ?_, fun e he hfate => ?_, fun e he hfate => ?_⟩
  · rw [hattached, hsettled, map_append, settleAll_pairs, append_assoc]
    exact h.attached.trans (hqueue.append_left _)
  · rw [hsettled, filter_append, map_append]
    exact hinstalled.trans (h.installed.append_right _)
  · rw [hsettled, map_append, settleAll_files]
    exact hreleased.trans (h.released.append_right _)
  · rw [hsettled, mem_append] at he
    rcases he with hold | hnew
    · exact h.consumed e hold hfate
    obtain ⟨r, hr, hposition, hfirst, hlength, -, hfact, hindex⟩ := mem_settleAll _ _ _ _ hnew
    rw [hposition, hfirst, hlength]
    exact hconsumed r hr ⟨e.index, hindex, hfact ▸ hfate⟩
  · rw [hsettled, mem_append] at he
    rcases he with hold | hnew
    · exact h.refused e hold hfate
    obtain ⟨r, hr, -, -, -, hroom, hfact, hindex⟩ := mem_settleAll _ _ _ _ hnew
    rw [hroom]
    exact hrefused e.index (hfact ▸ hfate) r hr hindex

/-! ## One end -/

/-- What a `recvmsg` at work relies on: bytes to copy are there, and the only record it passes is
the one it took down, at the front of the queue. -/
structure ReceiptOk (sock : Socket) (receipt : Receipt) (room : Nat) : Prop where
  some_bytes : 0 < receipt.toCopy
  enough : receipt.toCopy ≤ sock.rx.count
  delivered : receipt.delivered = min receipt.files.length room
  front : ∃ taken rest, sock.records = taken ++ rest ∧
    (∀ r ∈ rest, sock.readPosition + receipt.toCopy ≤ r.position) ∧
    (taken = [] ∧ receipt.index = none ∧ receipt.files = [] ∨
      ∃ r, taken = [r] ∧ r.position = sock.readPosition ∧ receipt.index = some 0 ∧
        receipt.files = r.files)

structure EndOk (sock : Socket) (receipt : Option (Receipt × Nat)) (log : Log) : Prop where
  ring : sock.inUse = true → sock.rx.Ok socketBufSize
  window : sock.readPosition + sock.rx.count = sock.writePosition
  bounded : sock.writePosition < 2 ^ 64
  sorted : sock.records.Pairwise fun a b => a.position < b.position
  ahead : ∀ r ∈ sock.records, sock.readPosition ≤ r.position ∧ r.position < sock.writePosition
  unix : sock.domain = .unix
  busy : ∀ r room, receipt = some (r, room) → sock.inUse = true ∧ ReceiptOk sock r room
  log : LogOk sock.records log

variable {sock : Socket} {receipt : Option (Receipt × Nat)}

variable {position : Nat} {bytes : List UInt8} {x : Bool}

theorem findPosition_none (hnone : ∀ r ∈ records, r.position ≠ position) :
    findPosition records position = none := by
  rw [findPosition, List.findIdx?_eq_none_iff]
  intro r hr
  simpa using hnone r hr

/-- Bytes arrive, and with them perhaps descriptions at the first of them. -/
theorem EndOk.accept (h : EndOk sock receipt log) (huse : sock.inUse)
    (hroom : bytes.length ≤ socketBufSize - sock.rx.count)
    (hbound : sock.writePosition + bytes.length < 2 ^ 64) (files : List Nat)
    (hrecords : records' = sock.records ∧ log' = log ∨
      bytes ≠ [] ∧ records' = sock.records ++ [⟨sock.writePosition, files⟩] ∧
        log' = { log with
          attached := log.attached ++ files.map fun file => (sock.writePosition, file) }) :
    EndOk { sock.accept bytes with records := records' } receipt log' := by
  have hring := h.ring huse
  have hput := Buffer.putAll_spec hring bytes (by
    have := hring.count_le
    omega)
  have hwrite : (sock.accept bytes).writePosition = sock.writePosition + bytes.length :=
    Nat.mod_eq_of_lt hbound
  have hcount : (sock.accept bytes).rx.count = sock.rx.count + bytes.length := hput.2.2
  have hwindow := h.window
  refine ⟨fun _ => hput.1, ?_, ?_, ?_, ?_, h.unix, fun r room hr => ⟨huse, ?_⟩, ?_⟩
  · show sock.readPosition + (sock.accept bytes).rx.count = (sock.accept bytes).writePosition
    omega
  · show (sock.accept bytes).writePosition < 2 ^ 64
    omega
  · show records'.Pairwise _
    rcases hrecords with ⟨rfl, -⟩ | ⟨-, rfl, -⟩
    · exact h.sorted
    refine pairwise_append.mpr ⟨h.sorted, pairwise_singleton _ _, fun a ha b hb => ?_⟩
    rw [mem_singleton.mp hb]
    exact (h.ahead a ha).2
  · show ∀ r ∈ records', sock.readPosition ≤ r.position ∧
      r.position < (sock.accept bytes).writePosition
    rw [hwrite]
    rcases hrecords with ⟨rfl, -⟩ | ⟨hbytes, rfl, -⟩
    · intro r hr
      have := h.ahead r hr
      omega
    have hsome : 0 < bytes.length := length_pos_iff.mpr hbytes
    intro r hr
    rcases mem_append.mp hr with hold | hnew
    · have := h.ahead r hold
      omega
    rw [mem_singleton.mp hnew]
    show sock.readPosition ≤ sock.writePosition ∧
      sock.writePosition < sock.writePosition + bytes.length
    omega
  · obtain ⟨-, hreceipt⟩ := h.busy r room hr
    have henough := hreceipt.enough
    obtain ⟨taken, rest, hsplit, hbehind, htaken⟩ := hreceipt.front
    refine ⟨hreceipt.some_bytes, ?_, hreceipt.delivered, ?_⟩
    · show r.toCopy ≤ (sock.accept bytes).rx.count
      omega
    · rcases hrecords with ⟨rfl, -⟩ | ⟨-, rfl, -⟩
      · exact ⟨taken, rest, hsplit, hbehind, htaken⟩
      refine ⟨taken, rest ++ [⟨sock.writePosition, files⟩], ?_, fun r' hr' => ?_, htaken⟩
      · show sock.records ++ _ = _
        rw [hsplit, append_assoc]
      · show sock.readPosition + r.toCopy ≤ r'.position
        rcases mem_append.mp hr' with hold | hnew
        · exact hbehind r' hold
        rw [mem_singleton.mp hnew]
        show sock.readPosition + r.toCopy ≤ sock.writePosition
        omega
  · rcases hrecords with ⟨rfl, rfl⟩ | ⟨-, rfl, rfl⟩
    · exact h.log
    · exact h.log.attach sock.writePosition files

theorem gone_false (h : peer.gone = false) : peer.inUse := by
  unfold Socket.gone at h
  cases hinuse : peer.inUse with
  | true => rfl
  | false => simp [hinuse] at h

theorem unixSend_ok {peer p : Option Socket} (h : unixSend sock peer bytes = .ok (p, n)) :
    ∃ q, peer = some q ∧ q.inUse ∧ p = some (q.accept (bytes.take n)) ∧
      n ≤ bytes.length ∧ n ≤ socketBufSize - q.rx.count := by
  unfold unixSend at h
  rcases peer with _ | q
  · split_ifs at h
  dsimp only at h
  split_ifs at h with _ _ _ hgone hfull
  obtain ⟨rfl, rfl⟩ := h
  exact ⟨q, rfl, gone_false (by simpa using hgone), rfl, Nat.min_le_left _ _, Nat.min_le_right _ _⟩

theorem crowded_false (h : peer.crowded bytes files = false) :
    bytes.length ≤ socketBufSize - peer.rx.count := by
  unfold Socket.crowded at h
  rw [Bool.or_eq_false_iff, decide_eq_false_iff_not] at h
  omega

theorem unixSendmsg_ok {peer p : Option Socket} (h : unixSendmsg sock peer bytes files = .ok (p, n)) :
    files = [] ∧ (p = peer ∨ unixSend sock peer bytes = .ok (p, n)) ∨
    files ≠ [] ∧ ∃ q, peer = some q ∧ q.inUse ∧
      bytes.length ≤ socketBufSize - q.rx.count ∧ p = some ((q.attach files).accept bytes) := by
  unfold unixSendmsg at h
  by_cases hfiles : files = []
  · left
    refine ⟨hfiles, ?_⟩
    split_ifs at h with _ hbytes
    · simp only [Except.ok.injEq, Prod.mk.injEq] at h
      exact .inl h.1.symm
    · exact .inr h
  right
  refine ⟨hfiles, ?_⟩
  rcases peer with _ | q
  · split_ifs at h
  dsimp only at h
  split_ifs at h with _ _ _ hgone hcrowded
  simp only [Except.ok.injEq, Prod.mk.injEq] at h
  have hpeer : q.gone = false := by
    simp only [Bool.or_eq_true, not_or, Bool.not_eq_true] at hgone
    exact hgone.2
  exact ⟨q, rfl, gone_false hpeer, crowded_false (by simpa using hcrowded), h.1.symm⟩

/-- Descriptions always open a record of their own: no record waits at the end of the stream. -/
theorem EndOk.attach (h : EndOk sock receipt log) (files : List Nat) : sock.attach files =
      { sock with records := sock.records ++ [⟨sock.writePosition, files⟩] } := by
  have hnone : findPosition sock.records sock.writePosition = none :=
    findPosition_none fun r hr => Nat.ne_of_lt (h.ahead r hr).2
  rw [Socket.attach, hnone]

theorem EndOk.consume (h : EndOk sock receipt log) (huse : sock.inUse)
    (hk : k ≤ sock.rx.count) {kept : List RightsRecord}
    (hkept : kept.Sublist sock.records) (hbehind : ∀ r ∈ kept, sock.readPosition + k ≤ r.position)
    (hlog : LogOk kept log') : EndOk { sock.consume k with records := kept } none log' := by
  have hwindow := h.window
  have hbound := h.bounded
  have hread : (sock.consume k).readPosition = sock.readPosition + k := Nat.mod_eq_of_lt (by omega)
  refine ⟨fun _ => (h.ring huse).skip hk, ?_, hbound, h.sorted.sublist hkept, fun r hr => ?_, h.unix,
    fun r room hr => ?_, hlog⟩
  · show (sock.consume k).readPosition + (sock.rx.count - k) = sock.writePosition
    omega
  · show (sock.consume k).readPosition ≤ r.position ∧ r.position < sock.writePosition
    rw [hread]
    exact ⟨hbehind r hr, (h.ahead r (hkept.subset hr)).2⟩
  · cases hr

/-! ## Receives -/

@[simp]
theorem Log.discard_nil (log : Log) (first length : Nat) : log.discard first length [] = log := by
  simp [Log.discard]

theorem EndOk.records_nil (h : EndOk sock receipt log) (hempty : sock.rx.count = 0) :
    sock.records = [] := by
  refine eq_nil_iff_forall_not_mem.mpr fun r hr => ?_
  have := h.ahead r hr
  have := h.window
  omega

theorem settleAll_uninstalled {fate : Fate} (hfate : fate ≠ .installed) (first length room : Nat)
    (records : List RightsRecord) : (settleAll (fun _ => fate) first length room records).filter
      (·.fate = .installed) = [] := by
  rw [filter_eq_nil_iff]
  intro e he
  obtain ⟨-, -, -, -, -, -, heq, -⟩ := mem_settleAll _ _ _ _ he
  simpa [heq] using hfate

theorem LogOk.discard (h : LogOk records log) {first length : Nat} {p : RightsRecord → Bool}
    (hconsumed : ∀ r ∈ records.filter p, first ≤ r.position ∧ r.position < first + length) :
    LogOk (records.filter fun r => !p r) (log.discard first length (records.filter p)) := by
  refine h.settle (records.filter p) _ (fun _ => .discarded) first length 0 ?_ rfl rfl ?_
    (.refl _) (fun r hr _ => hconsumed r hr) fun k _ _ _ _ => Nat.zero_le k
  · rw [← queued_append]
    exact (filter_append_perm p records).symm.flatMap_right _
  · rw [settleAll_uninstalled (by decide), map_nil, append_nil]
    exact .refl _

theorem EndOk.recv (h : EndOk sock none log) (len : Nat)
    (hcareful : ∀ r ∈ sock.records, r.position ≠ sock.readPosition + min len sock.rx.count ∨
      min len sock.rx.count = 0) :
    EndOk (recvfrom sock len).1 none
      (log.discard sock.readPosition (min len sock.rx.count) (recvfrom sock len).2.discarded) := by
  unfold recvfrom
  by_cases huse : sock.inUse
  · by_cases hshut : sock.readShutdown
    · simpa [huse, hshut] using h
    by_cases hempty : sock.rx.count = 0
    · have hnone := h.records_nil hempty
      simpa [huse, hshut, hempty, h.unix, hnone, findPosition] using h
    simp only [huse, hshut, hempty, Bool.not_true, Bool.false_eq_true, if_false, h.unix, true_and]
    generalize hk : min len sock.rx.count = k at hcareful ⊢
    have hle : k ≤ sock.rx.count := hk ▸ Nat.min_le_right _ _
    have hread : (sock.consume k).readPosition = sock.readPosition + k := by
      have := h.window
      have := h.bounded
      exact Nat.mod_eq_of_lt (by omega)
    by_cases hzero : k = 0
    · rw [if_neg (by simpa using hzero)]
      rw [Log.discard_nil]
      refine h.consume huse hle (.refl _) (fun r hr => ?_) h.log
      rw [hzero]
      exact (h.ahead r hr).1
    rw [if_pos hzero]
    have hpassed : ∀ r ∈ sock.records.filter fun r =>
        decide (r.position ≤ (sock.consume k).readPosition),
        sock.readPosition ≤ r.position ∧ r.position < sock.readPosition + k := by
      intro r hr
      rw [mem_filter, decide_eq_true_eq, hread] at hr
      have hahead := h.ahead r hr.1
      have hnot := (hcareful r hr.1).resolve_right hzero
      omega
    have hkept : (fun r : RightsRecord =>
        !decide (r.position ≤ (sock.consume k).readPosition)) =
        fun r => decide ((sock.consume k).readPosition < r.position) := by
      funext r
      rw [← decide_not, decide_eq_decide]
      exact Nat.not_le
    have hlog := h.log.discard hpassed
    rw [hkept] at hlog
    refine h.consume huse hle filter_sublist (fun r hr => ?_) hlog
    rw [mem_filter, decide_eq_true_eq, hread] at hr
    exact Nat.le_of_lt hr.2
  · simpa [huse] using h

theorem nextPosition_some {next : Nat} (h : nextPosition records position = some next) :
    position < next ∧ ∀ r ∈ records, position < r.position → next ≤ r.position := by
  have hmin := List.min?_eq_some_iff.mp h
  constructor
  · simpa using (mem_filter.mp hmin.1).2
  · intro r hr hbehind
    exact hmin.2 r.position (mem_filter.mpr ⟨mem_map_of_mem hr, by simpa using hbehind⟩)

theorem nextPosition_none (h : nextPosition records position = none) :
    ∀ r ∈ records, r.position ≤ position := by
  rw [nextPosition, List.min?_eq_none_iff, filter_eq_nil_iff] at h
  intro r hr
  simpa using h r.position (mem_map_of_mem hr)

theorem copy_length_spec {wanted toCopy : Nat} (hwanted : 0 < wanted) (h : toCopy = (nextPosition
      records position).elim wanted fun next => min wanted (next - position)) :
    0 < toCopy ∧ toCopy ≤ wanted ∧
      ∀ r ∈ records, position < r.position → position + toCopy ≤ r.position := by
  cases hnext : nextPosition records position with
  | none =>
    have hnone := nextPosition_none hnext
    rw [hnext] at h
    obtain rfl : toCopy = wanted := h
    refine ⟨hwanted, le_rfl, fun r hr hbehind => ?_⟩
    have := hnone r hr
    omega
  | some next =>
    obtain ⟨hafter, hfirst⟩ := nextPosition_some hnext
    rw [hnext] at h
    obtain rfl : toCopy = min wanted (next - position) := h
    refine ⟨by omega, Nat.min_le_left _ _, fun r hr hbehind => ?_⟩
    have := hfirst r hr hbehind
    omega

theorem EndOk.front (h : EndOk sock receipt log) :
    (findPosition sock.records sock.readPosition = none ∧
      ∀ r ∈ sock.records, sock.readPosition < r.position) ∨
    ∃ r rest, sock.records = r :: rest ∧ r.position = sock.readPosition ∧
      findPosition sock.records sock.readPosition = some 0 ∧
      ∀ r' ∈ rest, sock.readPosition < r'.position := by
  rcases hrecords : sock.records with _ | ⟨r, rest⟩
  · exact .inl ⟨rfl, by simp⟩
  have hahead := h.ahead
  have hsorted := h.sorted
  rw [hrecords] at hahead hsorted
  rw [pairwise_cons] at hsorted
  by_cases hhere : r.position = sock.readPosition
  · refine .inr ⟨r, rest, rfl, hhere, by simp [findPosition, List.findIdx?_cons, hhere],
      fun r' hr' => ?_⟩
    rw [← hhere]
    exact hsorted.1 r' hr'
  have hall : ∀ r' ∈ r :: rest, sock.readPosition < r'.position := by
    intro r' hr'
    have hfirst := (hahead r (by simp)).1
    rcases mem_cons.mp hr' with rfl | hrest
    · omega
    · have := hsorted.1 r' hrest
      omega
  exact .inl ⟨findPosition_none fun r' hr' => Nat.ne_of_gt (hall r' hr'), hall⟩

theorem EndOk.begin (h : EndOk sock none log) {capacity fdCapacity : Nat}
    (hcapacity : 0 < capacity) (hbegin : recvmsgBegin sock capacity fdCapacity = .inr r) :
    sock.inUse ∧ ReceiptOk sock r fdCapacity := by
  unfold recvmsgBegin at hbegin
  extract_lets index wanted toCopy files at hbegin
  split_ifs at hbegin with hinvalid hkind hshut hnothing
  obtain rfl := Sum.inr.inj hbegin
  have huse : sock.inUse := by
    simp only [Bool.or_eq_true, not_or, Bool.not_eq_true, Bool.not_eq_false'] at hinvalid
    exact hinvalid.1
  have hcount : sock.rx.count ≠ 0 := by
    intro hempty
    refine hnothing ⟨hempty, ?_⟩
    simp [index, h.records_nil hempty, findPosition]
  obtain ⟨hsome, hwanted, hbehind⟩ := copy_length_spec (by omega : 0 < wanted)
    (rfl : toCopy = _)
  refine ⟨huse, hsome, hwanted.trans (Nat.min_le_right _ _), rfl, ?_⟩
  rcases h.front with ⟨hnone, hall⟩ | ⟨first, rest, hrecords, hhere, hfound, hrest⟩
  · refine ⟨[], sock.records, rfl, fun r' hr' => hbehind r' hr' (hall r' hr'), .inl ⟨rfl, hnone, ?_⟩⟩
    simp [files, index, hnone]
  refine ⟨[first], rest, hrecords, fun r' hr' => ?_, .inr ⟨first, rfl, hhere, hfound, ?_⟩⟩
  · exact hbehind r' (by simp [hrecords, hr']) (hrest r' hr')
  · simp [files, index, hfound, hrecords]

theorem EndOk.finish {room : Nat} (h : EndOk sock (some (r, room)) log) :
    EndOk (recvmsgCommit sock r).1 none
      { log with
        settled := log.settled ++ settleAll
          (fun k => if k < r.delivered then .installed else .discarded)
          sock.readPosition r.toCopy room (r.index.bind fun i => sock.records[i]?).toList
        installed := log.installed ++ r.files.take r.delivered
        released := log.released ++ r.released sock } := by
  obtain ⟨huse, hreceipt⟩ := h.busy r room rfl
  obtain ⟨taken, rest, hsplit, hbehind,
    ⟨rfl, hindex, hfiles⟩ | ⟨first, rfl, hhere, hindex, hfiles⟩⟩ :=
    hreceipt.front
  · have hsame : sock.records = rest := hsplit
    simp only [recvmsgCommit, hindex, elim_none, bind_none, toList_none,
      settleAll_nil, append_nil, hfiles, take_nil, Receipt.released]
    exact h.consume huse hreceipt.enough (.refl _) (by rwa [hsame]) h.log
  have hrecords : sock.records = first :: rest := hsplit
  have hremoved : sock.records.eraseIdx 0 = rest := by rw [hrecords]; rfl
  have hreleased : r.released sock = first.files := by
    simp [Receipt.released, hindex, hrecords, hfiles]
  have hgone : (r.index.bind fun i => sock.records[i]?).toList = [first] := by
    simp [hindex, hrecords]
  rw [hreleased, hgone]
  simp only [recvmsgCommit, hindex, elim_some, hremoved]
  refine h.consume huse hreceipt.enough (by rw [hrecords]; exact sublist_cons_self _ _) hbehind ?_
  refine h.log.settle [first] rest _ _ _ room ?_ rfl rfl ?_ ?_ ?_ ?_
  · rw [hrecords, ← singleton_append, queued_append]
  · simp only [settleAll_cons, settleAll_nil, append_nil]
    rw [settleFiles_installed, Nat.sub_zero, hfiles]
  · simp
  · intro r' hr' _
    rw [mem_singleton.mp hr', hhere]
    have := hreceipt.some_bytes
    omega
  · intro k hk r' hr' hlength
    rw [mem_singleton.mp hr', ← hfiles] at hlength
    have hdelivered := hreceipt.delivered
    have hbeyond : ¬ k < r.delivered := fun hless => by simp [hless] at hk
    omega

theorem EndOk.shut (h : EndOk sock none log) : EndOk sock.shut none { log with
      settled := log.settled ++ settleAll (fun _ => .closed) 0 0 0 sock.records
      released := log.released ++ sock.records.flatMap RightsRecord.files } := by
  refine ⟨fun huse => ?_, rfl, Nat.two_pow_pos 64, .nil, fun r hr => ?_, h.unix,
    fun r room hr => ?_, ?_⟩
  · simp [Socket.shut] at huse
  · simp [Socket.shut] at hr
  · cases hr
  · refine h.log.settle sock.records [] (fun _ => .closed) 0 0 0
      (by simp [queued]) rfl rfl ?_ (.refl _) (fun r _ ⟨k, _, hk⟩ => absurd rfl hk)
      fun k hk => absurd hk (by simp)
    rw [settleAll_uninstalled (by decide), map_nil, append_nil]

theorem EndOk.orphan (h : EndOk sock receipt log) : EndOk sock.orphan receipt log :=
  { h with busy := fun r room hr => (h.busy r room hr).imp_right fun hok => { hok with } }

/-! ## The pair -/

def PairOk (s : Pair) : Prop := ∀ x, EndOk (s.ends x) (s.receipt x) (s.log x)

variable {s : Pair}

theorem PairOk.setEnd (h : PairOk s) {sock : Socket} {log : Log}
    (hend : EndOk sock (s.receipt x) log) : PairOk (s.setEnd x sock log) := by
  intro y
  by_cases hy : y = x
  · subst hy
    simpa [Pair.setEnd] using hend
  · simpa [Pair.setEnd, hy] using h y

theorem other_some {q : Socket} (h : s.other x = some q) : q = s.ends (!x) := by
  rw [Pair.other, map_eq_some_iff] at h
  obtain ⟨-, -, hq⟩ := h
  exact hq.symm

theorem PairOk.send (h : PairOk s) (hbound : (s.ends (!x)).writePosition + bytes.length < 2 ^ 64) :
    PairOk (s.delivered x [] (unixSend (s.ends x) (s.other x) bytes)) := by
  rcases hsend : unixSend (s.ends x) (s.other x) bytes with e | r
  · exact h
  obtain ⟨p, n⟩ := r
  obtain ⟨q, hq, huse, rfl, hlength, hroom⟩ := unixSend_ok hsend
  obtain rfl := other_some hq
  have htake : (bytes.take n).length = n := length_take_of_le hlength
  simp only [Pair.delivered, map_nil, append_nil]
  exact h.setEnd ((h (!x)).accept huse (by omega) (by omega) [] (.inl ⟨rfl, rfl⟩))

theorem PairOk.sendmsg (h : PairOk s) (hbytes : files ≠ [] → bytes ≠ [])
    (hbound : (s.ends (!x)).writePosition + bytes.length < 2 ^ 64) :
    PairOk (s.delivered x files (unixSendmsg (s.ends x) (s.other x) bytes files)) := by
  rcases hsend : unixSendmsg (s.ends x) (s.other x) bytes files with e | r
  · exact h
  obtain ⟨p, n⟩ := r
  rcases unixSendmsg_ok hsend with ⟨rfl, rfl | hplain⟩ | ⟨hfiles, q, hq, huse, hroom, rfl⟩
  · cases hother : s.other x with
    | none => exact h
    | some q =>
      obtain rfl := other_some hother
      simp only [Pair.delivered, map_nil, append_nil]
      exact h.setEnd (h (!x))
  · have hsame := h.send hbound
    rwa [hplain] at hsame
  · obtain rfl := other_some hq
    rw [(h (!x)).attach files]
    exact h.setEnd ((h (!x)).accept huse hroom hbound files
      (.inr ⟨hbytes hfiles, rfl, rfl⟩))

theorem PairOk.close (h : PairOk s) (hidle : s.receipt x = none) : PairOk (s.close x) := by
  have hend := h x
  rw [hidle] at hend
  have hclosed := h.setEnd (x := x) (by rw [hidle]; exact hend.shut)
  unfold Pair.close
  extract_lets sock closed
  split_ifs with hpeer
  · intro y
    by_cases hy : y = !x
    · subst hy
      simpa using (hclosed (!x)).orphan
    · simpa [hy] using hclosed y
  · exact hclosed

theorem PairOk.step (h : PairOk s) (op : Op) (hcareful : s.Careful op) : PairOk (s.step op) := by
  cases op with
  | send x bytes => exact h.send hcareful
  | sendmsg x bytes files => exact h.sendmsg hcareful.1 hcareful.2
  | recv x len =>
    cases hidle : s.receipt x with
    | some r => simpa [Pair.step, hidle] using h
    | none =>
      have hend := h x
      rw [hidle] at hend
      simp only [Pair.step, hidle, isSome_none, Bool.false_eq_true, if_false]
      exact h.setEnd (by rw [hidle]; exact hend.recv len hcareful)
  | recvmsg x capacity fdCapacity installs =>
    rcases hidle : s.receipt x with _ | r
    swap
    · simpa [Pair.step, hidle] using h
    have hend := h x
    rw [hidle] at hend
    simp only [Pair.step, hidle, isSome_none, Bool.false_eq_true, if_false]
    rcases hbegin : recvmsgBegin (s.ends x) capacity fdCapacity with result | r
    · exact h
    dsimp only
    split_ifs with hfail
    · exact h
    intro y
    by_cases hy : y = x
    · subst hy
      have hok := hend.begin hcareful hbegin
      refine { hend with busy := fun r' room hr' => ?_ }
      simp only [update_self, some.injEq, Prod.mk.injEq] at hr'
      rw [← hr'.1, ← hr'.2]
      exact hok
    · simpa [hy] using h y
  | finish x =>
    rcases hbusy : s.receipt x with _ | ⟨r, room⟩
    · simpa [Pair.step, hbusy] using h
    have hend := h x
    rw [hbusy] at hend
    simp only [Pair.step, hbusy]
    intro y
    by_cases hy : y = x
    · subst hy
      simpa [Pair.finish, Pair.setEnd] using hend.finish
    · simpa [Pair.finish, Pair.setEnd, hy] using h y
  | close x =>
    cases hidle : s.receipt x with
    | some r => simpa [Pair.step, hidle] using h
    | none =>
      by_cases huse : (s.ends x).inUse
      · simpa [Pair.step, hidle, huse] using h.close hidle
      · simpa [Pair.step, hidle, huse] using h

theorem Pair.connected_ok : PairOk .connected := by
  intro x
  refine ⟨fun _ => ⟨Nat.zero_lt_succ _, rfl, Nat.zero_le _⟩, rfl, Nat.two_pow_pos 64, .nil,
    fun r hr => ?_, rfl, fun r room hr => ?_, ⟨.nil, .nil, .nil, fun e he => ?_, fun e he => ?_⟩⟩
  · simp [Pair.connected, Socket.connected] at hr
  · simp [Pair.connected] at hr
  · simp [Pair.connected] at he
  · simp [Pair.connected] at he

/-- In every careful run, what was attached to the bytes of a stream is settled once or still
queued, and queued only ahead of the reader.  Receives settle what is attached to bytes they
consume; a description is dropped only where the receive had no room for it; and what was installed
and released is what was settled so. -/
theorem rights_delivery (ops : List Op)
    (hcareful : Guarded Pair.step Pair.Careful Pair.connected ops) (x : Bool) :
    let s := run Pair.step Pair.connected ops
    (s.log x).attached.Perm
      (((s.log x).settled.map fun e => (e.position, e.file)) ++ queued (s.ends x).records) ∧
    (∀ r ∈ (s.ends x).records, (s.ends x).readPosition ≤ r.position) ∧
    (∀ e ∈ (s.log x).settled, e.fate ≠ .closed →
      e.first ≤ e.position ∧ e.position < e.first + e.length) ∧
    (∀ e ∈ (s.log x).settled, e.fate = .discarded → e.room ≤ e.index) ∧
    (s.log x).installed.Perm
      (((s.log x).settled.filter fun e => e.fate = .installed).map Settlement.file) ∧
    (s.log x).released.Perm ((s.log x).settled.map Settlement.file) := by
  intro s
  have hok : PairOk s :=
    hcareful.invariant PairOk (fun _ op hs hop => hs.step op hop) Pair.connected_ok
  have hend := hok x
  exact ⟨hend.log.attached, fun r hr => (hend.ahead r hr).1, hend.log.consumed, hend.log.refused,
    hend.log.installed, hend.log.released⟩

def twoMessages : List Op :=
  [.send false [1], .sendmsg false [2] [7], .recvmsg true 1 4 true, .finish true,
    .recvmsg true 1 4 true, .finish true]

theorem rights_delivery_two : Guarded Pair.step Pair.Careful Pair.connected twoMessages ∧
    ((run Pair.step Pair.connected twoMessages).log true).installed.Perm
      ((((run Pair.step Pair.connected twoMessages).log true).settled.filter
        fun e => e.fate = .installed).map Settlement.file) := by
  refine ⟨?careful, (rights_delivery twoMessages ?careful true).2.2.2.2.1⟩
  exact ⟨(by decide : (Pair.connected.ends true).writePosition + 1 < 2 ^ 64),
    ⟨fun _ => by simp, (by decide :
      ((Pair.connected.step (.send false [1])).ends true).writePosition + 1 < 2 ^ 64)⟩,
    Nat.one_pos, trivial, Nat.one_pos, trivial, trivial⟩

/-- A plain receive of one byte drops the descriptor of the next byte, which it did not consume. -/
theorem recv_drops_next_rights : ¬ ∀ e ∈ ((run Pair.step Pair.connected
      [.send false [1], .sendmsg false [2] [7], .recv true 1]).log true).settled,
    e.fate ≠ .closed → e.first ≤ e.position ∧ e.position < e.first + e.length := by
  decide

end XsCore.Ipc
