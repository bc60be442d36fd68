import XsCore.File.Sharing

/-! # Descriptions passed over sockets

A message takes the references its sender acquired into the queue of the receiving socket; they
leave it when they are received, dropped or the socket is closed.
-/

namespace XsCore.File

open XsCore.Ipc Function List Option

variable {leak : Nat → Prop} {base : Base} {locals : Multiset Nat}
  {pledged : Multiset Handle} {k : Files} {f i t : Nat} {h : Handle} {table : Table} {sock : Socket}
variable {receipt : Receipt} {sockets : Nat → Socket} {gs : List Nat} {heap : Nat → Bool}

/-! ## The queue of one socket -/

theorem coe_flatMap_files (records : List RightsRecord) :
    (records.flatMap RightsRecord.files : Multiset Nat) =
      (records.map fun r => (r.files : Multiset Nat)).sum := by
  induction records with
  | nil => rfl
  | cons r records ih =>
    rw [flatMap_cons, ← Multiset.coe_add, ih, map_cons, sum_cons]

structure SamePlace (sock sock' : Socket) : Prop where
  inUse : sock'.inUse = sock.inUse
  pending : sock'.pending = sock.pending
  idle : sock.inUse = false → sock' = sock

theorem SamePlace.refl (sock : Socket) : SamePlace sock sock := ⟨rfl, rfl, fun _ => rfl⟩

theorem attach_place (sock : Socket) (files : List Nat) :
    (sock.attach files).inUse = sock.inUse ∧ (sock.attach files).pending = sock.pending := by
  unfold Socket.attach
  cases findPosition sock.records sock.writePosition <;> exact ⟨rfl, rfl⟩

variable {peer : Socket} {bytes : List UInt8} {n s : Nat} {files : List Nat}

theorem inUse_of_not_gone (h : ¬ peer.gone) : peer.inUse := by
  unfold Socket.gone at h
  simp only [Bool.or_eq_true, not_or] at h
  simpa using h.1.1.1

theorem queuedAt_attach (sock : Socket) (files : List Nat) :
    (queuedAt (sock.attach files) : Multiset Nat) = queuedAt sock + files := by
  unfold Socket.attach queuedAt
  rcases hfind : findPosition sock.records sock.writePosition with _ | i
  · simp
  have hlt : i < sock.records.length := by exact (findIdx?_eq_some_iff_getElem.mp hfind).1
  have hrecord : sock.records[i]? = some sock.records[i] := getElem?_eq_getElem hlt
  show (((sock.records.modify i fun r => { r with files := r.files ++ files }).flatMap
    RightsRecord.files : List Nat) : Multiset Nat) = _
  rw [modify_eq_set_getElem?, hrecord, coe_flatMap_files, coe_flatMap_files]
  have hset := Tally.sum_map_set (fun r : RightsRecord => (r.files : Multiset Nat)) hrecord
    { sock.records[i] with files := sock.records[i].files ++ files }
  have hnew : (((sock.records[i].files ++ files : List Nat)) : Multiset Nat) =
      files + (sock.records[i].files : Multiset Nat) := by
    rw [← Multiset.coe_add, add_comm]
  simp only [hnew, ← add_assoc] at hset
  exact add_right_cancel hset

variable {sock peer' : Socket}

theorem unixSend_spec (h : unixSend sock (some peer) bytes = .ok (some peer', n)) :
    SamePlace peer peer' ∧ (queuedAt peer' : Multiset Nat) = queuedAt peer := by
  unfold unixSend at h
  dsimp only at h
  split_ifs at h with hbad hshut hstate hgone hfull
  rw [← some.inj (Prod.mk.inj (Except.ok.inj h)).1]
  have huse := inUse_of_not_gone hgone
  exact ⟨⟨rfl, rfl, fun hidle => absurd huse (by simp [hidle])⟩, rfl⟩

theorem unixSendmsg_spec (h : unixSendmsg sock (some peer) bytes files = .ok (some peer', n)) :
    SamePlace peer peer' ∧ (queuedAt peer' : Multiset Nat) = queuedAt peer + files := by
  unfold unixSendmsg at h
  dsimp only at h
  split_ifs at h with hinvalid hnone hbytes hkind hstate hgone hcrowded
  · rw [← some.inj (Prod.mk.inj (Except.ok.inj h)).1, hnone]
    exact ⟨.refl peer, by simp⟩
  · have hsent := unixSend_spec h
    rw [hnone]
    exact ⟨hsent.1, by simpa using hsent.2⟩
  rw [← some.inj (Prod.mk.inj (Except.ok.inj h)).1]
  rw [Bool.or_eq_true, not_or] at hgone
  have hattach := attach_place peer files
  have huse := inUse_of_not_gone hgone.2
  exact ⟨⟨hattach.1, hattach.2, fun hidle => absurd huse (by simp [hidle])⟩,
    queuedAt_attach peer files⟩

theorem unixSendmsg_none {p : Option Socket}
    (h : unixSendmsg sock none bytes files = .ok (p, n)) : files = [] := by
  unfold unixSendmsg at h
  by_contra hne
  split_ifs at h

theorem unixSendmsg_to_none : unixSendmsg sock (some peer) bytes files ≠ .ok (none, n) := by
  intro h
  unfold unixSendmsg unixSend at h
  dsimp only at h
  split_ifs at h <;> simp at h

theorem flatMap_eraseIdx {records : List RightsRecord} {i : Nat} {r : RightsRecord}
    (hr : records[i]? = some r) : (records.flatMap RightsRecord.files : Multiset Nat) =
      ((records.eraseIdx i).flatMap RightsRecord.files : List Nat) + (r.files : Multiset Nat) := by
  obtain ⟨hlt, hget⟩ := List.getElem?_eq_some_iff.mp hr
  have hperm := (getElem_cons_eraseIdx_perm hlt).flatMap_right RightsRecord.files
  rw [hget, flatMap_cons] at hperm
  rw [← Multiset.coe_eq_coe.mpr hperm, ← Multiset.coe_add, add_comm]

theorem recvfrom_spec (sock : Socket) (len : Nat) : SamePlace sock (recvfrom sock len).1 ∧
      (queuedAt sock : Multiset Nat) = queuedAt (recvfrom sock len).1 +
        ((recvfrom sock len).2.discarded.flatMap RightsRecord.files : List Nat) := by
  have hsame : ∀ e, SamePlace sock sock ∧ (queuedAt sock : Multiset Nat) = queuedAt sock +
      (((⟨e, []⟩ : Received).discarded.flatMap RightsRecord.files : List Nat) : Multiset Nat) := by
    intro e
    exact ⟨.refl sock, by simp⟩
  have hidle : sock.inUse → ∀ sock', sock.inUse = false → sock' = sock := by
    intro huse sock' hidle
    simp [hidle] at huse
  unfold recvfrom
  split
  · exact hsame _
  rename_i huse
  have huse' : sock.inUse := by simpa using huse
  split
  · exact hsame _
  split
  · cases hfind : (if sock.domain = .unix then findPosition sock.records sock.readPosition
      else none) with
    | none => exact hsame _
    | some i =>
      dsimp only
      split
      · exact hsame _
      refine ⟨⟨rfl, rfl, hidle huse' _⟩, ?_⟩
      cases hr : sock.records[i]? with
      | none =>
        have hsize : sock.records.length ≤ i := getElem?_eq_none_iff.mp hr
        simp [queuedAt, eraseIdx_of_length_le hsize]
      | some r => simpa [queuedAt] using flatMap_eraseIdx hr
  · dsimp only
    split_ifs
    · refine ⟨⟨rfl, rfl, hidle huse' _⟩, ?_⟩
      have hperm := (filter_append_perm
        (fun r : RightsRecord => decide ((sock.consume (min len sock.rx.count)).readPosition <
          r.position)) sock.records).flatMap_right RightsRecord.files
      have hrest : (fun r : RightsRecord => !decide
          ((sock.consume (min len sock.rx.count)).readPosition < r.position)) =
          fun r => decide (r.position ≤ (sock.consume (min len sock.rx.count)).readPosition) := by
        funext r
        rw [← decide_not]
        exact decide_eq_decide.mpr Nat.not_lt
      rw [flatMap_append, hrest] at hperm
      exact (Multiset.coe_eq_coe.mpr hperm.symm).trans (Multiset.coe_add _ _).symm
    · exact ⟨⟨rfl, rfl, hidle huse' _⟩, by simp [queuedAt, Socket.consume]⟩

/-- A receipt names a record of the queue with all its descriptions, or none. -/
def Names (receipt : Receipt) (sock : Socket) : Prop :=
  receipt.index = none ∧ receipt.files = [] ∨
    ∃ i r, receipt.index = some i ∧ sock.records[i]? = some r ∧ receipt.files = r.files

theorem recvmsgBegin_spec {capacity fdCapacity : Nat}
    (h : recvmsgBegin sock capacity fdCapacity = .inr receipt) :
    sock.inUse ∧ Names receipt sock := by
  unfold recvmsgBegin at h
  dsimp only at h
  split_ifs at h with hbad hkind hshut hempty
  have huse : sock.inUse := by
    rw [Bool.or_eq_true, not_or] at hbad
    simpa using hbad.1
  refine ⟨huse, ?_⟩
  rw [← Sum.inr.inj h]
  cases hfind : findPosition sock.records sock.readPosition with
  | none => exact .inl ⟨rfl, rfl⟩
  | some i =>
    obtain ⟨hlt, -⟩ := findIdx?_eq_some_iff_getElem.mp hfind
    have hr : sock.records[i]? = some sock.records[i] := getElem?_eq_getElem hlt
    exact .inr ⟨i, sock.records[i], rfl, hr, by simp [hr]⟩

theorem recvmsgCommit_spec (huse : sock.inUse)
    (hreceipt : Names receipt sock) : SamePlace sock (recvmsgCommit sock receipt).1 ∧
      (queuedAt sock : Multiset Nat) = queuedAt (recvmsgCommit sock receipt).1 +
        (receipt.released sock : Multiset Nat) := by
  refine ⟨⟨rfl, rfl, fun hidle => absurd huse (by simp [hidle])⟩, ?_⟩
  rcases hreceipt with ⟨hindex, -⟩ | ⟨i, r, hindex, hr, hfiles⟩
  · simp [recvmsgCommit, Receipt.released, queuedAt, hindex]
  · have herase := flatMap_eraseIdx hr
    simpa [recvmsgCommit, Receipt.released, queuedAt, hindex, hr, hfiles] using herase

theorem Names.queued (h : Names receipt sock) : ∀ f ∈ receipt.files, f ∈ queuedAt sock := by
  intro f hf
  rcases h with ⟨-, hfiles⟩ | ⟨i, r, -, hr, hfiles⟩
  · rw [hfiles] at hf
    cases hf
  · rw [hfiles] at hf
    exact mem_flatMap.mpr ⟨r, mem_of_getElem? hr, hf⟩

/-! ## References between queue and call -/

theorem FilesOk.requeue (hk : FilesOk leak base locals pledged k) {locals' : Multiset Nat}
    {pledged' : Multiset Handle}
    (hmove : locals' + queued sockets = locals + queued k.objects.sockets)
    (hflat : ∀ f ∈ queued sockets, ∀ s, (k.files f).object ≠ some (.socket s))
    (hbacked : Backed base (k.live + pledged') { k.objects with sockets := sockets }) :
    FilesOk leak base locals' pledged' (k.setSockets sockets) where
  sound :=
    { hk.sound with
      counted := by
        intro f
        have hold := hk.sound.counted f
        have hcount := congrArg (Multiset.count f) hmove
        simp only [Multiset.count_add] at hold hcount
        show (k.files f).references = (k.entries + k.held + locals').count f +
          (queued sockets).count f
        simp only [Multiset.count_add]
        omega
      passed := hflat
      log := hk.sound.log
      backed := hbacked }
  tables := hk.tables

theorem Backed.samePlace {live : Multiset Handle} {o : Objects} (hb : Backed base live o)
    (hplace : SamePlace (o.sockets s) sock) :
    Backed base live { o with sockets := update o.sockets s sock } := by
  refine hb.setSocket s sock hplace.inUse hplace.pending fun hidle => ?_
  rw [hplace.inUse] at hidle
  rw [hplace.idle hidle]
  exact (hb.sockets s).idle hidle

theorem FilesOk.dequeue (hk : FilesOk leak base locals pledged k) (hs : s < socketMax)
    (hplace : SamePlace (k.objects.sockets s) sock)
    (hqueue : (queuedAt (k.objects.sockets s) : Multiset Nat) = queuedAt sock + gs) :
    FilesOk leak base ((gs : Multiset Nat) + locals) pledged
      (k.setSockets (update k.objects.sockets s sock)) := by
  have hupdate := queued_update k.objects.sockets hs sock
  have hold : queued (update k.objects.sockets s sock) + gs =
      queued k.objects.sockets := by
    rw [hqueue] at hupdate
    have hsum : queued (update k.objects.sockets s sock) + gs + queuedAt sock =
        queued k.objects.sockets + queuedAt sock := by
      rw [← hupdate]
      abel
    exact add_right_cancel hsum
  refine hk.requeue ?_ (fun f hf => ?_) (hk.sound.backed.samePlace hplace)
  · rw [← hold]
    abel
  · refine hk.sound.passed f ?_
    rw [← hold]
    exact Multiset.mem_add.mpr (.inl hf)

theorem FilesOk.enqueue (hk : FilesOk leak base ((gs : Multiset Nat) + locals) pledged k)
    (hs : s < socketMax) (hplace : SamePlace (k.objects.sockets s) sock)
    (hqueue : (queuedAt sock : Multiset Nat) = queuedAt (k.objects.sockets s) + gs)
    (hflat : ∀ g ∈ gs, ∀ s, (k.files g).object ≠ some (.socket s)) :
    FilesOk leak base locals pledged
      (k.setSockets (update k.objects.sockets s sock)) := by
  have hupdate := queued_update k.objects.sockets hs sock
  have hnew : queued (update k.objects.sockets s sock) =
      queued k.objects.sockets + gs := by
    rw [hqueue] at hupdate
    have hsum : queued (update k.objects.sockets s sock) + queuedAt (k.objects.sockets s) =
        queued k.objects.sockets + gs + queuedAt (k.objects.sockets s) := by
      rw [hupdate]
      abel
    exact add_right_cancel hsum
  refine hk.requeue ?_ (fun f hf => ?_) (hk.sound.backed.samePlace hplace)
  · rw [hnew]
    abel
  · rw [hnew] at hf
    rcases Multiset.mem_add.mp hf with hold | hadded
    · exact hk.sound.passed f hold
    · exact hflat f hadded

/-! ## Sockets without a descriptor -/

theorem FilesOk.socketClose {r w : Bool}
    (hk : FilesOk leak base locals (⟨.socket s, r, w⟩ ::ₘ pledged) k) :
    FilesOk leak base locals pledged (k.socketClose s) := by
  have hbefore := hk.sound.backed
  rw [Multiset.add_cons] at hbefore
  have hclose := hbefore.socketClose rfl
  have hclosed : FilesOk leak base
      (((socketCloseCollect k.objects.sockets s).2 : Multiset Nat) + locals) pledged
      (k.setSockets (socketCloseCollect k.objects.sockets s).1) := by
    refine hk.requeue ?_ (fun f hf => ?_) hclose.1
    · rw [hclose.2]
      abel
    · refine hk.sound.passed f ?_
      rw [hclose.2]
      exact Multiset.mem_add.mpr (.inl hf)
  exact hclosed.releases

def Table.Roomy (table : Table) (heap : Nat → Bool) : Prop :=
  table.findFree 0 ≠ none ∨ table.capacity < fdMax ∧ heap (nextCapacity table.capacity) = true

def Roomy (k : Files) (t : Nat) (heap : Nat → Bool) : Prop :=
  ∀ table, k.tables[t]? = some table → table.Roomy heap

theorem Table.findFree_ne_none {d : Nat} (hd : d < table.capacity) (hfree : table.entry d = none) :
    table.findFree 0 ≠ none := by
  unfold Table.findFree
  rw [drop_zero, Ne, map_eq_none_iff, findIdx?_eq_none_iff]
  intro hall
  have hslot : table.slots[d]? = some table.slots[d] := getElem?_eq_getElem hd
  rw [Table.entry, hslot, bind_some] at hfree
  have hused := hall table.slots[d] (getElem_mem hd)
  simp [hfree] at hused

theorem nextCapacity_bounds {c : Nat} (hpos : 0 < c) (hc : c < fdMax) :
    c < nextCapacity c ∧ nextCapacity c ≤ fdMax := by
  unfold nextCapacity
  split_ifs with hhalf
  · exact ⟨hc, le_rfl⟩
  · unfold fdMax at hhalf ⊢
    omega

theorem Table.grow_next (hpos : 0 < table.capacity)
    (hmax : table.capacity < fdMax) (hheap : heap (nextCapacity table.capacity)) :
    ∃ grown, table.grow heap (nextCapacity table.capacity) = .ok grown ∧
      grown.findFree 0 ≠ none := by
  have hbounds := nextCapacity_bounds hpos hmax
  have hdoubled : doubled fdMax table.capacity (nextCapacity table.capacity) =
      nextCapacity table.capacity := by
    show doubled (1022 + 1 + 1) _ _ = _
    rw [doubled, if_pos ⟨hbounds.1, hmax⟩, doubled, if_neg (by omega)]
  unfold Table.grow
  rw [if_neg (by omega), if_neg (by omega)]
  rw [hdoubled, if_neg (by omega), if_pos hheap]
  refine ⟨_, rfl, Table.findFree_ne_none (d := table.capacity) ?_ ?_⟩
  · simp only [Table.capacity, length_append, length_replicate] at hbounds ⊢
    omega
  · rw [Table.entry, Table.capacity, getElem?_append_right le_rfl, getElem?_replicate]
    split <;> rfl

theorem Roomy.install (hroomy : Roomy k t heap)
    (ht : k.tables[t]? = some table) (htables : ∀ table ∈ k.tables, table.Ok) (f flags : Nat) :
    ∃ k' d, k.fdInstall t heap f flags = (k', .ok d) := by
  have hroom := hroomy table ht
  have hclaim : ∃ grown d, table.claim heap 0 fdMax = (grown, .ok d) := by
    show ∃ grown d, table.claim heap 0 (1022 + 1 + 1) = (grown, .ok d)
    unfold Table.claim
    rcases hfree : table.findFree 0 with _ | d
    swap
    · exact ⟨table, d, rfl⟩
    rcases hroom with hfound | ⟨hmax, hheap⟩
    · exact absurd hfree hfound
    have hpos : 0 < table.capacity := by
      obtain ⟨j, -, hj⟩ := htables table (mem_of_getElem? ht)
      rw [hj]
      exact Nat.mul_pos (by decide) (Nat.two_pow_pos j)
    obtain ⟨grown, hgrow, hfound⟩ := Table.grow_next hpos hmax hheap
    rw [if_neg (by omega), hgrow]
    dsimp only
    unfold Table.claim
    cases hfree' : grown.findFree 0 with
    | none => exact absurd hfree' hfound
    | some d => exact ⟨grown, d, rfl⟩
  obtain ⟨grown, d, hclaim⟩ := hclaim
  unfold Files.fdInstall
  rw [ht]
  dsimp only
  rw [hclaim]
  exact ⟨_, d, rfl⟩

theorem Files.release_zero (hzero : (k.files f).references = 0) : k.release f = k := by
  exact if_pos hzero

theorem FilesOk.openSocket (hk : FilesOk leak base locals (⟨.socket s, true, true⟩ ::ₘ pledged) k)
    (t : Nat) (heap : Nat → Bool) (ht : k.tables[t]? ≠ none)
    (hcare : (∀ i, leak i) ∨ Roomy k t heap) : Outcome (fun _ => FilesOk leak base locals pledged)
      (FilesOk leak base locals (⟨.socket s, true, true⟩ ::ₘ pledged))
      (k.openSocket t heap s) := by
  unfold Files.openSocket
  rcases halloc : k.fileAllocate with _ | i
  · exact .failure hk
  have hfree := Files.fileAllocate_spec halloc
  have hfilled : FilesOk (fun j => leak j ∨ j = i) base locals
      (⟨.socket s, true, true⟩ ::ₘ pledged) (k.setFile i (describe (.socket s) true true)) :=
    hk.setFile hfree.2.1 rfl (fun _ _ => .inl) (.inl (.inr rfl))
  have hfile := k.files_setFile i (describe (.socket s) true true)
  have htables : (k.setFile i (describe (.socket s) true true)).tables = k.tables := rfl
  dsimp only
  generalize k.setFile i (describe (.socket s) true true) = filled at hfilled hfile htables ⊢
  have hinstall := hfilled.fdInstall leak t heap hfree.1 (by rw [hfile]; rfl)
    (by rw [hfile, describe_handle]) (fun j hj hjf => hjf.resolve_right hj) 0
  rcases hcare with hleak | hroomy
  · generalize filled.fdInstall t heap i 0 = result at hinstall ⊢
    rcases result with ⟨k', e | fd⟩
    · have hfailed := hinstall.error k' e rfl
      have hzero : (k'.files i).references = 0 := by
        rw [hfailed.2.files, hfile]
        rfl
      dsimp only
      rw [Files.release_zero hzero]
      exact .failure (hfailed.1.mono fun j _ => hleak j)
    · exact .success (hinstall.ok k' fd rfl).1
  · obtain ⟨table, htable⟩ := ne_none_iff_exists'.mp ht
    rw [Roomy, ← htables] at hroomy
    rw [← htables] at htable
    obtain ⟨k', fd, hok⟩ := Roomy.install hroomy htable hfilled.tables i 0
    rw [hok]
    exact .success (hinstall.ok k' fd hok).1

theorem FilesOk.socket (hk : FilesOk leak base locals pledged k) (t : Nat) (heap : Nat → Bool)
    (domain : Domain) (kind : SocketKind) (hcare : (∀ i, leak i) ∨ Roomy k t heap) :
    FilesOk leak base locals pledged (k.socket t heap domain kind).1 := by
  unfold Files.socket
  split_ifs with ht hkind
  · exact hk
  · exact hk
  rcases hfree : freeSocket k.objects.sockets with _ | s
  · exact hk
  have hs := freeSocket_spec hfree
  have hqueue : queued (update k.objects.sockets s (newSocket domain kind)) =
      queued k.objects.sockets := by
    refine queued_update_same _ s ?_
    rw [(hk.sound.backed.sockets s).idle hs.2]
    rfl
  have hpledged : FilesOk leak base locals (⟨.socket s, true, true⟩ ::ₘ pledged)
      (k.setSockets (update k.objects.sockets s (newSocket domain kind))) :=
    hk.pledge hqueue (hk.sound.backed.newSocket hs.1 hs.2 rfl rfl true true)
  have hopen := hpledged.openSocket t heap ht hcare
  dsimp only
  generalize (k.setSockets _).openSocket t heap s = result at hopen ⊢
  rcases result with ⟨k', e | fd⟩
  · exact (hopen.error k' e rfl).socketClose
  · exact hopen.ok k' fd rfl

/-! ## Connections -/

theorem FilesOk.socketId (hk : FilesOk leak base locals pledged k) (t d : Nat) :
    FilesOk leak base locals pledged (k.socketId t d).1 := by
  unfold Files.socketId
  rcases hlookup : k.lookupRef t d with _ | ⟨k', f⟩
  · exact hk
  · exact (hk.lookupRef hlookup).1.release

theorem Files.tables_socketId (k : Files) (t d : Nat) : (k.socketId t d).1.tables = k.tables ∧
      ((k.socketId t d).2 ≠ none → k.tables[t]? ≠ none) := by
  unfold Files.socketId Files.lookupRef
  cases hlookup : k.lookup t d with
  | none => exact ⟨rfl, fun hnone => absurd rfl hnone⟩
  | some f =>
    obtain ⟨table, ht, -⟩ := Files.lookup_spec hlookup
    exact ⟨Files.tables_release _ _, fun _ => by simp [ht]⟩

section

variable (hk : FilesOk leak base locals pledged k)
include hk

theorem FilesOk.listen (t d : Nat) : FilesOk leak base locals pledged (k.listen t d).1 := by
  have hfound := hk.socketId t d
  unfold Files.listen
  generalize k.socketId t d = result at hfound ⊢
  rcases result with ⟨k', _ | s⟩
  · exact hfound
  dsimp only
  split_ifs with huse hkind
  · exact hfound
  · exact hfound
  have hinUse : (k'.objects.sockets s).inUse := by simpa using huse
  have hbacked := hfound.sound.backed.setSocket s
    { k'.objects.sockets s with state := .listen } rfl rfl
    (fun hidle => absurd hinUse (by simpa using hidle))
  exact hfound.setObjects (queued_update_same _ s rfl) hbacked

theorem FilesOk.connect (t d l : Nat) : FilesOk leak base locals pledged (k.connect t d l).1 := by
  have hfound := hk.socketId t d
  unfold Files.connect
  generalize k.socketId t d = result at hfound ⊢
  rcases result with ⟨k', _ | s⟩
  · exact hfound
  dsimp only
  cases hconnect : connectUnix k'.objects.sockets s l with
  | error e => exact hfound
  | ok sockets =>
    have hconnected := hfound.sound.backed.connectUnix hconnect
    exact hfound.setObjects hconnected.2 hconnected.1

theorem FilesOk.accept (t d : Nat) (heap : Nat → Bool) (hcare : (∀ i, leak i) ∨ Roomy k t heap) :
    FilesOk leak base locals pledged (k.accept t d heap).1 := by
  have hfound := hk.socketId t d
  have htables := k.tables_socketId t d
  unfold Files.accept
  generalize k.socketId t d = result at hfound htables ⊢
  rcases result with ⟨k', _ | l⟩
  · exact hfound
  have ht : k'.tables[t]? ≠ none := by
    rw [htables.1]
    exact htables.2 (by simp)
  have hroom : (∀ i, leak i) ∨ Roomy k' t heap := by
    refine hcare.imp_right fun hroomy => ?_
    unfold Roomy at hroomy ⊢
    rwa [htables.1]
  dsimp only
  unfold acceptPending
  split_ifs with hlisten
  · rcases hpending : (k'.objects.sockets l).pending with _ | c
    · exact hfound
    have hwaiting := hfound.sound.backed.pending.waiting l c hlisten.1 hpending
    have hbound := (hfound.sound.backed.sockets c).bounded hwaiting.1
    have hpledged : FilesOk leak base locals (⟨.socket c, true, true⟩ ::ₘ pledged)
        (k'.setSockets (update k'.objects.sockets l
          { k'.objects.sockets l with pending := none })) :=
      hfound.pledge (queued_update_same _ l rfl)
        (hfound.sound.backed.accept hlisten.1 hpending true true)
    have hstill : (update k'.objects.sockets l
        { k'.objects.sockets l with pending := none } c).inUse := by
      rw [update_apply]
      split_ifs with hcl
      · subst hcl
        exact hlisten.1
      · exact hwaiting.1
    dsimp only
    rw [if_pos ⟨hbound, hstill⟩]
    have hopen := hpledged.openSocket t heap ht hroom
    dsimp only
    generalize (k'.setSockets _).openSocket t heap c = result at hopen ⊢
    rcases result with ⟨k'', e | fd⟩
    · exact (hopen.error k'' e rfl).socketClose
    · exact hopen.ok k'' fd rfl
  · exact hfound

end

/-! ## Messages -/

section

variable (hk : FilesOk leak base locals pledged k)
include hk

theorem FilesOk.transferAcquire (t d : Nat) :
    Outcome (fun f k' => FilesOk leak base (f ::ₘ locals) pledged k' ∧
        (∀ s, (k'.files f).object ≠ some (.socket s)) ∧
        ∀ g, (k'.files g).object = (k.files g).object)
      (FilesOk leak base locals pledged) (k.transferAcquire t d) := by
  unfold Files.transferAcquire
  rcases hlookup : k.lookupRef t d with _ | ⟨k', f⟩
  · exact .failure hk
  obtain ⟨hheld, rfl⟩ := hk.lookupRef hlookup
  dsimp only
  split
  · exact .failure hheld.release
  · next hplain => exact .success ⟨hheld, hplain, k.object_acquire f⟩

omit hk in
theorem FilesOk.transferAcquireAll (t : Nat) (ds acquired : List Nat)
    (hk : FilesOk leak base ((acquired : Multiset Nat) + locals) pledged k)
    (hflat : ∀ g ∈ acquired, ∀ s, (k.files g).object ≠ some (.socket s)) :
    Outcome (fun (gs : List Nat) k' =>
        FilesOk leak base ((gs : Multiset Nat) + locals) pledged k' ∧
        ∀ g ∈ gs, ∀ s, (k'.files g).object ≠ some (.socket s))
      (FilesOk leak base locals pledged) (Files.transferAcquireAll t ds acquired k) := by
  induction ds generalizing acquired k with
  | nil => exact .success ⟨hk, hflat⟩
  | cons d ds ih =>
    have hacquire := hk.transferAcquire t d
    unfold Files.transferAcquireAll
    generalize k.transferAcquire t d = result at hacquire ⊢
    rcases result with ⟨k', e | f⟩
    · exact .failure (hacquire.error k' e rfl).releases
    have hnext := hacquire.ok k' f rfl
    refine ih (acquired ++ [f]) ?_ fun g hg => ?_
    · rw [← Multiset.coe_add, Multiset.coe_singleton, add_comm (acquired : Multiset Nat),
        Multiset.singleton_add, Multiset.cons_add]
      exact hnext.1
    · rcases mem_append.mp hg with hold | hnew
      · intro s
        rw [hnext.2.2 g]
        exact hflat g hold s
      · rw [mem_singleton.mp hnew]
        exact hnext.2.1

theorem FilesOk.socketAcquire (t d : Nat) :
    Outcome (fun r k' => FilesOk leak base (r.2 ::ₘ locals) pledged k' ∧ r.1 < socketMax ∧
        ∀ g, (k'.files g).object = (k.files g).object)
      (FilesOk leak base locals pledged) (k.socketAcquire t d) := by
  unfold Files.socketAcquire
  rcases hlookup : k.lookupRef t d with _ | ⟨k', f⟩
  · exact .failure hk
  obtain ⟨hheld, rfl⟩ := hk.lookupRef hlookup
  dsimp only
  split
  · next s _ =>
    split_ifs with hs
    · exact .success ⟨hheld, hs, k.object_acquire f⟩
    · exact .failure hheld.release
  · exact .failure hheld.release

omit hk in
theorem socketSendmsg_spec {sockets' : Nat → Socket}
    (h : socketSendmsg sockets s bytes files = .ok (sockets', n)) :
    files = [] ∧ sockets' = sockets ∨
    ∃ p < socketMax, ∃ peer, sockets' = update sockets p peer ∧
      SamePlace (sockets p) peer ∧
      (queuedAt peer : Multiset Nat) = queuedAt (sockets p) + files := by
  unfold socketSendmsg at h
  split_ifs at h with hnet
  · exact .inl ⟨hnet.1, (Prod.mk.inj (Except.ok.inj h)).1.symm⟩
  cases hpeer : peerOf sockets s with
  | none =>
    simp only [hpeer] at h
    cases hsend : unixSendmsg (sockets s) none bytes files with
    | error e => simp [hsend] at h
    | ok sent =>
      simp only [hsend] at h
      exact .inl ⟨unixSendmsg_none hsend, (Prod.mk.inj (Except.ok.inj h)).1.symm⟩
  | some p =>
    have hp : p < socketMax := by exact of_decide_eq_true (filter_eq_some_iff.mp hpeer).2
    simp only [hpeer] at h
    rcases hsend : unixSendmsg (sockets s) (some (sockets p)) bytes files with e | sent
    · simp [hsend] at h
    rcases sent with ⟨_ | peer, m⟩
    · exact absurd hsend unixSendmsg_to_none
    simp only [hsend] at h
    have hspec := unixSendmsg_spec hsend
    exact .inr ⟨p, hp, peer, (Prod.mk.inj (Except.ok.inj h)).1.symm, hspec.1, hspec.2⟩

theorem FilesOk.sendmsg (t d : Nat) (bytes : List UInt8) (ds : List Nat) :
    FilesOk leak base locals pledged (k.sendmsg t d bytes ds).1 := by
  have hstart : FilesOk leak base ((([] : List Nat) : Multiset Nat) + locals) pledged k := by
    simpa using hk
  have hacquire := FilesOk.transferAcquireAll t ds [] hstart (by simp)
  unfold Files.sendmsg
  generalize Files.transferAcquireAll t ds [] k = result at hacquire ⊢
  rcases result with ⟨k₁, e | transfers⟩
  · exact hacquire.error k₁ e rfl
  have htransfers := hacquire.ok k₁ transfers rfl
  have hsocket := htransfers.1.socketAcquire t d
  dsimp only
  generalize k₁.socketAcquire t d = result at hsocket ⊢
  rcases result with ⟨k₂, e | ⟨s, reference⟩⟩
  · exact (hsocket.error k₂ e rfl).releases
  have hheld := hsocket.ok k₂ (s, reference) rfl
  dsimp only
  rcases hsend : socketSendmsg k₂.objects.sockets s bytes transfers with e | sent
  · exact hheld.1.release.releases
  obtain ⟨sockets, n⟩ := sent
  refine FilesOk.release ?_
  rcases socketSendmsg_spec hsend with ⟨hnone, hsame⟩ | ⟨p, hp, peer, hsame, hplace, hqueue⟩
  · rw [hsame]
    have hplain : FilesOk leak base (reference ::ₘ locals) pledged k₂ := by
      simpa [hnone] using hheld.1
    exact hplain
  rw [hsame]
  have hready : FilesOk leak base ((transfers : Multiset Nat) + (reference ::ₘ locals))
      pledged k₂ := by
    rw [Multiset.add_cons]
    exact hheld.1
  refine hready.enqueue hp hplace hqueue fun g hg s' => ?_
  rw [hheld.2.2 g]
  exact htransfers.2 g hg s'

end

/-- Installing descriptions in entries found free, one after the other. -/
def Files.installOne (t : Nat) (k : Files) (df : Nat × Nat) : Files :=
  (k.putSlot t df.1 ⟨some df.2, (k.slot t df.1).elim 0 Slot.flags⟩).fileAcquire df.2

theorem FilesOk.installOnes (t : Nat) (dfs : List (Nat × Nat))
    (hk : FilesOk leak base locals pledged k) (hnodup : (dfs.map Prod.fst).Nodup)
    (hfree : ∀ df ∈ dfs, ∃ slot, k.slot t df.1 = some slot ∧ slot.file = none)
    (hused : ∀ df ∈ dfs, (k.files df.2).references ≠ 0) :
    FilesOk leak base locals pledged (dfs.foldl (Files.installOne t) k) ∧
      (dfs.foldl (Files.installOne t) k).objects = k.objects := by
  induction dfs generalizing k with
  | nil => exact ⟨hk, rfl⟩
  | cons df dfs ih =>
    obtain ⟨slot, hslot, hnone⟩ := hfree df (by simp)
    obtain ⟨table, ht, hd⟩ := bind_eq_some_iff.mp hslot
    have hone : k.installOne t df =
        k.share t table df.1 df.2 ((k.slot t df.1).elim 0 Slot.flags) := by
      rw [Files.installOne, Files.putSlot_eq ht, Files.share]
    have hstep : FilesOk leak base locals pledged (k.installOne t df) := by
      rw [hone]
      exact hk.share (.inl (hused df (by simp))) ht (.refl table) hd hnone _
    rw [map_cons, nodup_cons] at hnodup
    have hrest := ih hstep hnodup.2 (fun df' hdf' => ?_) (fun df' hdf' => ?_)
    · refine ⟨hrest.1, hrest.2.trans ?_⟩
      rw [hone]
      rfl
    · have hne : df.1 ≠ df'.1 := by
        intro heq
        exact hnodup.1 (heq ▸ mem_map_of_mem hdf')
      obtain ⟨slot', hslot', hnone'⟩ := hfree df' (by simp [hdf'])
      refine ⟨slot', ?_, hnone'⟩
      rw [hone]
      show (k.setTable t (table.put df.1 _)).slot t df'.1 = _
      rw [Files.slot_setTable ht, Table.put]
      rw [Files.slot, ht, bind_some] at hslot'
      rw [← hslot']
      exact getElem?_set_ne hne
    · rw [hone]
      show (update k.files df.2 _ df'.2).references ≠ 0
      by_cases heq : df'.2 = df.2
      · rw [heq, update_self]
        exact Nat.succ_ne_zero _
      · rw [update_of_ne heq]
        exact hused df' (by simp [hdf'])

section

variable (hk : FilesOk leak base locals pledged k)
include hk

theorem FilesOk.installMany (t : Nat) (heap : Nat → Bool)
    (files : List Nat) (hused : ∀ f ∈ files, (k.files f).references ≠ 0) :
    FilesOk leak base locals pledged (k.installMany t heap files).1 ∧
      (k.installMany t heap files).1.objects = k.objects := by
  unfold Files.installMany
  rcases ht : k.tables[t]? with _ | table
  · exact ⟨hk, rfl⟩
  have hfound : FoundOk table ((table.freeIn 0 table.capacity).take files.length) := by
    constructor
    · exact (table.freeIn_nodup _ _).sublist (take_sublist _ _)
    · intro d hd
      exact (Table.freeIn_spec (mem_of_mem_take hd)).2
  have hclaim := Table.claimMany_spec heap files.length fdMax (hk.tableOk ht) hfound
  dsimp only
  generalize table.claimMany heap files.length fdMax _ = result at hclaim ⊢
  rcases result with ⟨grown, e | found⟩
  · exact ⟨hk.grown ht hclaim.1, rfl⟩
  have hspec := hclaim.2 found rfl
  have hset : FilesOk leak base locals pledged (k.setTable t grown) := hk.grown ht hclaim.1
  refine hset.installOnes t (found.zip files) ?_ (fun df hdf => ?_) (fun df hdf => ?_)
  · rw [map_fst_zip (by omega)]
    exact hspec.1.nodup
  · have hfree := hspec.1.free df.1 (of_mem_zip hdf).1
    have hlt : df.1 < grown.slots.length := hfree.1
    have hslot : grown.slots[df.1]? = some grown.slots[df.1] := getElem?_eq_getElem hlt
    refine ⟨_, (Files.slot_setTable ht grown df.1).trans hslot, ?_⟩
    have hentry := hfree.2
    rwa [Table.entry, hslot, bind_some] at hentry
  · exact hused df.2 (of_mem_zip hdf).2

theorem FilesOk.deliver (t : Nat) (found : List Nat) (cloexec faults : Bool) :
    FilesOk leak base locals pledged (k.deliver t found cloexec faults) := by
  have hmark : FilesOk leak base locals pledged
      (found.foldl (fun k d => (k.setFd t d fdCloexec).1) k) :=
    found.foldlRecOn _ hk fun _ hk d _ => hk.setFd t d fdCloexec
  have hclose : ∀ {k : Files}, FilesOk leak base locals pledged k →
      FilesOk leak base locals pledged (found.foldl (fun k d => (k.close t d).1) k) :=
    fun hk => found.foldlRecOn _ hk fun _ hk d _ => hk.close t d
  cases cloexec with
  | false =>
    cases faults with
    | false => exact hk
    | true => exact hclose hk
  | true =>
    cases faults with
    | false => exact hmark
    | true => exact hclose hmark

theorem FilesOk.queued_used (hs : s < socketMax) (hf : f ∈ queuedAt (k.objects.sockets s)) :
    (k.files f).references ≠ 0 := by
  have hupdate := queued_update k.objects.sockets hs { k.objects.sockets s with records := [] }
  have hempty : (queuedAt { k.objects.sockets s with records := [] } : Multiset Nat) = 0 := rfl
  rw [hempty, add_zero] at hupdate
  have hmem : f ∈ queued k.objects.sockets := by
    rw [← hupdate]
    exact Multiset.mem_add.mpr (.inr hf)
  have hcount := hk.sound.counted f
  have hpos := Multiset.count_pos.mpr hmem
  omega

theorem FilesOk.recvmsg (t d capacity fdCapacity : Nat) (heap : Nat → Bool) (cloexec faults : Bool) :
    FilesOk leak base locals pledged
      (k.recvmsg t d capacity fdCapacity heap cloexec faults).1 := by
  have hsocket := hk.socketAcquire t d
  unfold Files.recvmsg
  generalize k.socketAcquire t d = result at hsocket ⊢
  rcases result with ⟨k₁, e | ⟨s, reference⟩⟩
  · exact hsocket.error k₁ e rfl
  have hheld := hsocket.ok k₁ (s, reference) rfl
  dsimp only
  rcases hbegin : recvmsgBegin (k₁.objects.sockets s) capacity fdCapacity with answer | receipt
  · rcases answer with e | n <;> exact hheld.1.release
  have hspec := recvmsgBegin_spec hbegin
  have hinstall := hheld.1.installMany t heap (receipt.files.take receipt.delivered)
    fun f hf => hheld.1.queued_used hheld.2.1 (hspec.2.queued f (mem_of_mem_take hf))
  dsimp only
  generalize k₁.installMany t heap (receipt.files.take receipt.delivered) = result at hinstall ⊢
  rcases result with ⟨k₂, e | found⟩
  · exact hinstall.1.release
  have hobjects : k₂.objects = k₁.objects := hinstall.2
  rw [← hobjects] at hspec
  have hcommit := recvmsgCommit_spec hspec.1 hspec.2
  have hdequeued := hinstall.1.dequeue hheld.2.1 hcommit.1 hcommit.2
  exact hdequeued.releases.release.deliver t found cloexec faults

theorem FilesOk.recv (t d len : Nat) : FilesOk leak base locals pledged (k.recv t d len).1 := by
  have hsocket := hk.socketAcquire t d
  unfold Files.recv
  generalize k.socketAcquire t d = result at hsocket ⊢
  rcases result with ⟨k₁, e | ⟨s, reference⟩⟩
  · exact hsocket.error k₁ e rfl
  have hheld := hsocket.ok k₁ (s, reference) rfl
  have hreceived := recvfrom_spec (k₁.objects.sockets s) len
  exact (hheld.1.dequeue hheld.2.1 hreceived.1 hreceived.2).releases.release

end

end XsCore.File
