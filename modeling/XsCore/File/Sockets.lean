import XsCore.Foundation.Tally
import XsCore.File.Objects

/-! # Sockets behind descriptions

Creating, connecting, accepting and closing sockets of the pool, as far as descriptions depend on
it: which sockets are in use, which connections wait at a listening socket, and which descriptions
are queued where.
-/

namespace XsCore.File

open XsCore.Ipc Function Handle

variable {base : Base} {live live' : Multiset Handle} {o : Objects} {h : Handle}
variable {sock : Socket} {l c : Nat}

def newSocket (domain : Domain) (kind : SocketKind) : Socket where
  inUse := true
  domain := domain
  kind := kind
  state := .closed
  localIp := 0x0F02000A
  localPort := 0
  remoteIp := 0
  remotePort := 0
  seq := 0
  ack := 0
  readShutdown := false
  writeShutdown := false
  peerWriteShutdown := false
  rx := emptyRx
  readPosition := 0
  writePosition := 0
  records := []
  peer := none
  pending := none

def freeSocket (sockets : Nat → Socket) : Option Nat :=
  (List.range socketMax).find? fun s => !(sockets s).inUse

def unixChild (client : Nat) : Socket :=
  { newSocket .unix .stream with state := .established, localIp := 0, peer := some client }

/-- `xscore_socket_connect_unix` of socket `s`; the path has led to socket `l`. -/
def connectUnix (sockets : Nat → Socket) (s l : Nat) : Except FdError (Nat → Socket) :=
  if !(sockets s).inUse || decide ((sockets s).domain ≠ .unix) ||
      decide ((sockets s).kind ≠ .stream) then .error .invalid
  else if !(sockets l).inUse || decide ((sockets l).domain ≠ .unix) ||
      decide ((sockets l).kind ≠ .stream) || decide ((sockets l).state ≠ .listen) then
    .error .noEntry
  else if (sockets l).pending.isSome then .error .again
  else
    match freeSocket sockets with
    | none => .error .tooManyFiles
    | some c =>
      let sockets := update sockets c (unixChild s)
      let sockets := update sockets s
        { sockets s with peer := some c, state := .established }
      .ok (update sockets l { sockets l with pending := some c })

/-- One round of `xscore_socket_accept`: the connection that waits at socket `l`. -/
def acceptPending (sockets : Nat → Socket) (l : Nat) : Option ((Nat → Socket) × Option Nat) :=
  if (sockets l).inUse = true ∧ (sockets l).state = .listen then
    match (sockets l).pending with
    | none => some (sockets, none)
    | some c =>
      let sockets := update sockets l { sockets l with pending := none }
      some (sockets, if c < socketMax ∧ (sockets c).inUse = true then some c else none)
  else none

/-! ## The pool -/

variable {s : Nat} {sockets : Nat → Socket}

theorem Handle.plays_socket {r : Role} (hr : r ≠ .socket s) {h : Handle}
    (hobject : h.object = .socket s) : h.plays r = false := by
  cases r with
  | socket q =>
    have hq : s ≠ q := fun heq => hr (by rw [heq])
    simp [plays, hobject, hq]
  | _ => simp [plays, hobject]

theorem field_update {α : Type} (field : Socket → α) (q : Nat)
    (hsame : field sock = field (sockets s)) :
    field (update sockets s sock q) = field (sockets q) := by
  by_cases hq : q = s
  · rw [hq, update_self, hsame]
  · rw [update_of_ne hq]

theorem pending_update (sockets : Nat → Socket) (l : Nat) (pending : Option Nat) (q : Nat) :
    (update sockets l { sockets l with pending } q).inUse = (sockets q).inUse ∧
    (update sockets l { sockets l with pending } q).records = (sockets q).records :=
  ⟨field_update Socket.inUse q rfl, field_update Socket.records q rfl⟩

/-- Connections that waited before still wait; none begins to. -/
theorem PendingOk.shrink {sockets' : Nat → Socket} (hp : PendingOk live sockets)
    (hback : ∀ l c, (sockets' l).inUse → (sockets' l).pending = some c →
      (sockets l).inUse ∧ (sockets l).pending = some c)
    (hkept : ∀ l c, (sockets' l).inUse → (sockets' l).pending = some c →
      (sockets c).inUse → tally live (.socket c) = 0 →
      (sockets' c).inUse ∧ tally live' (.socket c) = 0) : PendingOk live' sockets' where
  waiting l c hl hc := by
    have hold := hback l c hl hc
    have hwaiting := hp.waiting l c hold.1 hold.2
    exact hkept l c hl hc hwaiting.1 hwaiting.2
  once l l' c hl hl' hc hc' := by
    have hfirst := hback l c hl hc
    have hsecond := hback l' c hl' hc'
    exact hp.once l l' c hfirst.1 hsecond.1 hfirst.2 hsecond.2

theorem Backed.setSockets (hb : Backed base live o)
    (hsame : ∀ r, (∀ s, r ≠ .socket s) → tally live' r = tally live r)
    (hsockets : ∀ s, SocketBacked live' s (sockets s)) (hpending : PendingOk live' sockets) :
    Backed base live' { o with sockets := sockets } where
  pipes p := (hb.pipes p).congr (hsame _ (by simp)) (hsame _ (by simp))
  ptys n := (hb.ptys n).congr (hsame _ (by simp)) (hsame _ (by simp))
  nodes n hn := by rw [hb.nodes n hn, hsame _ (by simp)]
  sockets := hsockets
  pending := hpending

@[irreducible]
def queued (sockets : Nat → Socket) : Multiset Nat :=
  ∑ s ∈ Finset.range socketMax, (queuedAt (sockets s) : Multiset Nat)

theorem queued_congr {sockets' : Nat → Socket}
    (hsame : ∀ s, (sockets' s).records = (sockets s).records) :
    queued sockets' = queued sockets := by
  unfold queued queuedAt
  simp only [hsame]

theorem queued_update (sockets : Nat → Socket) (hs : s < socketMax) (sock : Socket) :
    queued (update sockets s sock) + queuedAt (sockets s) =
      queued sockets + queuedAt sock := by
  unfold queued
  exact Tally.sum_range_update (fun sock => (queuedAt sock : Multiset Nat)) sockets hs sock

theorem orphanPeer_same (sockets : Nat → Socket) (s q : Nat) :
    (orphanPeer sockets s q).inUse = (sockets q).inUse ∧
    (orphanPeer sockets s q).records = (sockets q).records ∧
    (orphanPeer sockets s q).pending = (sockets q).pending := by
  unfold orphanPeer
  rcases (sockets s).peer with _ | p
  · exact ⟨rfl, rfl, rfl⟩
  dsimp only
  split_ifs
  · rw [update_apply]
    split_ifs with hq
    · subst hq
      exact ⟨rfl, rfl, rfl⟩
    · exact ⟨rfl, rfl, rfl⟩
  · exact ⟨rfl, rfl, rfl⟩

theorem Backed.socketClose (hb : Backed base (h ::ₘ live) o) (hobject : h.object = .socket s) :
    let r := socketCloseCollect o.sockets s
    Backed base live { o with sockets := r.1 } ∧
      queued o.sockets = queued r.1 + (r.2 : Multiset Nat) := by
  have hplays : h.plays (.socket s) := by simp [plays, hobject]
  have hhere := hb.sockets s
  have hsingle := hhere.single
  simp only [tally_cons, hplays, if_true] at hsingle
  have huse : (o.sockets s).inUse := hhere.used (by simp [hplays])
  have hbound := hhere.bounded huse
  have hopen : ¬ (socketMax ≤ s ∨ (o.sockets s).inUse = false) := by
    simp only [huse, Bool.true_eq_false, or_false]
    omega
  have hother : ∀ q ≠ s, tally live (.socket q) = tally (h ::ₘ live) (.socket q) := by
    intro q hq
    rw [tally_cons, plays_socket (by simpa using hq) hobject]
    simp
  simp only [socketCloseCollect, if_neg hopen]
  constructor
  · refine hb.setSockets (fun r hr => ?_) (fun q => ?_) (hb.pending.shrink (fun l c hl hc => ?_)
      fun l c hl hc huse hnone => ?_)
    · rw [tally_cons, plays_socket (hr s) hobject]
      simp
    · by_cases hq : q = s
      · subst hq
        rw [update_self]
        exact ⟨by omega, fun hpos => absurd hpos (by omega), fun _ => rfl,
          fun h => absurd h (by simp [Socket.shut])⟩
      have hsame := orphanPeer_same o.sockets s q
      have hq' := hb.sockets q
      rw [update_of_ne hq]
      constructor
      · rw [hother q hq]
        exact hq'.single
      · rw [hother q hq, hsame.1]
        exact hq'.used
      · rw [hsame.1, hsame.2.1]
        exact hq'.idle
      · rw [hsame.1]
        exact hq'.bounded
    · by_cases hls : l = s
      · subst hls
        simp [Socket.shut] at hl
      have hsame := orphanPeer_same o.sockets s l
      rw [update_of_ne hls] at hl hc
      rw [hsame.1] at hl
      rw [hsame.2.2] at hc
      exact ⟨hl, hc⟩
    · have hcs : c ≠ s := by
        rintro rfl
        simp [hplays] at hnone
      rw [update_of_ne hcs, (orphanPeer_same o.sockets s c).1, hother c hcs]
      exact ⟨huse, hnone⟩
  · have hupdate := queued_update (orphanPeer o.sockets s) hbound (orphanPeer o.sockets s s).shut
    have hsame : queued (orphanPeer o.sockets s) = queued o.sockets :=
      queued_congr fun q => (orphanPeer_same o.sockets s q).2.1
    have hqueue : queuedAt (orphanPeer o.sockets s s) = queuedAt (o.sockets s) := by
      unfold queuedAt
      rw [(orphanPeer_same o.sockets s s).2.1]
    rw [hsame, hqueue] at hupdate
    have hempty : (queuedAt (orphanPeer o.sockets s s).shut : Multiset Nat) = 0 := rfl
    rw [hempty, add_zero] at hupdate
    exact hupdate.symm

section

variable (hb : Backed base live o)
include hb

theorem Backed.setSocket (s : Nat) (sock : Socket)
    (huse : sock.inUse = (o.sockets s).inUse) (hpending : sock.pending = (o.sockets s).pending)
    (hidle : sock.inUse = false → sock.records = []) :
    Backed base live { o with sockets := update o.sockets s sock } := by
  have huse' := fun q => field_update Socket.inUse q huse
  refine hb.setSockets (fun _ _ => rfl) (fun q => ?_) (hb.pending.shrink (fun l c hl hc => ?_)
    fun l c _ _ hc hnone => ?_)
  · constructor
    · exact (hb.sockets q).single
    · rw [huse']
      exact (hb.sockets q).used
    · rw [update_apply]
      split_ifs with hq
      · subst hq
        exact hidle
      · exact (hb.sockets q).idle
    · rw [huse']
      exact (hb.sockets q).bounded
  · rw [huse'] at hl
    rw [field_update Socket.pending l hpending] at hc
    exact ⟨hl, hc⟩
  · rw [huse']
    exact ⟨hc, hnone⟩

theorem Backed.takeSocket (hs : s < socketMax)
    (hfree : (o.sockets s).inUse = false) (huse : sock.inUse)
    (hpending : sock.pending = none) (hsame : ∀ r ≠ .socket s, tally live' r = tally live r)
    (hsingle : tally live' (.socket s) ≤ 1) :
    Backed base live' { o with sockets := update o.sockets s sock } := by
  refine hb.setSockets (fun role hr => hsame role (hr s)) (fun q => ?_)
    (hb.pending.shrink (fun l c hl hc => ?_) fun l c _ _ hc hnone => ?_)
  · rw [update_apply]
    split_ifs with hq
    · subst hq
      exact ⟨hsingle, fun _ => huse, fun hidle => absurd huse (by simp [hidle]), fun _ => hs⟩
    · exact (hb.sockets q).congr (hsame _ (by simpa using hq))
  · by_cases hls : l = s
    · subst hls
      rw [update_self, hpending] at hc
      cases hc
    · rw [update_of_ne hls] at hl hc
      exact ⟨hl, hc⟩
  · -- A waiting connection is in use, so it is not the socket taken.
    have hcs : c ≠ s := by
      rintro rfl
      simp [hfree] at hc
    rw [update_of_ne hcs, hsame _ (by simpa using hcs)]
    exact ⟨hc, hnone⟩

theorem Backed.unused_socket (hfree : (o.sockets s).inUse = false) :
    tally live (.socket s) = 0 := by
  by_contra hpos
  have hused := (hb.sockets s).used (by omega)
  rw [hfree] at hused
  cases hused

theorem Backed.newSocket (hs : s < socketMax)
    (hfree : (o.sockets s).inUse = false) (huse : sock.inUse)
    (hpending : sock.pending = none) (r w : Bool) : Backed base (⟨.socket s, r, w⟩ ::ₘ live)
      { o with sockets := update o.sockets s sock } := by
  refine hb.takeSocket hs hfree huse hpending (fun role hr => ?_) ?_
  · rw [tally_cons, plays_socket hr rfl]
    simp
  · rw [tally_cons, hb.unused_socket hfree, Nat.zero_add]
    split <;> simp

theorem Backed.setPending (hl : (o.sockets l).inUse) (hc : (o.sockets c).inUse)
    (hnone : tally live (.socket c) = 0)
    (hnew : ∀ m, (o.sockets m).inUse → (o.sockets m).pending ≠ some c) : Backed base live { o with
      sockets := update o.sockets l { o.sockets l with pending := some c } } := by
  have hplace := pending_update o.sockets l (some c)
  have hback : ∀ m d,
      (update o.sockets l { o.sockets l with pending := some c } m).inUse →
      (update o.sockets l { o.sockets l with pending := some c } m).pending = some d →
      m = l ∧ d = c ∨ m ≠ l ∧ d ≠ c ∧ (o.sockets m).inUse ∧
        (o.sockets m).pending = some d := by
    intro m d hm hd
    rw [(hplace m).1] at hm
    rw [update_apply] at hd
    split_ifs at hd with hml
    · subst hml
      exact .inl ⟨rfl, (Option.some.inj hd).symm⟩
    · exact .inr ⟨hml, fun hdc => hnew m hm (hdc ▸ hd), hm, hd⟩
  refine hb.setSockets (fun _ _ => rfl) (fun q => ?_) ⟨fun m d hm hd => ?_,
    fun m m' d hm hm' hd hd' => ?_⟩
  · have hq := hb.sockets q
    constructor
    · exact hq.single
    · rw [(hplace q).1]
      exact hq.used
    · rw [(hplace q).1, (hplace q).2]
      exact hq.idle
    · rw [(hplace q).1]
      exact hq.bounded
  · rw [(hplace d).1]
    rcases hback m d hm hd with ⟨-, rfl⟩ | ⟨-, -, hold, hpending⟩
    · exact ⟨hc, hnone⟩
    · exact hb.pending.waiting m d hold hpending
  · rcases hback m d hm hd with ⟨rfl, rfl⟩ | ⟨-, hne, hold, hpending⟩
    · rcases hback m' d hm' hd' with ⟨rfl, -⟩ | ⟨-, hne, -⟩
      · rfl
      · exact absurd rfl hne
    · rcases hback m' d hm' hd' with ⟨-, rfl⟩ | ⟨-, -, hold', hpending'⟩
      · exact absurd rfl hne
      · exact hb.pending.once m m' d hold hold' hpending hpending'

end

theorem freeSocket_spec (h : freeSocket sockets = some s) :
    s < socketMax ∧ (sockets s).inUse = false := by
  have hmem := List.mem_of_find?_eq_some h
  have hfree := List.find?_some h
  exact ⟨List.mem_range.mp hmem, by simpa using hfree⟩

theorem Backed.accept (hb : Backed base live o) (hl : (o.sockets l).inUse)
    (hc : (o.sockets l).pending = some c) (r w : Bool) :
    Backed base (⟨.socket c, r, w⟩ ::ₘ live) { o with
      sockets := update o.sockets l { o.sockets l with pending := none } } := by
  have hwaiting := hb.pending.waiting l c hl hc
  have hother : ∀ q, q ≠ c →
      tally (⟨.socket c, r, w⟩ ::ₘ live) (.socket q) = tally live (.socket q) := by
    intro q hq
    rw [tally_cons, plays_socket (s := c) (by simpa using hq) rfl]
    simp
  have hplace := pending_update o.sockets l none
  have hback : ∀ m d,
      (update o.sockets l { o.sockets l with pending := none } m).inUse →
      (update o.sockets l { o.sockets l with pending := none } m).pending = some d →
      m ≠ l ∧ (o.sockets m).inUse ∧ (o.sockets m).pending = some d := by
    intro m d hm hd
    by_cases hml : m = l
    · subst hml
      rw [update_self] at hd
      cases hd
    · rw [update_of_ne hml] at hm hd
      exact ⟨hml, hm, hd⟩
  refine hb.setSockets (fun role hr => ?_) (fun q => ?_)
    (hb.pending.shrink (fun m d hm hd => (hback m d hm hd).2) fun m d hm hd hd' hnone => ?_)
  · rw [tally_cons, plays_socket (hr c) rfl]
    simp
  · have hq := hb.sockets q
    constructor
    · by_cases hqc : q = c
      · subst hqc
        simp [hwaiting.2, plays]
      · rw [hother q hqc]
        exact hq.single
    · rw [(hplace q).1]
      intro hpos
      by_cases hqc : q = c
      · rw [hqc]
        exact hwaiting.1
      · rw [hother q hqc] at hpos
        exact hq.used hpos
    · rw [(hplace q).1, (hplace q).2]
      exact hq.idle
    · rw [(hplace q).1]
      exact hq.bounded
  · obtain ⟨hml, hold, hpending⟩ := hback m d hm hd
    have hdc : d ≠ c := by
      rintro rfl
      exact hml (hb.pending.once m l d hold hl hpending hc)
    rw [(hplace d).1, hother d hdc]
    exact ⟨hd', hnone⟩

theorem queued_update_same (sockets : Nat → Socket) (s : Nat)
    (hsame : sock.records = (sockets s).records) :
    queued (update sockets s sock) = queued sockets :=
  queued_congr fun q => field_update Socket.records q hsame

theorem Backed.connectUnix (hb : Backed base live o)
    (hconnect : connectUnix o.sockets s l = .ok sockets) :
    Backed base live { o with sockets := sockets } ∧ queued sockets = queued o.sockets := by
  unfold File.connectUnix at hconnect
  split_ifs at hconnect with hclient hlistener hpending
  simp only [Bool.or_eq_true, not_or, Bool.not_eq_true, Bool.not_eq_false'] at hclient hlistener
  have hs : (o.sockets s).inUse := hclient.1.1
  have hl : (o.sockets l).inUse := hlistener.1.1.1
  rcases hfree : freeSocket o.sockets with _ | c
  · simp [hfree] at hconnect
  have hc := freeSocket_spec hfree
  simp only [hfree, Except.ok.injEq] at hconnect
  have hsc : s ≠ c := by
    rintro rfl
    simp [hs] at hc
  have hlc : l ≠ c := by
    rintro rfl
    simp [hl] at hc
  have hnone := hb.unused_socket hc.2
  have hchild : Backed base live
      { o with sockets := update o.sockets c (unixChild s) } :=
    hb.takeSocket hc.1 hc.2 rfl rfl (fun _ _ => rfl) (by omega)
  have hidle := (hb.sockets c).idle hc.2
  generalize hfirst : update o.sockets c (unixChild s) = first at hconnect hchild
  have hfirstc : (first c).inUse := by
    rw [← hfirst, update_self]
    rfl
  have hfirsts : (first s).inUse := by
    rw [← hfirst, update_of_ne hsc]
    exact hs
  have hfirstl : (first l).inUse := by
    rw [← hfirst, update_of_ne hlc]
    exact hl
  -- Nobody waits as `c`: it was not in use.
  have hnew : ∀ m, (first m).inUse → (first m).pending ≠ some c := by
    intro m hm hmc
    rw [← hfirst] at hm hmc
    by_cases hmc' : m = c
    · subst hmc'
      simp [unixChild, File.newSocket] at hmc
    rw [update_of_ne hmc'] at hm hmc
    have hwaiting := (hb.pending.waiting m c hm hmc).1
    rw [hc.2] at hwaiting
    cases hwaiting
  have hclient := hchild.setSocket s { first s with peer := some c, state := .established }
    rfl rfl (fun hidle => absurd hfirsts (by simpa using hidle))
  generalize hsecond : update first s
    { first s with peer := some c, state := .established } = second at hconnect hclient
  have hplace : ∀ q, (second q).inUse = (first q).inUse ∧
      (second q).pending = (first q).pending := by
    intro q
    rw [← hsecond]
    exact ⟨field_update Socket.inUse q rfl, field_update Socket.pending q rfl⟩
  have hlast := hclient.setPending (l := l) (c := c) (by rw [(hplace l).1, hfirstl])
    (by rw [(hplace c).1, hfirstc]) hnone fun m hm => by
      rw [(hplace m).1] at hm
      rw [(hplace m).2]
      exact hnew m hm
  rw [← hconnect]
  refine ⟨hlast, ?_⟩
  calc queued (update second l { second l with pending := some c })
    _ = queued second := queued_update_same second l rfl
    _ = queued first := by rw [← hsecond]; exact queued_update_same first s rfl
    _ = queued o.sockets := by
      rw [← hfirst]
      exact queued_update_same o.sockets c (by rw [hidle]; rfl)

/-! ## Releasing -/

def Object.plain : Object → Bool
  | .directory _ | .vnode _ | .pipe _ | .ptyMaster _ | .ptySlave _ | .socket _ => false
  | _ => true

theorem Handle.plays_plain (hplain : h.object.plain) (r : Role) : h.plays r = false := by
  obtain ⟨object, readable, writable⟩ := h
  cases object <;> simp_all [Object.plain] <;> cases r <;> simp [plays]

theorem Backed.plain (hb : Backed base live o) (hplain : h.object.plain) :
    Backed base (h ::ₘ live) o :=
  hb.congr fun r => by simp [plays_plain hplain]

theorem Backed.unplain (hb : Backed base (h ::ₘ live) o) (hplain : h.object.plain) :
    Backed base live o :=
  hb.congr fun r => by simp [plays_plain hplain]

theorem Objects.nodeRelease_sockets (o : Objects) (n : Nat) :
    (o.nodeRelease n).sockets = o.sockets := by
  unfold Objects.nodeRelease
  split_ifs <;> rfl

theorem Backed.release (hb : Backed base (h ::ₘ live) o) : Backed base live (o.release h).1 ∧
      queued o.sockets = queued (o.release h).1.sockets + ((o.release h).2 : Multiset Nat) := by
  have hsame : ∀ {q : Multiset Nat}, q = q + (([] : List Nat) : Multiset Nat) := by
    intro q
    simp
  obtain ⟨object, readable, writable⟩ := h
  cases object with
  | pipe p =>
    refine ⟨hb.setPipe (fun r hr hw => ?_) (hb.pipes p).close, hsame⟩
    rw [tally_cons, plays_pipe hr hw]
    simp
  | directory n | vnode n =>
    have hqueue : queued (o.nodeRelease n).sockets = queued o.sockets := by
      rw [Objects.nodeRelease_sockets]
    exact ⟨hb.nodeRelease (by simp), hqueue.symm.trans hsame⟩
  | ptyMaster n | ptySlave n =>
    refine ⟨hb.setPty (fun r hm hs => ?_) (PtyBacked.close rfl (hb.ptys n)), hsame⟩
    rw [tally_cons, plays_pty hm hs (by simp)]
    simp
  | socket s => exact hb.socketClose rfl
  | _ => exact ⟨hb.unplain rfl, hsame⟩

end XsCore.File
