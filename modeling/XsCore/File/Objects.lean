import XsCore.Ipc.Tcp
import Mathlib.Algebra.BigOperators.Group.Finset.Basic

/-! # What descriptions refer to

The objects behind the open file descriptions of `kernel/file.c`: pipes and pseudo terminals with a
count for each end, references to file system nodes, and sockets.  Every count is backed by a
multiset of handles, the descriptions that are open; taking and releasing an object keeps it so.
-/

namespace XsCore.File

open Ring XsCore.Ipc Function

def pipePoolSize : Nat := 512

def pipeBufSize : Nat := 4096

def ptyMax : Nat := 4

def maxNodes : Nat := 8192

inductive FdError where
  | badFile | tooManyFiles | fileTableFull | noMemory | noEntry | noDevice | invalid | again
  | notSocket | notSupported | fault
  | socket (e : SocketError)
  deriving DecidableEq

/-- The kind bits of a description's flags, with the node, pipe, terminal or socket they refer to.
`output` is a console description without a kind bit. -/
inductive Object where
  | memory | generated | console | output | null | zero | random | audio | net
  | input | framebuffer | signalfd
  | shm (id : Nat)
  | directory (node : Nat)
  | vnode (node : Nat)
  | pipe (p : Nat)
  | ptyMaster (n : Nat)
  | ptySlave (n : Nat)
  | socket (s : Nat)
  deriving DecidableEq

/-- An object together with the access it was opened for. -/
structure Handle where
  object : Object
  readable : Bool
  writable : Bool

open Handle

structure Pipe where
  ring : Buffer UInt8
  readers : Nat
  writers : Nat
  inUse : Bool

structure Pty where
  masters : Nat
  slaves : Nat
  inUse : Bool

/-- The fields of a file system node that its references depend on. -/
structure Node where
  used : Bool
  unlinked : Bool
  references : Nat

structure Objects where
  pipes : Nat → Pipe
  ptys : Nat → Pty
  nodes : Nat → Node
  sockets : Nat → Socket

/-! ## Taking and releasing -/

def Objects.nodeAcquire (o : Objects) (n : Nat) : Option Objects :=
  if maxNodes ≤ n then none
  else
    let node := o.nodes n
    if node.used && (!node.unlinked || decide (node.references ≠ 0)) then
      some { o with
        nodes := update o.nodes n { node with references := node.references + 1 } }
    else none

def Node.reset (node : Node) : Node :=
  if node.unlinked && decide (node.references = 0) then
    { node with used := false, unlinked := false }
  else node

def Objects.nodeRelease (o : Objects) (n : Nat) : Objects :=
  if maxNodes ≤ n then o
  else
    let node := o.nodes n
    { o with
      nodes := update o.nodes n { node with references := node.references - 1 }.reset }

def Pipe.close (pipe : Pipe) (readable writable : Bool) : Pipe :=
  let readers := if readable then pipe.readers - 1 else pipe.readers
  let writers := if writable then pipe.writers - 1 else pipe.writers
  if readers = 0 ∧ writers = 0 then
    { ring := pipe.ring.clear, readers := readers, writers := writers, inUse := false }
  else { pipe with readers := readers, writers := writers }

def Pty.close (pty : Pty) (master : Bool) : Pty :=
  let masters := if master then pty.masters - 1 else pty.masters
  let slaves := if master then pty.slaves else pty.slaves - 1
  { masters := masters
    slaves := slaves
    inUse := pty.inUse && !decide (masters = 0 ∧ slaves = 0) }

def queuedAt (sock : Socket) : List Nat := sock.records.flatMap RightsRecord.files

/-- What a closing socket does to the socket at its other end. -/
def orphanPeer (sockets : Nat → Socket) (s : Nat) : Nat → Socket :=
  match (sockets s).peer with
  | some p =>
    if (sockets s).domain = .unix ∧ p < socketMax ∧ (sockets p).inUse = true ∧
        (sockets p).peer = some s then
      update sockets p (sockets p).orphan
    else sockets
  | none => sockets

def socketCloseCollect (sockets : Nat → Socket) (s : Nat) : (Nat → Socket) × List Nat :=
  if socketMax ≤ s ∨ (sockets s).inUse = false then (sockets, [])
  else
    let left := orphanPeer sockets s
    (update left s (left s).shut, queuedAt (sockets s))

/-- The part of `file_release` about the object; the descriptions queued at a socket are handed
back. -/
def Objects.release (o : Objects) (h : Handle) : Objects × List Nat :=
  match h.object with
  | .pipe p =>
    ({ o with pipes := update o.pipes p ((o.pipes p).close h.readable h.writable) }, [])
  | .directory n => (o.nodeRelease n, [])
  | .vnode n => (o.nodeRelease n, [])
  | .ptyMaster n => ({ o with ptys := update o.ptys n ((o.ptys n).close true) }, [])
  | .ptySlave n => ({ o with ptys := update o.ptys n ((o.ptys n).close false) }, [])
  | .socket s =>
    let r := socketCloseCollect o.sockets s
    ({ o with sockets := r.1 }, r.2)
  | _ => (o, [])

/-! ## Counts and the handles behind them -/

inductive Role where
  | reader (p : Nat)
  | writer (p : Nat)
  | node (n : Nat)
  | master (n : Nat)
  | slave (n : Nat)
  | socket (s : Nat)

def Handle.plays (h : Handle) : Role → Bool
  | .reader p => decide (h.object = .pipe p) && h.readable
  | .writer p => decide (h.object = .pipe p) && h.writable
  | .node n => decide (h.object = .vnode n) || decide (h.object = .directory n)
  | .master n => decide (h.object = .ptyMaster n)
  | .slave n => decide (h.object = .ptySlave n)
  | .socket s => decide (h.object = .socket s)

def tally (live : Multiset Handle) (r : Role) : Nat := live.countP fun h => h.plays r = true

/-- What is known of the objects besides their handles: the references to nodes that others hold,
and the contents of the pipes. -/
structure Base where
  nodes : Nat → Nat
  rings : Nat → Buffer UInt8 → Prop

/-- A pipe in use has a reader for every open reading handle and a writer for every open writing
handle; it is in use while there is one of them. -/
structure PipeBacked (base : Base) (live : Multiset Handle) (p : Nat) (pipe : Pipe) : Prop where
  readers : pipe.inUse = true → pipe.readers = tally live (.reader p)
  writers : pipe.inUse = true → pipe.writers = tally live (.writer p)
  used : pipe.inUse = true ↔ 0 < tally live (.reader p) + tally live (.writer p)
  contents : pipe.inUse = true → base.rings p pipe.ring

structure PtyBacked (live : Multiset Handle) (n : Nat) (pty : Pty) : Prop where
  masters : pty.inUse = true → pty.masters = tally live (.master n)
  slaves : pty.inUse = true → pty.slaves = tally live (.slave n)
  used : pty.inUse = true ↔ 0 < tally live (.master n) + tally live (.slave n)

/-- A node has the references of others and one of every open handle. -/
def NodeBacked (base : Base) (live : Multiset Handle) (n : Nat) (node : Node) : Prop :=
  n < maxNodes → node.references = base.nodes n + tally live (.node n)

/-- A socket has at most one handle; while it has one it is in use.  Nothing is queued at a socket
that is not in use. -/
structure SocketBacked (live : Multiset Handle) (s : Nat) (sock : Socket) : Prop where
  single : tally live (.socket s) ≤ 1
  used : 0 < tally live (.socket s) → sock.inUse = true
  idle : sock.inUse = false → sock.records = []
  bounded : sock.inUse = true → s < socketMax

/-- A connection waiting at a listening socket has no handle yet, and waits there only. -/
structure PendingOk (live : Multiset Handle) (sockets : Nat → Socket) : Prop where
  waiting : ∀ l c, (sockets l).inUse = true → (sockets l).pending = some c →
    (sockets c).inUse = true ∧ tally live (.socket c) = 0
  once : ∀ l l' c, (sockets l).inUse = true → (sockets l').inUse = true →
    (sockets l).pending = some c → (sockets l').pending = some c → l = l'

structure Backed (base : Base) (live : Multiset Handle) (o : Objects) : Prop where
  pipes : ∀ p, PipeBacked base live p (o.pipes p)
  ptys : ∀ n, PtyBacked live n (o.ptys n)
  nodes : ∀ n, NodeBacked base live n (o.nodes n)
  sockets : ∀ s, SocketBacked live s (o.sockets s)
  pending : PendingOk live o.sockets

variable {base : Base} {live live' : Multiset Handle} {o : Objects} {h : Handle}

@[simp]
theorem tally_cons (h : Handle) (live : Multiset Handle) (r : Role) :
    tally (h ::ₘ live) r = tally live r + if h.plays r then 1 else 0 := by
  simp [tally, Multiset.countP_cons]

@[simp]
theorem tally_add (live live' : Multiset Handle) (r : Role) :
    tally (live + live') r = tally live r + tally live' r := by
  simp [tally]

@[simp]
theorem tally_zero (r : Role) : tally 0 r = 0 := rfl

variable {p n : Nat} {pipe : Pipe} {pty : Pty}

theorem PipeBacked.congr (hb : PipeBacked base live p pipe)
    (hr : tally live' (.reader p) = tally live (.reader p))
    (hw : tally live' (.writer p) = tally live (.writer p)) : PipeBacked base live' p pipe := by
  constructor
  · rw [hr]
    exact hb.readers
  · rw [hw]
    exact hb.writers
  · rw [hr, hw]
    exact hb.used
  · exact hb.contents

theorem PtyBacked.congr (hb : PtyBacked live n pty)
    (hm : tally live' (.master n) = tally live (.master n))
    (hs : tally live' (.slave n) = tally live (.slave n)) : PtyBacked live' n pty := by
  constructor
  · rw [hm]
    exact hb.masters
  · rw [hs]
    exact hb.slaves
  · rw [hm, hs]
    exact hb.used

theorem SocketBacked.congr {s : Nat} {sock : Socket} (hb : SocketBacked live s sock)
    (hs : tally live' (.socket s) = tally live (.socket s)) : SocketBacked live' s sock := by
  constructor
  · rw [hs]
    exact hb.single
  · rw [hs]
    exact hb.used
  · exact hb.idle
  · exact hb.bounded

theorem PendingOk.congr {sockets : Nat → Socket} (hb : PendingOk live sockets)
    (hs : ∀ s, tally live' (.socket s) = tally live (.socket s)) : PendingOk live' sockets := by
  constructor
  · intro l c huse hpending
    rw [hs]
    exact hb.waiting l c huse hpending
  · exact hb.once

theorem Backed.congr (hb : Backed base live o) (hsame : ∀ r, tally live' r = tally live r) :
    Backed base live' o where
  pipes p := (hb.pipes p).congr (hsame _) (hsame _)
  ptys n := (hb.ptys n).congr (hsame _) (hsame _)
  nodes n hn := by rw [hb.nodes n hn, hsame]
  sockets s := (hb.sockets s).congr (hsame _)
  pending := hb.pending.congr fun _ => hsame _

/-! ## Pipes -/

variable {r : Role}

theorem Handle.plays_pipe (hr : r ≠ .reader p) (hw : r ≠ .writer p)
    (readable writable : Bool) : plays ⟨.pipe p, readable, writable⟩ r = false := by
  cases r with
  | reader q | writer q =>
    have hq : p ≠ q := by
      rintro rfl
      simp at hr hw
    simp [plays, hq]
  | _ => simp [plays]

theorem Backed.setPipe (hb : Backed base live o)
    (hsame : ∀ r ≠ .reader p, r ≠ .writer p → tally live' r = tally live r)
    (hpipe : PipeBacked base live' p pipe) :
    Backed base live' { o with pipes := update o.pipes p pipe } where
  pipes q := by
    by_cases hq : q = p
    · subst hq
      simpa using hpipe
    show PipeBacked base live' q (update o.pipes p pipe q)
    rw [update_of_ne hq]
    exact (hb.pipes q).congr (hsame _ (by simp [hq]) (by simp)) (hsame _ (by simp) (by simp [hq]))
  ptys n := (hb.ptys n).congr (hsame _ (by simp) (by simp)) (hsame _ (by simp) (by simp))
  nodes n hn := by rw [hb.nodes n hn, hsame _ (by simp) (by simp)]
  sockets s := (hb.sockets s).congr (hsame _ (by simp) (by simp))
  pending := hb.pending.congr fun _ => hsame _ (by simp) (by simp)

theorem PipeBacked.of_unused (huse : pipe.inUse = false) (hr : tally live (.reader p) = 0)
    (hw : tally live (.writer p) = 0) : PipeBacked base live p pipe := by
  constructor
  · intro h
    simp [huse] at h
  · intro h
    simp [huse] at h
  · simp [huse, hr, hw]
  · intro h
    simp [huse] at h

theorem PipeBacked.unused (hb : PipeBacked base live p pipe) (huse : pipe.inUse = false) :
    tally live (.reader p) = 0 ∧ tally live (.writer p) = 0 := by
  have hused := hb.used
  simp only [huse, Bool.false_eq_true, false_iff] at hused
  omega

theorem Pipe.close_unused (huse : pipe.inUse = false) (r w : Bool) :
    (pipe.close r w).inUse = false := by
  unfold Pipe.close
  dsimp only
  split_ifs <;> simp [huse]

theorem PipeBacked.close {r w : Bool} (hb : PipeBacked base (⟨.pipe p, r, w⟩ ::ₘ live) p pipe) :
    PipeBacked base live p (pipe.close r w) := by
  rcases huse : pipe.inUse with _ | _
  · have hnone := hb.unused huse
    simp only [tally_cons] at hnone
    exact .of_unused (Pipe.close_unused huse r w) (by omega) (by omega)
  have hreaders := hb.readers huse
  have hwriters := hb.writers huse
  simp only [tally_cons, plays, decide_true, Bool.true_and] at hreaders hwriters
  have hr : (if r then pipe.readers - 1 else pipe.readers) = tally live (.reader p) := by
    cases r <;> simp_all
  have hw : (if w then pipe.writers - 1 else pipe.writers) = tally live (.writer p) := by
    cases w <;> simp_all
  unfold Pipe.close
  simp only [hr, hw]
  split_ifs with hnone
  · exact .of_unused rfl hnone.1 hnone.2
  · exact ⟨fun _ => rfl, fun _ => rfl, by simp only [huse, true_iff]; omega, hb.contents⟩

def freshPipe (ring : Buffer UInt8) : Pipe := ⟨ring.clear, 1, 1, true⟩

def readEnd (p : Nat) : Handle := ⟨.pipe p, true, false⟩

def writeEnd (p : Nat) : Handle := ⟨.pipe p, false, true⟩

theorem Backed.newPipe (hb : Backed base live o) (hfree : (o.pipes p).inUse = false)
    (hfresh : base.rings p (o.pipes p).ring.clear) : Backed base (readEnd p ::ₘ writeEnd p ::ₘ live)
      { o with pipes := update o.pipes p (freshPipe (o.pipes p).ring) } := by
  have hnone := (hb.pipes p).unused hfree
  refine hb.setPipe (fun r hr hw => ?_) ⟨fun _ => ?_, fun _ => ?_, ?_, fun _ => hfresh⟩
  · simp [readEnd, writeEnd, plays_pipe hr hw]
  · simp [freshPipe, readEnd, writeEnd, plays, hnone]
  · simp [freshPipe, readEnd, writeEnd, plays, hnone]
  · simp [freshPipe, readEnd, writeEnd, plays, hnone]

theorem Backed.dropPipe (hb : Backed base live' o)
    (hsame : ∀ r ≠ .reader p, r ≠ .writer p → tally live r = tally live' r)
    (hr : tally live (.reader p) = 0) (hw : tally live (.writer p) = 0) : Backed base live
      { o with pipes := update o.pipes p { o.pipes p with inUse := false } } :=
  hb.setPipe hsame (.of_unused rfl hr hw)

/-! ## Pseudo terminals -/

variable {h : Handle}

theorem Handle.plays_pty (hm : r ≠ .master n) (hs : r ≠ .slave n)
    (hobject : h.object = .ptyMaster n ∨ h.object = .ptySlave n) : h.plays r = false := by
  cases r with
  | master q | slave q =>
    have hq : n ≠ q := by
      rintro rfl
      simp at hm hs
    rcases hobject with ho | ho <;> simp [plays, ho, hq]
  | _ => rcases hobject with ho | ho <;> simp [plays, ho]

theorem Backed.setPty (hb : Backed base live o)
    (hsame : ∀ r ≠ .master n, r ≠ .slave n → tally live' r = tally live r)
    (hpty : PtyBacked live' n pty) :
    Backed base live' { o with ptys := update o.ptys n pty } where
  pipes p := (hb.pipes p).congr (hsame _ (by simp) (by simp)) (hsame _ (by simp) (by simp))
  ptys q := by
    by_cases hq : q = n
    · subst hq
      simpa using hpty
    show PtyBacked live' q (update o.ptys n pty q)
    rw [update_of_ne hq]
    exact (hb.ptys q).congr (hsame _ (by simp [hq]) (by simp)) (hsame _ (by simp) (by simp [hq]))
  nodes m hm := by rw [hb.nodes m hm, hsame _ (by simp) (by simp)]
  sockets s := (hb.sockets s).congr (hsame _ (by simp) (by simp))
  pending := hb.pending.congr fun _ => hsame _ (by simp) (by simp)

theorem PtyBacked.of_unused (huse : pty.inUse = false) (hm : tally live (.master n) = 0)
    (hs : tally live (.slave n) = 0) : PtyBacked live n pty := by
  constructor
  · intro h
    simp [huse] at h
  · intro h
    simp [huse] at h
  · simp [huse, hm, hs]

theorem PtyBacked.unused (hb : PtyBacked live n pty) (huse : pty.inUse = false) :
    tally live (.master n) = 0 ∧ tally live (.slave n) = 0 := by
  have hused := hb.used
  simp only [huse, Bool.false_eq_true, false_iff] at hused
  omega

def ptySide (n : Nat) (master : Bool) : Object := if master then .ptyMaster n else .ptySlave n

theorem PtyBacked.close {master : Bool} (hobject : h.object = ptySide n master)
    (hb : PtyBacked (h ::ₘ live) n pty) : PtyBacked live n (pty.close master) := by
  rcases huse : pty.inUse with _ | _
  · have hnone := hb.unused huse
    simp only [tally_cons] at hnone
    exact .of_unused (by simp [Pty.close, huse]) (by omega) (by omega)
  have hmasters := hb.masters huse
  have hslaves := hb.slaves huse
  have hm : (if master then pty.masters - 1 else pty.masters) = tally live (.master n) := by
    cases master <;> simp_all [plays, ptySide]
  have hs : (if master then pty.slaves else pty.slaves - 1) = tally live (.slave n) := by
    cases master <;> simp_all [plays, ptySide]
  unfold Pty.close
  simp only [hm, hs, huse, Bool.true_and]
  constructor
  · exact fun _ => rfl
  · exact fun _ => rfl
  · simp only [Bool.not_eq_true', decide_eq_false_iff_not]
    omega

def freshPty : Pty := ⟨1, 0, true⟩

def Pty.addSlave (pty : Pty) : Pty := { pty with slaves := pty.slaves + 1 }

section

variable (hb : Backed base live o)
include hb

theorem Backed.newPty (hfree : (o.ptys n).inUse = false) (r w : Bool) :
    Backed base (⟨.ptyMaster n, r, w⟩ ::ₘ live)
      { o with ptys := update o.ptys n freshPty } := by
  have hnone := (hb.ptys n).unused hfree
  refine hb.setPty (fun role hm hs => ?_) ⟨fun _ => ?_, fun _ => ?_, ?_⟩
  · simp [plays_pty (h := ⟨.ptyMaster n, r, w⟩) hm hs (.inl rfl)]
  · simp [freshPty, plays, hnone]
  · simp [freshPty, plays, hnone]
  · simp [freshPty, plays, hnone]

theorem Backed.newSlave (huse : (o.ptys n).inUse) (r w : Bool) :
    Backed base (⟨.ptySlave n, r, w⟩ ::ₘ live)
      { o with ptys := update o.ptys n (o.ptys n).addSlave } := by
  have hmasters := (hb.ptys n).masters huse
  have hslaves := (hb.ptys n).slaves huse
  refine hb.setPty (fun role hm hs => ?_) ⟨fun _ => ?_, fun _ => ?_, ?_⟩
  · simp [plays_pty (h := ⟨.ptySlave n, r, w⟩) hm hs (.inr rfl)]
  · simp [Pty.addSlave, plays, hmasters]
  · simp [Pty.addSlave, plays, hslaves]
  · simp only [Pty.addSlave, huse, plays, tally_cons, true_iff, decide_true, if_true]
    omega

/-! ## Nodes -/

omit hb in
theorem Handle.plays_node (hr : r ≠ .node n)
    (hobject : h.object = .vnode n ∨ h.object = .directory n) : h.plays r = false := by
  cases r with
  | node q =>
    have hq : n ≠ q := fun heq => hr (by rw [heq])
    rcases hobject with ho | ho <;> simp [plays, ho, hq]
  | _ => rcases hobject with ho | ho <;> simp [plays, ho]

omit hb in
theorem Handle.plays_node_self
    (hobject : h.object = .vnode n ∨ h.object = .directory n) : h.plays (.node n) := by
  rcases hobject with ho | ho <;> simp [plays, ho]

theorem Backed.setNode {node : Node} (hsame : ∀ r ≠ .node n, tally live' r = tally live r)
    (hnode : NodeBacked base live' n node) :
    Backed base live' { o with nodes := update o.nodes n node } where
  pipes p := (hb.pipes p).congr (hsame _ (by simp)) (hsame _ (by simp))
  ptys q := (hb.ptys q).congr (hsame _ (by simp)) (hsame _ (by simp))
  nodes m hm := by
    by_cases hq : m = n
    · subst hq
      simpa using hnode hm
    · show (update o.nodes n node m).references = _
      rw [update_of_ne hq, hb.nodes m hm, hsame _ (by simp [hq])]
  sockets s := (hb.sockets s).congr (hsame _ (by simp))
  pending := hb.pending.congr fun _ => hsame _ (by simp)

omit hb in
@[simp]
theorem Node.references_reset (node : Node) : node.reset.references = node.references := by
  unfold Node.reset
  split <;> rfl

theorem Backed.nodeAcquire {o' : Objects} (hacquire : o.nodeAcquire n = some o')
    (hobject : h.object = .vnode n ∨ h.object = .directory n) : Backed base (h ::ₘ live) o' := by
  unfold Objects.nodeAcquire at hacquire
  dsimp only at hacquire
  split_ifs at hacquire with hrange hvalid
  cases hacquire
  refine hb.setNode (fun r hr => ?_) fun hn => ?_
  · simp [plays_node hr hobject]
  · simp [plays_node_self hobject, hb.nodes n hn, Nat.add_assoc]

theorem Backed.outside (hn : maxNodes ≤ n) (hobject : h.object = .vnode n ∨ h.object = .directory n) :
    Backed base (h ::ₘ live) o := by
  have hupdate : { o with nodes := update o.nodes n (o.nodes n) } = o := by rw [update_eq_self]
  rw [← hupdate]
  refine hb.setNode (fun r hr => ?_) fun hin => absurd hin (by omega)
  simp [plays_node hr hobject]

end

theorem Backed.nodeRelease (hb : Backed base (h ::ₘ live) o)
    (hobject : h.object = .vnode n ∨ h.object = .directory n) :
    Backed base live (o.nodeRelease n) := by
  unfold Objects.nodeRelease
  split_ifs
  · have hupdate : { o with nodes := update o.nodes n (o.nodes n) } = o := by
      rw [update_eq_self]
    rw [← hupdate]
    refine hb.setNode (fun r hr => ?_) fun hin => absurd hin (by omega)
    simp [plays_node hr hobject]
  · refine hb.setNode (fun r hr => ?_) fun hn => ?_
    · simp [plays_node hr hobject]
    · have hcount := hb.nodes n hn
      rw [tally_cons, plays_node_self hobject] at hcount
      simp only [Node.references_reset]
      simp only [if_true] at hcount
      omega

end XsCore.File
