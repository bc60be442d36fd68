import XsCore.File.References

/-! # Pipes as streams

Reading and writing a pipe, in attempts: a call that finds nothing to do tries again later, and in
between any other call may run.  What readers have got and what the ring still holds is, in order,
what the writers put in; the end of the stream is reported when no writer is left, and bytes are
taken only while there is a reader.
-/

namespace XsCore.File

open Ring XsCore.Ipc Function Machine

variable {pipe : Pipe}

inductive ReadAnswer where
  | data (bytes : List UInt8)
  | eof | again | badFile

inductive WriteAnswer where
  | accepted (n : Nat)
  | again | brokenPipe | badFile

def ReadAnswer.bytes : ReadAnswer → List UInt8
  | .data bytes => bytes
  | _ => []

def WriteAnswer.count : WriteAnswer → Nat
  | .accepted n => n
  | _ => 0

/-- One attempt of the loop in `fd_read_file`. -/
def Pipe.read (pipe : Pipe) (length : Nat) : Pipe × ReadAnswer :=
  if pipe.ring.count = 0 then (pipe, if pipe.writers = 0 then .eof else .again)
  else
    let toRead := min length pipe.ring.count
    ({ pipe with ring := pipe.ring.skip pipeBufSize toRead },
      .data (pipe.ring.peek pipeBufSize toRead))

/-- One attempt of the loop in `fd_write_file`, with the bytes that are still to be written. -/
def Pipe.write (pipe : Pipe) (bytes : List UInt8) : Pipe × WriteAnswer :=
  if pipe.readers = 0 then (pipe, .brokenPipe)
  else if bytes = [] then (pipe, .accepted 0)
  else if pipeBufSize ≤ pipe.ring.count then (pipe, .again)
  else
    let chunk := min bytes.length (pipeBufSize - pipe.ring.count)
    ({ pipe with ring := pipe.ring.putAll pipeBufSize (bytes.take chunk) }, .accepted chunk)

def Files.pipeOf (k : Files) (f : Nat) : Option Nat :=
  if f < filePoolSize then
    match (k.files f).object with
    | some (.pipe p) => some p
    | _ => none
  else none

def Files.pipeRead (k : Files) (f p length : Nat) : Files × ReadAnswer :=
  if (k.files f).readable then
    let r := (k.objects.pipes p).read length
    (k.setPipe p r.1, r.2)
  else (k, .badFile)

def Files.pipeWrite (k : Files) (f p : Nat) (bytes : List UInt8) : Files × WriteAnswer :=
  if (k.files f).writable then
    let r := (k.objects.pipes p).write bytes
    (k.setPipe p r.1, r.2)
  else (k, .badFile)

/-- The descriptor layer, and for every pipe in use the bytes its writers put in and its readers got
since it was created. -/
structure Session where
  files : Files
  accepted : Nat → List UInt8
  delivered : Nat → List UInt8

inductive PipeOp where
  | files (op : Op)
  | read (f length : Nat)
  | write (f : Nat) (bytes : List UInt8)

def Files.keep (k : Files) (log : Nat → List UInt8) (p : Nat) : List UInt8 :=
  if (k.objects.pipes p).inUse then log p else []

def Session.read (s : Session) (f length : Nat) : Session :=
  match s.files.pipeOf f with
  | some p =>
    if f ∈ s.files.held then
      let r := s.files.pipeRead f p length
      { s with
        files := r.1
        delivered := update s.delivered p (s.delivered p ++ r.2.bytes) }
    else s
  | none => s

def Session.write (s : Session) (f : Nat) (bytes : List UInt8) : Session :=
  match s.files.pipeOf f with
  | some p =>
    if f ∈ s.files.held then
      let r := s.files.pipeWrite f p bytes
      { s with
        files := r.1
        accepted := update s.accepted p (s.accepted p ++ bytes.take r.2.count) }
    else s
  | none => s

def Session.step (s : Session) : PipeOp → Session
  | .files op =>
    let files := s.files.step op
    ⟨files, files.keep s.accepted, files.keep s.delivered⟩
  | .read f length => s.read f length
  | .write f bytes => s.write f bytes

def Session.boot (nodes : Nat → Node) : Session := ⟨.boot nodes, fun _ => [], fun _ => []⟩

/-! ## One attempt -/

structure SameEnds (pipe pipe' : Pipe) : Prop where
  readers : pipe'.readers = pipe.readers
  writers : pipe'.writers = pipe.writers
  inUse : pipe'.inUse = pipe.inUse

theorem Pipe.read_ends (pipe : Pipe) (length : Nat) : SameEnds pipe (pipe.read length).1 := by
  unfold Pipe.read
  split <;> exact ⟨rfl, rfl, rfl⟩

theorem Pipe.write_ends (pipe : Pipe) (bytes : List UInt8) :
    SameEnds pipe (pipe.write bytes).1 := by
  unfold Pipe.write
  split_ifs <;> exact ⟨rfl, rfl, rfl⟩

theorem Pipe.read_spec (hok : pipe.ring.Ok pipeBufSize) (length : Nat) :
    (pipe.read length).1.ring.Ok pipeBufSize ∧
      (pipe.read length).2.bytes ++ (pipe.read length).1.ring.queue pipeBufSize =
        pipe.ring.queue pipeBufSize := by
  unfold Pipe.read
  split
  · split_ifs <;> exact ⟨hok, rfl⟩
  · have hle : min length pipe.ring.count ≤ pipe.ring.count := Nat.min_le_right _ _
    exact ⟨hok.skip hle, pipe.ring.peek_append_skip hle⟩

theorem Pipe.write_spec (hok : pipe.ring.Ok pipeBufSize) (bytes : List UInt8) :
    (pipe.write bytes).1.ring.Ok pipeBufSize ∧
      (pipe.write bytes).1.ring.queue pipeBufSize =
        pipe.ring.queue pipeBufSize ++ bytes.take (pipe.write bytes).2.count := by
  have hnone : pipe.ring.queue pipeBufSize = pipe.ring.queue pipeBufSize ++ bytes.take 0 := by simp
  unfold Pipe.write
  split_ifs with hreaders hempty hfull
  · exact ⟨hok, hnone⟩
  · exact ⟨hok, hnone⟩
  · exact ⟨hok, hnone⟩
  have hroom : pipe.ring.count +
      (bytes.take (min bytes.length (pipeBufSize - pipe.ring.count))).length ≤ pipeBufSize := by
    rw [List.length_take]
    omega
  have hstored := Buffer.putAll_spec hok _ hroom
  exact ⟨hstored.1, hstored.2.1⟩

theorem Pipe.read_eof {length : Nat} (h : (pipe.read length).2 = .eof) :
    pipe.ring.count = 0 ∧ pipe.writers = 0 := by
  unfold Pipe.read at h
  by_cases hempty : pipe.ring.count = 0
  · by_cases hwriters : pipe.writers = 0
    · exact ⟨hempty, hwriters⟩
    · simp [hempty, hwriters] at h
  · simp [hempty] at h

/-! ## Histories -/

variable {leak : Nat → Prop} {base : Base} {locals : Multiset Nat} {pledged : Multiset Handle}
  {k : Files} {f p : Nat} {nodes : Nat → Node} {s : Session}

theorem FilesOk.rebase (hk : FilesOk leak base locals pledged k) {rings : Nat → Buffer UInt8 → Prop}
    (hrings : ∀ p, (k.objects.pipes p).inUse → rings p (k.objects.pipes p).ring) :
    FilesOk leak ⟨base.nodes, rings⟩ locals pledged k where
  sound :=
    { hk.sound with
      log := hk.sound.log
      backed :=
        { hk.sound.backed with
          pipes := fun p => { hk.sound.backed.pipes p with contents := hrings p } } }
  tables := hk.tables

theorem FilesOk.setRing (hk : FilesOk leak (bootBase nodes) locals 0 k)
    (hends : SameEnds (k.objects.pipes p) pipe) :
    FilesOk leak (bootBase nodes) locals 0 (k.setPipe p pipe) := by
  refine hk.setObjects rfl (hk.sound.backed.setPipe (fun _ _ _ => rfl) ?_)
  have hold := hk.sound.backed.pipes p
  constructor
  · rw [hends.inUse, hends.readers]
    exact hold.readers
  · rw [hends.inUse, hends.writers]
    exact hold.writers
  · rw [hends.inUse]
    exact hold.used
  · exact fun _ => trivial

theorem Files.pipeOf_spec (h : k.pipeOf f = some p) :
    f < filePoolSize ∧ (k.files f).object = some (.pipe p) := by
  unfold Files.pipeOf at h
  split_ifs at h with hf
  refine ⟨hf, ?_⟩
  split at h
  · next hobject => rw [hobject, Option.some.inj h]
  · cases h

theorem Files.tally_live (hf : f < filePoolSize) (hused : (k.files f).references ≠ 0) {h : Handle}
    (hh : (k.files f).handle = some h) {r : Role} (hr : h.plays r) : 0 < tally k.live r := by
  have hupdate := liveOf_update k.files hf .blank
  rw [Description.live_some hused hh, Description.live_zero rfl, add_zero] at hupdate
  have hlive : k.live = liveOf (update k.files f .blank) + {h} := hupdate.symm
  have hone : tally {h} r = 1 := by
    rw [← Multiset.cons_zero, tally_cons, hr, tally_zero]
    rfl
  rw [hlive, tally_add, hone]
  omega

theorem FilesOk.held_pipe (hk : FilesOk leak base locals 0 k) (hf : f ∈ k.held)
    (hp : k.pipeOf f = some p) (haccess : (k.files f).readable ∨ (k.files f).writable) :
    (k.objects.pipes p).inUse := by
  have hspec := Files.pipeOf_spec hp
  have hused : (k.files f).references ≠ 0 := by
    have hcount := hk.sound.counted f
    have hpos := Multiset.count_pos.mpr hf
    simp only [Multiset.count_add] at hcount
    omega
  have hh : (k.files f).handle =
      some ⟨.pipe p, (k.files f).readable, (k.files f).writable⟩ := by
    rw [Description.handle, hspec.2]
    rfl
  have hbacked := (hk.sound.backed.pipes p).used
  rw [add_zero] at hbacked
  refine hbacked.mpr ?_
  rcases haccess with hread | hwrite
  · have hreader := Files.tally_live hspec.1 hused hh (r := .reader p)
      (by simp [Handle.plays, hread])
    omega
  · have hwriter := Files.tally_live hspec.1 hused hh (r := .writer p)
      (by simp [Handle.plays, hwrite])
    omega

structure StreamOk (s : Session) (p : Nat) : Prop where
  ring : (s.files.objects.pipes p).inUse = true →
    (s.files.objects.pipes p).ring.Ok pipeBufSize ∧
    s.accepted p = s.delivered p ++ (s.files.objects.pipes p).ring.queue pipeBufSize
  unused : (s.files.objects.pipes p).inUse = false → s.accepted p = [] ∧ s.delivered p = []

structure SessionOk (nodes : Nat → Node) (s : Session) : Prop where
  files : FilesOk (fun _ => True) (bootBase nodes) 0 0 s.files
  streams : ∀ p, StreamOk s p

/-- A call of the descriptor layer leaves the contents of a pipe alone, unless the pipe is new or
gone afterwards. -/
theorem FilesOk.step_rings (hk : FilesOk (fun _ => True) (bootBase nodes) 0 0 k) (op : Op) :
    FilesOk (fun _ => True) (bootBase nodes) 0 0 (k.step op) ∧
      ∀ p, ((k.step op).objects.pipes p).inUse →
        if (k.objects.pipes p).inUse then
          ((k.step op).objects.pipes p).ring = (k.objects.pipes p).ring
        else ∃ old : Buffer UInt8, ((k.step op).objects.pipes p).ring = old.clear := by
  let rings : Nat → Buffer UInt8 → Prop := fun p ring =>
    if (k.objects.pipes p).inUse then ring = (k.objects.pipes p).ring
    else ∃ old : Buffer UInt8, ring = old.clear
  have hbefore : FilesOk (fun _ => True) ⟨(bootBase nodes).nodes, rings⟩ 0 0 k := by
    refine hk.rebase fun p huse => ?_
    show if (k.objects.pipes p).inUse then _ else _
    rw [if_pos huse]
  have hafter := hbefore.step op (fun p hfree => ?_) (.inl fun _ => trivial)
  · exact ⟨hafter.rebase fun _ _ => trivial, fun p => (hafter.sound.backed.pipes p).contents⟩
  · show if (k.objects.pipes p).inUse then _ else _
    rw [if_neg (by simp [hfree])]
    exact ⟨_, rfl⟩

section

variable (hs : SessionOk nodes s)
include hs

theorem SessionOk.files_step (op : Op) : SessionOk nodes (s.step (.files op)) := by
  have hstep := hs.files.step_rings op
  refine ⟨hstep.1, fun p => ⟨fun huse => ?_, fun hgone => ?_⟩⟩
  · have hused : ((s.files.step op).objects.pipes p).inUse := huse
    have hring := hstep.2 p hused
    have hstream := hs.streams p
    show ((s.files.step op).objects.pipes p).ring.Ok pipeBufSize ∧
      (s.files.step op).keep s.accepted p = (s.files.step op).keep s.delivered p ++
        ((s.files.step op).objects.pipes p).ring.queue pipeBufSize
    rw [Files.keep, Files.keep, if_pos hused, if_pos hused]
    cases hold : (s.files.objects.pipes p).inUse with
    | true =>
      rw [hold, if_pos rfl] at hring
      rw [hring]
      exact hstream.ring hold
    | false =>
      rw [hold, if_neg (by simp)] at hring
      obtain ⟨old, hclear⟩ := hring
      have hempty := hstream.unused hold
      rw [hclear, hempty.1, hempty.2]
      exact ⟨.clear (by decide) old, rfl⟩
  · have hunused : ((s.files.step op).objects.pipes p).inUse = false := hgone
    show (s.files.step op).keep s.accepted p = [] ∧ (s.files.step op).keep s.delivered p = []
    rw [Files.keep, Files.keep, if_neg (by simp [hunused]), if_neg (by simp [hunused])]
    exact ⟨rfl, rfl⟩

omit hs in
theorem StreamOk.frame {s' : Session} {q : Nat} (h : StreamOk s q)
    (hpipe : s'.files.objects.pipes q = s.files.objects.pipes q)
    (haccepted : s'.accepted q = s.accepted q) (hdelivered : s'.delivered q = s.delivered q) :
    StreamOk s' q := by
  constructor
  · rw [hpipe, haccepted, hdelivered]
    exact h.ring
  · rw [hpipe, haccepted, hdelivered]
    exact h.unused

theorem SessionOk.setRing {p : Nat} {pipe : Pipe} {accepted delivered : Nat → List UInt8}
    (hinUse : (s.files.objects.pipes p).inUse)
    (hends : SameEnds (s.files.objects.pipes p) pipe) (hring : pipe.ring.Ok pipeBufSize)
    (hbytes : accepted p = delivered p ++ pipe.ring.queue pipeBufSize)
    (hothers : ∀ q ≠ p, accepted q = s.accepted q ∧ delivered q = s.delivered q) :
    SessionOk nodes ⟨s.files.setPipe p pipe, accepted, delivered⟩ := by
  refine ⟨hs.files.setRing hends, fun q => ?_⟩
  by_cases hq : q = p
  · subst hq
    constructor <;> simp only [Files.setPipe, update_self]
    · exact fun _ => ⟨hring, hbytes⟩
    · simp [hends.inUse, hinUse]
  · exact (hs.streams q).frame (update_of_ne hq _ _) (hothers q hq).1 (hothers q hq).2

theorem SessionOk.read (f length : Nat) : SessionOk nodes (s.read f length) := by
  unfold Session.read
  rcases hp : s.files.pipeOf f with _ | p
  · exact hs
  split_ifs with hf
  · unfold Files.pipeRead
    split_ifs with hread
    · have hinUse := hs.files.held_pipe hf hp (.inl hread)
      have hstream := (hs.streams p).ring hinUse
      have hspec := Pipe.read_spec hstream.1 length
      refine hs.setRing hinUse (Pipe.read_ends _ length) hspec.1 ?_ fun q hq =>
        ⟨rfl, update_of_ne hq _ _⟩
      rw [update_self, hstream.2, List.append_assoc, hspec.2]
    · refine ⟨hs.files, fun q => (hs.streams q).frame rfl rfl ?_⟩
      simp [ReadAnswer.bytes]
  · exact hs

theorem SessionOk.write (f : Nat) (bytes : List UInt8) : SessionOk nodes (s.write f bytes) := by
  unfold Session.write
  rcases hp : s.files.pipeOf f with _ | p
  · exact hs
  split_ifs with hf
  · unfold Files.pipeWrite
    split_ifs with hwrite
    · have hinUse := hs.files.held_pipe hf hp (.inr hwrite)
      have hstream := (hs.streams p).ring hinUse
      have hspec := Pipe.write_spec hstream.1 bytes
      refine hs.setRing hinUse (Pipe.write_ends _ bytes) hspec.1 ?_ fun q hq =>
        ⟨update_of_ne hq _ _, rfl⟩
      rw [update_self, hspec.2, ← List.append_assoc, hstream.2]
    · refine ⟨hs.files, fun q => (hs.streams q).frame rfl ?_ rfl⟩
      simp [WriteAnswer.count]
  · exact hs

theorem SessionOk.step (op : PipeOp) : SessionOk nodes (s.step op) := by
  cases op with
  | files op => exact hs.files_step op
  | read f length => exact hs.read f length
  | write f bytes => exact hs.write f bytes

end

theorem SessionOk.boot (nodes : Nat → Node) : SessionOk nodes (.boot nodes) where
  files := boot_ok _ nodes
  streams p := ⟨fun huse => absurd huse (by simp [Session.boot, Files.boot]), fun _ => ⟨rfl, rfl⟩⟩

/-- In every history of calls and attempts: what has been read from a pipe is the front of what was
written to it, and the rest is in the ring. -/
theorem pipe_stream (nodes : Nat → Node) (ops : List PipeOp) (p : Nat)
    (huse : ((run Session.step (.boot nodes) ops).files.objects.pipes p).inUse = true) :
    let s := run Session.step (.boot nodes) ops
    let pipe := s.files.objects.pipes p
    s.delivered p <+: s.accepted p ∧
    pipe.ring.count ≤ pipeBufSize ∧
    pipe.ring.count = (s.accepted p).length - (s.delivered p).length ∧
    (∀ f length, (s.files.pipeRead f p length).2 = .eof →
      pipe.ring.count = 0 ∧ tally s.files.live (.writer p) = 0) ∧
    (∀ f bytes n, (s.files.pipeWrite f p bytes).2 = .accepted n →
      0 < tally s.files.live (.reader p)) := by
  intro s pipe
  have hs : SessionOk nodes s :=
    run_invariant (SessionOk nodes) (fun _ op hs => hs.step op) (.boot nodes) ops
  have hstream := (hs.streams p).ring huse
  have hbacked := hs.files.sound.backed.pipes p
  rw [add_zero] at hbacked
  refine ⟨⟨_, hstream.2.symm⟩, hstream.1.count_le, ?_, fun f length heof => ?_,
    fun f bytes n haccepted => ?_⟩
  · rw [hstream.2, List.length_append, Buffer.length_queue, Nat.add_sub_cancel_left]
  · unfold Files.pipeRead at heof
    split_ifs at heof with hreadable
    have hend := Pipe.read_eof heof
    exact ⟨hend.1, by rw [← hbacked.writers huse, hend.2]⟩
  · unfold Files.pipeWrite at haccepted
    split_ifs at haccepted with hwritable
    rw [← hbacked.readers huse]
    refine Nat.pos_of_ne_zero fun hnone => ?_
    simp [Pipe.write, hnone] at haccepted

def streamOps : List PipeOp :=
  [.files .tableInitialize, .files (.pipeCreate 0 (fun _ => true) false false),
    .files (.hold 0 3), .files (.hold 0 4), .write 1 [1, 2, 3], .read 0 2, .files (.put 1),
    .files (.close 0 4)]

theorem pipe_stream_three :
    let s := run Session.step (.boot fun _ => ⟨false, false, 0⟩) streamOps
    s.delivered 0 = [1, 2] ∧ s.delivered 0 <+: s.accepted 0 := by
  have huse : ((run Session.step (.boot fun _ => ⟨false, false, 0⟩)
      streamOps).files.objects.pipes 0).inUse := by decide +kernel
  exact ⟨by decide +kernel, (pipe_stream _ streamOps 0 huse).1⟩

end XsCore.File
