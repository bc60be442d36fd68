import XsCore.File.Passing

/-! # Reference counting of descriptions

Over any history of calls, failing ones included, a description has as many references as entries,
calls at work and queued messages refer to it, and its object is released once, with the last of
them.  The socket and accept calls break this when their table cannot take a further descriptor.
-/

namespace XsCore.File

open XsCore.Ipc Machine

variable (nodes : Nat → Node)

/-- Whoever makes a socket has room for its descriptor. -/
def Careful (k : Files) : Op → Prop
  | .socket t heap _ _ => Roomy k t heap
  | .accept t _ heap => Roomy k t heap
  | _ => True

/-- The openers that take no reference to an object. -/
def Op.opensPlain : Op → Bool
  | .openMemory .. | .openGenerated .. | .openShm .. | .openInput .. | .openFramebuffer ..
  | .openCharacter .. | .openSignalfd .. => true
  | _ => false

/-- Such an opener is refused and changes nothing, or takes the common course. -/
theorem Files.step_plain {P : Files → Prop} {k : Files} (hk : P k)
    (hopen : ∀ t heap object readable writable nonblock flags, object.plain →
      P (k.openFile t heap { describe object readable writable with nonblock } flags).1)
    (op : Op) (hop : op.opensPlain) : P (k.step op) := by
  cases op with
  | openMemory t heap => exact hopen t heap .memory true false false 0 rfl
  | openGenerated t heap room =>
    rw [Files.step, Files.openGenerated]
    split_ifs
    · exact hk
    · exact hopen t heap .generated true false false 0 rfl
    · exact hk
  | openShm t heap id readable writable flags =>
    rw [Files.step, Files.openShm]
    split_ifs
    · exact hk
    · exact hopen t heap (.shm id) readable writable false flags rfl
  | openInput t heap => exact hopen t heap .input true false false 0 rfl
  | openFramebuffer t heap present readable writable =>
    rw [Files.step, Files.openFramebuffer]
    split_ifs
    · exact hopen t heap .framebuffer readable writable false 0 rfl
    · exact hk
  | openCharacter t heap kind readable writable =>
    have hplain : kind.object.plain := by cases kind <;> rfl
    rw [Files.step, Files.openCharacter]
    split_ifs
    · exact hk
    · exact hopen t heap kind.object readable writable false 0 hplain
  | openSignalfd t heap nonblock cloexec => exact hopen t heap .signalfd true false nonblock _ rfl
  | _ => cases hop

theorem FilesOk.step {leak : Nat → Prop} {base : Base} {locals : Multiset Nat}
    {pledged : Multiset Handle} {k : Files} (hk : FilesOk leak base locals pledged k) (op : Op)
    (hfresh : ∀ p, (k.objects.pipes p).inUse = false → base.rings p (k.objects.pipes p).ring.clear)
    (hcare : (∀ i, leak i) ∨ Careful k op) : FilesOk leak base locals pledged (k.step op) := by
  have hplain := Files.step_plain hk fun t heap _ _ _ _ flags hobject =>
    hk.openPlain rfl rfl hobject t heap flags
  cases op with
  | openMemory | openGenerated | openShm | openInput | openFramebuffer | openCharacter
  | openSignalfd => exact hplain _ rfl
  | tableInitialize => exact hk.tableInitialize
  | tableClone t heap => exact hk.tableClone t heap
  | openDirectory t heap n => exact hk.openDirectory t heap n
  | openVnode t heap n mode append =>
    rw [Files.step, Files.openVnode]
    exact hk.openNode rfl rfl (.inl rfl) t heap
  | openPtmx t heap device => exact hk.openPtmx t heap device
  | openPts t heap n readable writable => exact hk.openPts t heap n readable writable
  | socket t heap domain kind => exact hk.socket t heap domain kind hcare
  | pipeCreate t heap cloexec nonblock => exact hk.pipeCreate t heap cloexec nonblock hfresh
  | close t d => exact hk.close t d
  | closeRange t first =>
    rw [Files.step, Files.closeRange]
    split_ifs
    · exact hk
    · exact hk.closeWhere t _
  | closeCloexec t => exact hk.closeWhere t _
  | closeAll t => exact hk.closeAll t
  | dup t d heap => exact hk.dup t d heap
  | dupFrom t d heap start cloexec => exact hk.dupFrom t d heap start cloexec
  | dup2 t old new heap => exact hk.dup2 t old new heap
  | setFd t d flags => exact hk.setFd t d flags
  | setFl t d append nonblock => exact hk.setFl t d append nonblock
  | listen t d => exact hk.listen t d
  | connect t d l => exact hk.connect t d l
  | accept t d heap => exact hk.accept t d heap hcare
  | sendmsg t d bytes ds => exact hk.sendmsg t d bytes ds
  | recvmsg t d capacity fdCapacity heap cloexec faults =>
    exact hk.recvmsg t d capacity fdCapacity heap cloexec faults
  | recv t d len => exact hk.recv t d len
  | hold t d => exact hk.hold t d
  | put f => exact hk.put f

theorem boot_queued : queued (Files.boot nodes).objects.sockets = 0 := by
  unfold queued
  exact Finset.sum_eq_zero fun s _ => rfl

theorem boot_references (f : Nat) : ((Files.boot nodes).files f).references = 0 := by
  unfold Files.boot
  dsimp only
  split_ifs <;> rfl

theorem boot_live : (Files.boot nodes).live = 0 := by
  unfold Files.live liveOf
  exact Finset.sum_eq_zero fun f _ => Description.live_zero (boot_references nodes f)

/-- The references to nodes at boot are those of others; nothing is known of pipes. -/
def bootBase (nodes : Nat → Node) : Base := ⟨fun n => (nodes n).references, fun _ _ => True⟩

theorem boot_backed : Backed (bootBase nodes) 0 (Files.boot nodes).objects where
  pipes p := .of_unused rfl rfl rfl
  ptys n := .of_unused rfl rfl rfl
  nodes n _ := rfl
  sockets s := ⟨Nat.zero_le _, fun hpos => absurd hpos (by simp), fun _ => rfl,
    fun huse => absurd huse (by simp [Files.boot])⟩
  pending := ⟨fun l c huse => absurd huse (by simp [Files.boot]),
    fun l l' c huse => absurd huse (by simp [Files.boot])⟩

theorem boot_ok (leak : Nat → Prop) (nodes : Nat → Node) :
    FilesOk leak (bootBase nodes) 0 0 (Files.boot nodes) where
  sound :=
    { counted := by
        intro f
        rw [boot_references, boot_queued]
        rfl
      slots := by
        intro i hi _
        right
        have hne : i ≠ consoleInput ∧ ¬ (i = consoleOutput ∨ i = consoleError) := by
          unfold consoleInput consoleOutput consoleError
          omega
        show (if i = consoleInput then _ else if i = consoleOutput ∨ i = consoleError then _
          else Description.blank).object = none
        rw [if_neg hne.1, if_neg hne.2]
        rfl
      kinds := by
        intro i _ hused
        exact absurd (boot_references nodes i) hused
      passed := by
        rw [boot_queued]
        simp
      log := by
        rw [boot_live]
        rfl
      backed := by
        rw [boot_live]
        exact boot_backed nodes }
  tables := by
    intro t ht
    simp [Files.boot] at ht

/-- In every history in which whoever makes a socket has room for its descriptor. -/
theorem file_references (nodes : Nat → Node) (ops : List Op)
    (hcareful : Guarded Files.step Careful (Files.boot nodes) ops) :
    let k := run Files.step (Files.boot nodes) ops
    (∀ f, (k.files f).references =
      k.entries.count f + k.held.count f + (queued k.objects.sockets).count f) ∧
    (∀ i < filePoolSize, (k.files i).object = none ↔ (k.files i).references = 0) ∧
    (k.opened : Multiset Handle) = k.live + (k.released : Multiset Handle) ∧
    Backed (bootBase nodes) k.live k.objects := by
  intro k
  have hk : FilesOk (fun _ => False) (bootBase nodes) 0 0 k :=
    hcareful.invariant (FilesOk (fun _ => False) (bootBase nodes) 0 0)
      (fun _ op hk hop => hk.step op (fun _ _ => trivial) (.inr hop)) (boot_ok _ nodes)
  refine ⟨fun f => ?_, fun i hi => ⟨fun hnone => ?_, fun hzero => ?_⟩, hk.sound.log, ?_⟩
  · have hcount := hk.sound.counted f
    rwa [add_zero, Multiset.count_add] at hcount
  · by_contra hused
    exact hk.sound.kinds i hi hused hnone
  · exact (hk.sound.slots i hi hzero).resolve_left id
  · have hbacked := hk.sound.backed
    rwa [add_zero] at hbacked

def sharingOps : List Op :=
  [.tableInitialize, .socket 0 (fun _ => true) .unix .stream,
    .pipeCreate 0 (fun _ => true) false false, .dup 0 4 (fun _ => true), .close 0 4]

theorem file_references_sharing :
    Guarded Files.step Careful (Files.boot fun _ => ⟨false, false, 0⟩) sharingOps ∧
    let k := run Files.step (Files.boot fun _ => ⟨false, false, 0⟩) sharingOps
    (k.opened : Multiset Handle) = k.live + (k.released : Multiset Handle) := by
  refine ⟨?careful, (file_references _ sharingOps ?careful).2.2.1⟩
  refine ⟨trivial, fun table ht => .inl ?_, trivial, trivial, trivial, trivial⟩
  cases ht
  decide

/-- With sixteen entries in use and no memory for a larger table, a socket call leaves a slot of
the pool taken that nothing refers to. -/
theorem socket_leaks_slot :
    let k := run Files.step (Files.boot fun _ => ⟨false, false, 0⟩)
      (.tableInitialize :: List.replicate 13 (.dup 0 0 fun _ => false) ++
        [.socket 0 (fun _ => false) .unix .stream])
    (k.files 0).references = 0 ∧ (k.files 0).object ≠ none := by
  decide +kernel

/-- In every history whatever, a slot of the pool is all that can be lost. -/
theorem descriptions_never_dangle (ops : List Op) :
    FilesOk (fun _ => True) (bootBase nodes) 0 0 (run Files.step (Files.boot nodes) ops) :=
  run_invariant (FilesOk (fun _ => True) (bootBase nodes) 0 0)
    (fun _ op hk => hk.step op (fun _ _ => trivial) (.inl fun _ => trivial)) (boot_ok _ nodes) ops

end XsCore.File
