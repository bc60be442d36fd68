import XsCore.Vfs.Boot
import XsCore.Vfs.TreeOps

/-!
# The boot tree satisfies the invariant

While the archive, `/dev` and `/proc` are added nothing is unlinked and no procfs
id is in use, so every path resolves to a linked node and the conditions of the
tree operations hold by themselves.
-/

namespace XsCore.Vfs

open Forest

variable {i current next target : Nat} {comp : Name}

theorem vfsInitialize_inv (prior : State) : TreeInv (vfsInitialize prior) := by
  have hlinked : ∀ i, Linked (vfsInitialize prior) i → i = 0 := by
    rintro i ⟨hi, hused, -⟩
    by_contra h0
    simp [vfsInitialize, h0, hi, Vnode.used] at hused
  constructor
  · rfl
  · rfl
  · rfl
  · exact Nat.le_of_lt (by decide : 1 < maxNodes)
  · intro i hi hused
    rw [hlinked i ⟨hi, hused, by by_cases h0 : i = 0 <;> simp [vfsInitialize, h0, hi]⟩]
    exact Nat.one_pos
  · exact fun i hi h0 => absurd (hlinked i hi) h0
  · exact fun i hi h0 => absurd (hlinked i hi) h0
  · exact fun i hi h0 => absurd (hlinked i hi) h0
  · exact fun i hi => hlinked i hi ▸ Rooted.root
  · intro i j hi _ h0 _ hused
    simp [vfsInitialize, h0, hi, Vnode.used] at hused

/-- What holds while the boot tree is built: nothing is unlinked and the procfs
ids are not looked up yet. -/
structure BootInv (s : State) : Prop extends TreeInv s where
  nothing_unlinked : ∀ i, i < maxNodes → (s.nodes i).unlinked = false
  no_procfs : s.procfs = Procfs.absent

variable {s : State}

section

variable (h : BootInv s)
include h

theorem BootInv.linked (hi : i < maxNodes) (hused : (s.nodes i).used) : Linked s i :=
  ⟨hi, hused, h.nothing_unlinked i hi⟩

theorem BootInv.tableChild (hok : tableChild s current comp = .ok next) : Linked s next := by
  unfold XsCore.Vfs.tableChild at hok
  split at hok
  · rename_i child hchild
    cases hok
    obtain ⟨-, hcount, hused, -, -⟩ := findChild_some hchild
    exact h.linked (hcount.trans_le h.count_le) hused
  · cases hok

theorem BootInv.parent (hi : Linked s i) : Linked s (s.nodes i).parent := by
  by_cases h0 : i = 0
  · rw [h0, show (s.nodes 0).parent = 0 from h.root_parent]
    exact h.linked_root
  · exact h.parent_linked i hi h0

theorem BootInv.walkStep (caller : Caller) (hcurrent : Linked s current)
    (hok : walkStep s caller current comp = .ok next) : Linked s next := by
  unfold XsCore.Vfs.walkStep at hok
  simp only [h.no_procfs, Procfs.absent, Bool.false_eq_true, false_and, if_false] at hok
  split_ifs at hok
  · cases hok
    exact hcurrent
  · cases hok
    exact h.linked_root
  · cases hok
    exact h.parent hcurrent
  · cases hok
    exact hcurrent
  · exact h.tableChild hok

theorem BootInv.walk (caller : Caller) {comps : List Name} (hcurrent : Linked s current)
    (hok : walk s caller current comps = .ok target) : Linked s target := by
  induction comps generalizing current with
  | nil =>
    cases hok
    exact hcurrent
  | cons comp comps ih =>
    rw [XsCore.Vfs.walk] at hok
    split at hok
    · rename_i next hnext
      exact ih (h.walkStep caller hcurrent hnext) hok
    · cases hok

theorem BootInv.resolve (caller : Caller) {path : Name}
    (hok : resolvePathAt s caller 0 path = .ok target) : Linked s target := by
  unfold resolvePathAt at hok
  split_ifs at hok
  have hstart : startNode s 0 path = 0 := by
    unfold startNode
    simp [inPidRange, procPidBase, h.root_directory]
  rw [hstart] at hok
  exact h.walk caller h.linked_root hok

theorem BootInv.parentSound (caller : Caller) (path : Name) : ParentSound s caller 0 path := by
  intro parent name hparent
  obtain ⟨parentPath, -, hresolve⟩ := splitParent_ok hparent
  obtain ⟨hbound, -, hlinked⟩ := h.resolve caller hresolve
  refine ⟨hbound, hlinked, ?_⟩
  rintro ⟨hinstalled, -⟩
  rw [h.no_procfs] at hinstalled
  cases hinstalled

theorem BootInv.create {slot : Nat} {node : Vnode} (hinv : TreeInv (s.create slot node))
    (hnode : node.unlinked = false) : BootInv (s.create slot node) where
  toTreeInv := hinv
  nothing_unlinked := by
    intro i hi
    by_cases his : i = slot
    · simp [State.create, his, hnode]
    · simpa [State.create, his] using h.nothing_unlinked i hi
  no_procfs := h.no_procfs

end

theorem mkdirAt_eq (s : State) (caller : Caller) (cwd : Nat) (path : Name) (mode : UInt32) :
    (mkdirAt s caller cwd path mode).1 = s ∨
      ∃ slot parent name bits, (mkdirAt s caller cwd path mode).1 =
        s.create slot (freshNode .directory parent name bits caller.uid caller.gid) := by
  unfold mkdirAt createIn
  repeat' split
  all_goals first
    | exact Or.inl rfl
    | exact Or.inr ⟨_, _, _, _, rfl⟩

theorem mkdirAt_boot (h : BootInv s) (caller : Caller) (path : Name) (mode : UInt32) :
    BootInv (mkdirAt s caller 0 path mode).1 := by
  have hinv := mkdirAt_inv h.toTreeInv caller 0 path mode (h.parentSound caller path)
  rcases mkdirAt_eq s caller 0 path mode with heq | ⟨slot, parent, name, bits, heq⟩
  · rw [heq]
    exact h
  · rw [heq] at hinv ⊢
    exact h.create hinv rfl

theorem addNode_boot (h : BootInv s) (first : Nat) (type : VnodeType) (path : Name)
    (data : Option (List UInt8)) (mode : UInt32)
    (hname : ∀ split ∈ splitPath path, ValidName split.2) :
    BootInv (addNode s first type path data mode).1 := by
  unfold addNode
  split
  · exact h
  split
  · exact h
  rename_i parent name hparent
  split
  · exact h
  rename_i hdirectory
  split
  · exact h
  rename_i hnone
  split
  · exact h
  rename_i slot hslot
  obtain ⟨hbound, hlinked, -⟩ := h.parentSound _ path parent name hparent
  obtain ⟨-, hslotBound, hfree⟩ := freeSlot_some hslot
  have hdirectory : (s.nodes parent).type = .directory := by simpa using hdirectory
  have hvalid : ValidName name := by
    unfold splitParent at hparent
    split at hparent
    · cases hparent
    rename_i hsplit
    split at hparent
    · cases hparent
    · cases hparent
      exact hname _ hsplit
  have hparentLinked : Linked s parent := h.linked hbound (by simp [Vnode.used, hdirectory])
  have hnone : findChild s parent name = none := by simpa using hnone
  refine h.create (h.toTreeInv.create hslotBound hfree hvalid hparentLinked hdirectory ?_) rfl
  intro j hj hj0 hused hp
  exact findChild_none hnone (Nat.pos_of_ne_zero hj0) (h.counted j hj hused) hused hp

/-- The last name of an archive entry that is not a directory; `mkdir` checks
its own. -/
def BootEntry.NameValid : BootEntry → Prop
  | .directory _ _ => True
  | .file path _ _ | .device path _ => ∀ split ∈ splitPath path, ValidName split.2

instance : (entry : BootEntry) → Decidable entry.NameValid
  | .directory _ _ => inferInstanceAs (Decidable True)
  | .file path _ _ => inferInstanceAs (Decidable (∀ split ∈ splitPath path, ValidName split.2))
  | .device path _ => inferInstanceAs (Decidable (∀ split ∈ splitPath path, ValidName split.2))

theorem BootEntry.add_boot (h : BootInv s) (entry : BootEntry) (hname : entry.NameValid) :
    BootInv (entry.add s).1 := by
  cases entry with
  | directory path mode =>
    have hmkdir := mkdirAt_boot h (Caller.boot 0) path (mode &&& 0o7777)
    simp only [BootEntry.add, addDirectory]
    generalize mkdirAt s (Caller.boot 0) 0 path (mode &&& 0o7777) = result at hmkdir
    obtain ⟨s', outcome⟩ := result
    cases outcome <;> exact hmkdir
  | file path data mode | device path mode => exact addNode_boot h _ _ _ _ _ hname

theorem addAll_boot (h : BootInv s) (entries : List BootEntry)
    (hnames : ∀ entry ∈ entries, entry.NameValid) : BootInv (addAll s entries).1 := by
  induction entries generalizing s with
  | nil => exact h
  | cons entry rest ih =>
    have hadd := BootEntry.add_boot h entry (hnames entry (by simp))
    rw [addAll]
    generalize entry.add s = result at hadd
    obtain ⟨s', ok⟩ := result
    cases ok with
    | true => exact ih hadd fun e he => hnames e (by simp [he])
    | false => exact hadd


theorem clearDynamic_boot (h : BootInv s) (id : Nat) : BootInv (clearDynamic s id) where
  toTreeInv := h.toTreeInv.setNode_samePlace ⟨rfl, rfl, rfl, rfl⟩
  nothing_unlinked := by
    intro i hi
    by_cases hid : i = id
    · rw [hid] at hi ⊢
      simpa [clearDynamic] using h.nothing_unlinked id hi
    · rw [clearDynamic, setNode_nodes_ne hid]
      exact h.nothing_unlinked i hi
  no_procfs := h.no_procfs

theorem devDevices_nameValid (x86 : Bool) : ∀ entry ∈ devDevices x86, entry.NameValid := by
  cases x86 <;> decide

theorem procEntries_nameValid : ∀ entry ∈ procEntries, entry.NameValid := by
  decide

theorem installDevfs_boot (h : BootInv s) (x86 : Bool) : BootInv (installDevfs s x86).1 := by
  have hdirs := addAll_boot h (devDirectories.map (BootEntry.directory · 0o755)) (by decide)
  unfold installDevfs
  generalize addAll s (devDirectories.map (BootEntry.directory · 0o755)) = result at hdirs
  obtain ⟨s', ok⟩ := result
  cases ok with
  | false => exact hdirs
  | true =>
    refine addAll_boot (devDirectories.foldlRecOn _ hdirs ?_) _ (devDevices_nameValid x86)
    exact fun s h path _ => clearDynamic_boot h (bootLookup s path)

theorem TreeInv.withProcfs (h : TreeInv s) (p : Procfs) : TreeInv { s with procfs := p } :=
  h.of_samePlace (fun _ _ => SamePlace.refl _) rfl

theorem installProcfs_inv (h : BootInv s) : TreeInv (installProcfs s).1 := by
  have hall := addAll_boot h procEntries procEntries_nameValid
  unfold installProcfs
  generalize addAll s procEntries = result at hall
  obtain ⟨s', ok⟩ := result
  rcases ok with _ | _
  · exact hall.toTreeInv
  dsimp only
  generalize procEntries.map (fun entry => bootLookup s' entry.path) = ids
  have hcleared := ids.foldlRecOn clearDynamic hall fun _ h id _ => clearDynamic_boot h id
  exact hcleared.toTreeInv.withProcfs (procLookups s')

/-- The state before boot: zeroed statics around whatever the table holds. -/
def atReset (table : Nat → Vnode) : State := ⟨table, 0, Procfs.absent⟩

def bootTree (table : Nat → Vnode) (archive : List BootEntry) (x86 : Bool) : State :=
  (mountArchive (vfsInitialize (atReset table)) archive x86).1

theorem bootTree_inv (table : Nat → Vnode) (archive : List BootEntry) (x86 : Bool)
    (hnames : ∀ entry ∈ archive, entry.NameValid) : TreeInv (bootTree table archive x86) := by
  have hstart : BootInv (vfsInitialize (atReset table)) :=
    ⟨vfsInitialize_inv _, by
      intro i hi
      by_cases h0 : i = 0 <;> simp [vfsInitialize, h0, hi], rfl⟩
  have hall := addAll_boot hstart archive hnames
  unfold bootTree mountArchive
  generalize addAll (vfsInitialize (atReset table)) archive = result at hall
  obtain ⟨s, ok⟩ := result
  rcases ok with _ | _
  · exact hall.toTreeInv
  have hdev := installDevfs_boot hall x86
  dsimp only at hdev ⊢
  generalize installDevfs s x86 = installed at hdev
  obtain ⟨s', ok⟩ := installed
  cases ok with
  | false => exact hdev.toTreeInv
  | true => exact installProcfs_inv hdev

end XsCore.Vfs
