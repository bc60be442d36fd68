import XsCore.Vfs.TreeInvariant

/-!
# The operations keep the tree

One lemma per mutator of `vfs.c`.  `mkdir`, `open` and `rename` need a condition:
they resolve the new parent without asking whether it is still linked, and `rename`
accepts the empty name that `split_path` returns for the root path.
-/

namespace XsCore.Vfs

open Forest

variable (node : Vnode) (pages : Nat)
variable {e : Errno} {cur dst : Nat}

/-! ## One lemma per operation -/

theorem SamePlace.refl : SamePlace node node := ⟨rfl, rfl, rfl, rfl⟩

theorem convertToDynamic_samePlace : SamePlace (convertToDynamic node pages).1 node := by
  unfold convertToDynamic
  split_ifs
  · exact SamePlace.refl node
  · exact SamePlace.refl node
  · dsimp only
    split <;> exact ⟨rfl, rfl, rfl, rfl⟩

theorem writeNode_samePlace (offset length : UInt64) (src : Nat → UInt8) (pages : Nat) :
    SamePlace (writeNode node offset length src pages).1 node := by
  have hplace := convertToDynamic_samePlace node pages
  unfold writeNode
  split
  · exact SamePlace.refl node
  generalize convertToDynamic node pages = converted at *
  obtain ⟨node', pages', ok⟩ := converted
  cases ok with
  | false => exact hplace
  | true =>
    dsimp only
    split <;> exact hplace

theorem truncateNode_samePlace (length : UInt64) (pages : Nat) :
    SamePlace (truncateNode node length pages).1 node := by
  have hplace := convertToDynamic_samePlace node pages
  unfold truncateNode
  split_ifs
  · exact SamePlace.refl node
  · exact SamePlace.refl node
  · exact SamePlace.refl node
  generalize convertToDynamic node pages = converted at *
  obtain ⟨node', pages', ok⟩ := converted
  cases ok <;> exact hplace

theorem openTruncate_samePlace : SamePlace (openTruncate node) node :=
  ⟨rfl, rfl, rfl, rfl⟩

/-- The new parent directory is a table slot, still linked, and looked up in the
table. -/
def ParentSound (s : State) (caller : Caller) (cwd : Nat) (path : Name) : Prop :=
  ∀ parent name, splitParent s caller cwd path = .ok (parent, name) →
    parent < maxNodes ∧ (s.nodes parent).unlinked = false ∧ ¬ Opaque s parent

variable {caller : Caller} {name path : Name} {cwd parent src : Nat} {s : State}

theorem splitParent_ok (h : splitParent s caller cwd path = .ok (parent, name)) :
    ∃ parentPath, Split path parentPath name ∧
      resolvePathAt s caller cwd parentPath = .ok parent := by
  unfold splitParent at h
  split at h
  · cases h
  rename_i parentPath last hsplit
  split at h
  · cases h
  rename_i found hfound
  cases h
  exact ⟨parentPath, splitPath_spec hsplit, hfound⟩

theorem createIn_inv (h : TreeInv s) (caller : Caller) (type : VnodeType) (mode : UInt32)
    (hbound : parent < maxNodes) (hlinked : (s.nodes parent).unlinked = false) (hnew : (s.nodes
      parent).type = .directory → nodeAllows (s.nodes parent) caller 3 → ValidName name ∧
      findChild s parent name = none) : TreeInv (createIn s caller type parent name mode).1 := by
  unfold createIn
  split_ifs with hdirectory hallows
  · exact h
  · exact h
  have hdirectory : (s.nodes parent).type = .directory := by simpa using hdirectory
  obtain ⟨hname, hnone⟩ := hnew hdirectory (by simpa using hallows)
  split
  · exact h
  rename_i slot hslot
  obtain ⟨-, hslot, hfree⟩ := freeSlot_some hslot
  refine h.create hslot hfree hname ⟨hbound, by simp [Vnode.used, freshNode, hdirectory], hlinked⟩
    hdirectory ?_
  intro j hj hj0 hused hparent
  exact findChild_none hnone (Nat.pos_of_ne_zero hj0) (h.counted j hj hused) hused hparent

/-- The common argument of `mkdir` and `open`: the path does not resolve, so the
name is new in its directory. -/
theorem newName_of_unresolved (hpath : resolvePathAt s caller cwd path = .error e)
    (hparent : splitParent s caller cwd path = .ok (parent, name)) (hidden : ¬ Opaque s parent)
    (hdirectory : (s.nodes parent).type = .directory)
    (hallows : nodeAllows (s.nodes parent) caller 3) :
    ValidName name ∧ findChild s parent name = none := by
  obtain ⟨parentPath, hsplit, hresolve⟩ := splitParent_ok hparent
  have hname : name ≠ [] := by
    intro hnil
    rw [resolvePathAt, if_neg hsplit.path_ne, hsplit.nameless hnil] at hpath
    cases hpath
  rw [resolvePathAt_split hsplit hname hresolve] at hpath
  obtain ⟨hd, hdd, hnone⟩ := walkStep_error hsplit.name_fits hidden hdirectory hallows hpath
  exact ⟨⟨hname, hsplit.name_plain, hd, hdd⟩, hnone⟩

section

variable (h : TreeInv s)
include h

theorem mkdirAt_inv (caller : Caller) (cwd : Nat) (path : Name) (mode : UInt32)
    (hsound : ParentSound s caller cwd path) : TreeInv (mkdirAt s caller cwd path mode).1 := by
  unfold mkdirAt
  split
  · exact h
  split
  · exact h
  rename_i e hpath
  split
  · exact h
  rename_i parent name hparent
  obtain ⟨hbound, hlinked, hidden⟩ := hsound parent name hparent
  exact createIn_inv h caller .directory _ hbound hlinked
    (newName_of_unresolved hpath hparent hidden)

theorem openTarget_inv (caller : Caller) (target : Nat) (flags : UInt64) :
    TreeInv (openTarget s caller target flags).1 := by
  have htruncated := h.setNode_samePlace (openTruncate_samePlace (s.nodes target))
  unfold openTarget
  dsimp only
  repeat' split
  all_goals first | exact h | exact htruncated

theorem openCreate_inv (caller : Caller) (cwd : Nat) (path : Name) (flags : UInt64) (mode : UInt32)
    (hpath : resolvePathAt s caller cwd path = .error e)
    (hsound : flags &&& oCreat ≠ 0 → ParentSound s caller cwd path) :
    TreeInv (openCreate s caller cwd path flags mode).1 := by
  unfold openCreate
  split
  · exact h
  rename_i hcreat
  split
  · exact h
  rename_i parent name hparent
  split
  · exact h
  obtain ⟨hbound, hlinked, hidden⟩ := hsound hcreat parent name hparent
  exact createIn_inv h caller .regular _ hbound hlinked
    (newName_of_unresolved hpath hparent hidden)

theorem openAt_inv (caller : Caller) (cwd : Nat) (path : Name) (flags : UInt64) (mode : UInt32)
    (hsound : flags &&& oCreat ≠ 0 → (∀ target, resolvePathAt s caller cwd path ≠ .ok target) →
      ParentSound s caller cwd path) : TreeInv (openAt s caller cwd path flags mode).1 := by
  unfold openAt
  split
  · exact h
  split
  · exact openTarget_inv h caller _ flags
  rename_i e hpath
  have hcreate := openCreate_inv h caller cwd path flags mode hpath fun hcreat =>
    hsound hcreat (by simp [hpath])
  generalize openCreate s caller cwd path flags mode = created at *
  obtain ⟨s', result⟩ := created
  cases result with
  | error e => exact hcreate
  | ok target => exact openTarget_inv hcreate caller target flags

theorem detach_inv {target : Nat} (h0 : target ≠ 0)
    (hempty : (s.nodes target).type = .directory → ¬ hasChildren s target) :
    TreeInv (s.setNode target (detach (s.nodes target))) := by
  apply h.unlink h0
  · intro j hj hj0 hp
    have hdirectory := h.parent_directory j hj hj0
    rw [hp] at hdirectory
    exact hasChildren_false (hempty hdirectory) (Nat.pos_of_ne_zero hj0)
      (h.counted j hj.1 hj.2.1) hj.2.1 hp
  · unfold detach
    split <;> rfl
  · unfold detach
    split
    · exact .inr rfl
    · exact .inl rfl
  · unfold detach
    split
    · exact id
    · intro hused
      simp [Vnode.used] at hused

theorem unlinkAt_inv (caller : Caller) (cwd : Nat) (path : Name) :
    TreeInv (unlinkAt s caller cwd path).1 := by
  unfold unlinkAt
  split
  · exact h
  split
  · exact h
  rename_i target _
  split_ifs with h0
  · exact h
  · exact h
  · exact h
  · rename_i hempty
    exact detach_inv h h0 fun hd hc => hempty ⟨hd, hc⟩

end

/-! ## Renaming -/

/-- The walk to the root did not meet the moved node, so the way to the root is
the same after the move. -/
theorem rooted_of_meetsOnWay (h : TreeInv s) {parent' : Nat → Nat}
    (agree : ∀ j ≠ src, parent' j = parentOf s j) (fuel : Nat) (hcur : Linked s cur)
    (hwalk : meetsOnWay s src fuel cur = some false) : Rooted parent' 0 cur := by
  induction fuel generalizing cur with
  | zero => cases hwalk
  | succ fuel ih =>
    by_cases h0 : cur = 0
    · exact h0 ▸ Rooted.root
    rw [meetsOnWay, if_pos ⟨h0, hcur.1⟩] at hwalk
    split at hwalk
    · cases hwalk
    rename_i hsrc
    apply Rooted.step
    rw [agree cur hsrc]
    exact ih (h.parent_linked cur hcur h0) hwalk

/-- What the checks of `rename` establish about the node to move. -/
theorem renameSource_ok (h : renameSource s caller cwd path = .ok src) :
    src ≠ 0 ∧ src < s.nodeCount ∧
      ((s.nodes src).type = .regular ∨ (s.nodes src).type = .directory) := by
  unfold renameSource at h
  split at h
  · cases h
  split_ifs at h
  split at h
  · cases h
  rename_i found _
  split_ifs at h with h0 hcount htype
  cases h
  refine ⟨h0, by omega, ?_⟩
  by_contra hother
  exact htype (not_or.mp hother)

/-- What they establish about the new place. -/
theorem renameTarget_ok (h : renameTarget s caller cwd path src = .ok (parent, name)) :
    (∃ parentPath, splitPath path = some (parentPath, name) ∧
      resolvePathAt s caller cwd parentPath = .ok parent) ∧
      slash ∉ name ∧ name ≠ [dot] ∧ name ≠ [dot, dot] ∧ parent < maxNodes ∧
      (s.nodes parent).type = .directory ∧
      ((s.nodes src).type = .directory → meetsOnWay s src (maxNodes + 1) parent = some false) := by
  unfold renameTarget at h
  split at h
  · cases h
  rename_i parentPath last hsplit
  split at h
  · cases h
  rename_i hdots
  split at h
  · cases h
  rename_i found hfound
  split_ifs at h with hparent _ hway
  cases h
  simp only [isDotName, Bool.or_eq_true, decide_eq_true_eq, not_or] at hdots
  rw [not_or] at hparent
  refine ⟨⟨parentPath, hsplit, hfound⟩, (splitPath_spec hsplit).name_plain, hdots.1, hdots.2,
    by omega, by simpa using hparent.2, ?_⟩
  intro hd
  by_contra hne
  exact hway ⟨hd, hne⟩

theorem moveNode_inv (h : TreeInv s) (pages : Nat) (h0 : src ≠ 0)
    (htype : (s.nodes src).type = .regular ∨ (s.nodes src).type = .directory)
    (hname : ValidName name) (hparent : Linked s parent)
    (hdirectory : (s.nodes parent).type = .directory)
    (hway : (s.nodes src).type = .directory → meetsOnWay s src (maxNodes + 1) parent = some false)
      (hfresh : ∀ j < maxNodes, j ≠ 0 → j ≠ src → (s.nodes j).used → parentOf s j =
      parent → (s.nodes j).name ≠ name) : TreeInv (moveNode s pages src parent name).1 := by
  have hplace := convertToDynamic_samePlace (s.nodes src) pages
  unfold moveNode
  generalize convertToDynamic (s.nodes src) pages = converted at *
  obtain ⟨node, left, ok⟩ := converted
  rcases ok with _ | _
  · exact h.setNode_samePlace hplace
  have agree : ∀ j ≠ src, parentOf (s.setNode src
      { node with isDynamic := true, parent := parent, name := name }) j = parentOf s j := by
    intro j hj
    simp [parentOf, setNode_nodes_ne hj]
  refine h.move h0 hname hplace.1 hplace.2.2.2 hparent hdirectory ?_ hfresh
  rcases htype with hregular | hd
  · -- a regular file is on no way to the root: parents are directories
    refine (h.rooted parent hparent).congr_on
      (fun j => Linked s j ∧ (s.nodes j).type = .directory) ?_ ?_ ⟨hparent, hdirectory⟩
    · intro j hj hj0
      exact ⟨h.parent_linked j hj.1 hj0, h.parent_directory j hj.1 hj0⟩
    · intro j hj _
      apply agree
      intro heq
      rw [heq, hregular] at hj
      cases hj.2
  · exact rooted_of_meetsOnWay h agree (maxNodes + 1) hparent (hway hd)


theorem detach_name : (detach node).name = [] := by
  unfold detach
  split <;> rfl

theorem replaceCheck_none (h : replaceCheck s src dst = none) :
    (s.nodes dst).type = .directory → ¬ hasChildren s dst := by
  intro hd
  unfold replaceCheck at h
  rw [if_neg (show ¬ (s.nodes dst).type ≠ .directory by simp [hd]), if_pos hd] at h
  split at h
  · split at h
    · cases h
    · assumption
  · cases h

/-- Removing a leaf that is not on the way leaves the walk to the root alone. -/
theorem meetsOnWay_setNode (h : TreeInv s) {node : Vnode} (src : Nat)
    (hleaf : ∀ j, Linked s j → j ≠ 0 → parentOf s j ≠ dst) (fuel : Nat)
    (hcur : Linked s cur) (hne : cur ≠ dst) :
    meetsOnWay (s.setNode dst node) src fuel cur = meetsOnWay s src fuel cur := by
  induction fuel generalizing cur with
  | zero => rfl
  | succ fuel ih =>
    simp only [meetsOnWay, setNode_nodes_ne hne]
    by_cases h0 : cur = 0
    · simp [h0]
    have hstep := ih (h.parent_linked cur hcur h0) (hleaf cur hcur h0)
    rw [parentOf] at hstep
    rw [hstep]

theorem renameAt_inv (h : TreeInv s) (caller : Caller) (oldCwd : Nat) (oldPath : Name)
    (newCwd : Nat) (newPath : Name) (hsound : ∀ parentPath name, splitPath newPath = some
      (parentPath, name) → name ≠ [] ∧ ∀ parent, resolvePathAt s caller newCwd parentPath = .ok
      parent → (s.nodes parent).unlinked = false) :
    TreeInv (renameAt s caller oldCwd oldPath newCwd newPath).1 := by
  unfold renameAt
  split
  · exact h
  split
  · exact h
  rename_i src hsource
  split
  · exact h
  rename_i parent name htarget
  obtain ⟨h0, hcount, htype⟩ := renameSource_ok hsource
  obtain ⟨⟨parentPath, hsplit, hresolve⟩, hplain, hd, hdd, hbound, hdirectory, hway⟩ :=
    renameTarget_ok htarget
  obtain ⟨hname, hlinkedParent⟩ := hsound parentPath name hsplit
  have hvalid : ValidName name := ⟨hname, hplain, hd, hdd⟩
  have hparent : Linked s parent :=
    ⟨hbound, by simp [Vnode.used, hdirectory], hlinkedParent parent hresolve⟩
  split
  · rename_i hnone
    refine moveNode_inv h caller.pages h0 htype hvalid hparent hdirectory hway ?_
    intro j hj hj0 _ hused hp
    exact findChild_none hnone (Nat.pos_of_ne_zero hj0) (h.counted j hj hused) hused hp
  rename_i dst hfound
  obtain ⟨hdst0, hdstCount, hdstUsed, hdstParent, hdstName⟩ := findChild_some hfound
  split
  · exact h
  rename_i hne
  split
  · exact h
  rename_i hcheck
  have hempty := replaceCheck_none hcheck
  have hdstBound : dst < maxNodes := hdstCount.trans_le h.count_le
  have hleaf : ∀ j, Linked s j → j ≠ 0 → parentOf s j ≠ dst := by
    intro j hj hj0 hp
    have hdir := h.parent_directory j hj hj0
    rw [hp] at hdir
    exact hasChildren_false (hempty hdir) (Nat.pos_of_ne_zero hj0)
      (h.counted j hj.1 hj.2.1) hj.2.1 hp
  -- the replaced entry is not the new parent: it would have to be its own child
  have hpd : parent ≠ dst := by
    intro heq
    rw [heq] at hdirectory hdstParent
    exact hasChildren_false (hempty hdirectory) hdst0 hdstCount hdstUsed hdstParent
  have hinv := detach_inv h hdst0.ne' hempty
  refine moveNode_inv hinv caller.pages h0 ?_ hvalid ?_ ?_ ?_ ?_
  · rw [setNode_nodes_ne hne]
    exact htype
  · rw [Linked, setNode_nodes_ne hpd]
    exact hparent
  · rw [setNode_nodes_ne hpd]
    exact hdirectory
  · rw [setNode_nodes_ne hne, meetsOnWay_setNode h src hleaf _ hparent hpd]
    exact hway
  · intro j hj hj0 _ hused hp
    by_cases hjd : j = dst
    · rw [hjd, setNode_nodes_self, detach_name]
      exact hname.symm
    rw [setNode_nodes_ne hjd] at hused ⊢
    rw [parentOf, setNode_nodes_ne hjd] at hp
    intro hsame
    apply hjd
    apply h.siblings j dst hj hdstBound hj0 hdst0.ne' hused hdstUsed
    · rw [hsame]
      exact hname
    · rw [parentOf, parentOf, hp, hdstParent]
    · rw [hsame, hdstName]

/-! ## References, attributes and content -/

section

variable (h : TreeInv s)
include h

theorem nodeAcquire_inv (id : Nat) : TreeInv (nodeAcquire s id).1 := by
  unfold nodeAcquire
  split
  · exact h
  dsimp only
  split
  · exact h.setNode_samePlace ⟨rfl, rfl, rfl, rfl⟩
  · exact h

theorem nodeRelease_inv (id : Nat) : TreeInv (nodeRelease s id) := by
  unfold nodeRelease
  split
  · exact h
  have hplace : ∀ node, SamePlace node (s.nodes id) →
      TreeInv (s.setNode id (resetUnlinked node)) := by
    intro node hnode
    unfold resetUnlinked
    split
    · exact h.setNode_samePlace hnode
    rename_i hreset
    have hunlinked : (s.nodes id).unlinked := by
      rw [← hnode.2.2.2]
      simp only [not_or, not_not] at hreset
      exact hreset.1
    have hnot : ¬ Linked s id := fun hl => by simp [hl.2.2] at hunlinked
    refine h.unlink ?_ ?_ rfl (.inl rfl) ?_
    · intro h0
      exact hnot (h0 ▸ h.linked_root)
    · intro j hj hj0
      exact h.parent_ne hj hnot hj0
    · intro hused
      simp [Vnode.used] at hused
  apply hplace
  split
  · exact ⟨rfl, rfl, rfl, rfl⟩
  · exact SamePlace.refl _

theorem withAttributes_inv (caller : Caller) (target : Nat) {node : Vnode}
    (hplace : SamePlace node (s.nodes target)) :
    TreeInv (withAttributes s caller target node).1 := by
  have hconverted := convertToDynamic_samePlace node caller.pages
  have htrans : SamePlace (convertToDynamic node caller.pages).1 (s.nodes target) :=
    ⟨hconverted.1.trans hplace.1, hconverted.2.1.trans hplace.2.1,
      hconverted.2.2.1.trans hplace.2.2.1, hconverted.2.2.2.trans hplace.2.2.2⟩
  unfold withAttributes
  generalize convertToDynamic node caller.pages = converted at *
  obtain ⟨node', left, ok⟩ := converted
  cases ok <;> exact h.setNode_samePlace htrans

theorem chmodAt_inv (caller : Caller) (cwd : Nat) (path : Name) (mode : UInt32) :
    TreeInv (chmodAt s caller cwd path mode).1 := by
  unfold chmodAt
  split
  · exact h
  split
  · exact h
  dsimp only
  split_ifs
  · exact h
  · exact h
  · exact withAttributes_inv h caller _ ⟨rfl, rfl, rfl, rfl⟩

theorem chownAt_inv (caller : Caller) (cwd : Nat) (path : Name) (uid gid : UInt32) :
    TreeInv (chownAt s caller cwd path uid gid).1 := by
  unfold chownAt
  split
  · exact h
  split
  · exact h
  dsimp only
  split_ifs
  · exact h
  · exact h
  · exact withAttributes_inv h caller _ ⟨rfl, rfl, rfl, rfl⟩

theorem writeNodeAt_inv (id : Nat) (offset length : UInt64) (src : Nat → UInt8) (pages : Nat) :
    TreeInv (writeNodeAt s id offset length src pages) := by
  unfold writeNodeAt
  split
  · exact h
  · exact h.setNode_samePlace (writeNode_samePlace ..)

theorem truncateNodeAt_inv (id : Nat) (length : UInt64) (pages : Nat) :
    TreeInv (truncateNodeAt s id length pages) := by
  unfold truncateNodeAt
  split
  · exact h
  · exact h.setNode_samePlace (truncateNode_samePlace ..)

end

end XsCore.Vfs
