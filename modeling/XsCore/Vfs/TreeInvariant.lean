import XsCore.Foundation.Forest
import XsCore.Vfs.Resolve

/-!
# The directory tree invariant

`TreeInv` is kept by four kinds of table change: an entry keeps its place, a free
slot becomes an entry, a leaf leaves the tree, and an entry moves below a
directory that is rooted without it.  The operations of `vfs.c` are composed of
these.
-/

namespace XsCore.Vfs

open Forest

def Linked (s : State) (i : Nat) : Prop :=
  i < maxNodes ∧ (s.nodes i).used = true ∧ (s.nodes i).unlinked = false

def ValidName (name : Name) : Prop :=
  name ≠ [] ∧ slash ∉ name ∧ name ≠ [dot] ∧ name ≠ [dot, dot]

instance (name : Name) : Decidable (ValidName name) := inferInstanceAs (Decidable (_ ∧ _))

def parentOf (s : State) (i : Nat) : Nat := (s.nodes i).parent

/-- The shape of the directory tree: every linked node but the root has a proper
name and a linked directory as parent, parents lead to the root, and siblings
have different names. -/
structure TreeShape (s : State) : Prop where
  named : ∀ i, Linked s i → i ≠ 0 → ValidName (s.nodes i).name
  parent_linked : ∀ i, Linked s i → i ≠ 0 → Linked s (parentOf s i)
  parent_directory : ∀ i, Linked s i → i ≠ 0 → (s.nodes (parentOf s i)).type = .directory
  rooted : ∀ i, Linked s i → Rooted (parentOf s) 0 i
  unique : ∀ i j, Linked s i → Linked s j → i ≠ 0 → j ≠ 0 → parentOf s i = parentOf s j →
    (s.nodes i).name = (s.nodes j).name → i = j

/-- The invariant behind the shape.  Sibling names differ among all used slots
with a name, linked or not, because `find_child` does not skip unlinked ones. -/
structure TreeInv (s : State) : Prop where
  root_directory : (s.nodes 0).type = .directory
  root_linked : (s.nodes 0).unlinked = false
  root_parent : parentOf s 0 = 0
  count_le : s.nodeCount ≤ maxNodes
  counted : ∀ i, i < maxNodes → (s.nodes i).used = true → i < s.nodeCount
  named : ∀ i, Linked s i → i ≠ 0 → ValidName (s.nodes i).name
  parent_linked : ∀ i, Linked s i → i ≠ 0 → Linked s (parentOf s i)
  parent_directory : ∀ i, Linked s i → i ≠ 0 → (s.nodes (parentOf s i)).type = .directory
  rooted : ∀ i, Linked s i → Rooted (parentOf s) 0 i
  siblings : ∀ i j, i < maxNodes → j < maxNodes → i ≠ 0 → j ≠ 0 →
    (s.nodes i).used = true → (s.nodes j).used = true → (s.nodes i).name ≠ [] →
    parentOf s i = parentOf s j → (s.nodes i).name = (s.nodes j).name → i = j

theorem TreeInv.shape {s : State} (h : TreeInv s) : TreeShape s where
  named := h.named
  parent_linked := h.parent_linked
  parent_directory := h.parent_directory
  rooted := h.rooted
  unique := fun i j hi hj hi0 hj0 hp hn =>
    h.siblings i j hi.1 hj.1 hi0 hj0 hi.2.1 hj.2.1 (h.named i hi hi0).1 hp hn

theorem TreeInv.linked_root {s : State} (h : TreeInv s) : Linked s 0 :=
  ⟨by decide, by simp [Vnode.used, h.root_directory], h.root_linked⟩

theorem TreeInv.parent_ne {s : State} (h : TreeInv s) {i t : Nat} (hi : Linked s i)
    (ht : ¬ Linked s t) (hi0 : i ≠ 0) : parentOf s i ≠ t :=
  fun heq => ht (heq ▸ h.parent_linked i hi hi0)

/-! ## Table changes that keep the tree -/

section Changes

variable {s : State} {i : Nat} {node : Vnode}

@[simp] theorem setNode_nodes_self : (s.setNode i node).nodes i = node := by
  simp [State.setNode]

theorem setNode_nodes_ne {j : Nat} (h : j ≠ i) : (s.setNode i node).nodes j = s.nodes j := by
  simp [State.setNode, h]

def SamePlace (a b : Vnode) : Prop :=
  a.type = b.type ∧ a.parent = b.parent ∧ a.name = b.name ∧ a.unlinked = b.unlinked

theorem TreeInv.of_samePlace {s s' : State} (h : TreeInv s)
    (hplace : ∀ i < maxNodes, SamePlace (s'.nodes i) (s.nodes i))
    (hcount : s'.nodeCount = s.nodeCount) : TreeInv s' := by
  have hroot := hplace 0 (by decide)
  have hused : ∀ i < maxNodes, (s'.nodes i).used = (s.nodes i).used :=
    fun i hi => by simp [Vnode.used, (hplace i hi).1]
  have hparent : ∀ i < maxNodes, parentOf s' i = parentOf s i := fun i hi => (hplace i hi).2.1
  have hname : ∀ i < maxNodes, (s'.nodes i).name = (s.nodes i).name :=
    fun i hi => (hplace i hi).2.2.1
  have hlinked : ∀ i, Linked s' i ↔ Linked s i := by
    intro i
    constructor
    · rintro ⟨hi, hu, hk⟩
      exact ⟨hi, hused i hi ▸ hu, (hplace i hi).2.2.2 ▸ hk⟩
    · rintro ⟨hi, hu, hk⟩
      exact ⟨hi, (hused i hi).trans hu, (hplace i hi).2.2.2.trans hk⟩
  constructor
  · exact hroot.1.trans h.root_directory
  · exact hroot.2.2.2.trans h.root_linked
  · exact hroot.2.1.trans h.root_parent
  · exact hcount ▸ h.count_le
  · intro i hi hu
    rw [hcount]
    exact h.counted i hi (hused i hi ▸ hu)
  · intro i hi hi0
    rw [hname i hi.1]
    exact h.named i ((hlinked i).mp hi) hi0
  · intro i hi hi0
    rw [hlinked, hparent i hi.1]
    exact h.parent_linked i ((hlinked i).mp hi) hi0
  · intro i hi hi0
    have hl := h.parent_linked i ((hlinked i).mp hi) hi0
    rw [hparent i hi.1, (hplace _ hl.1).1]
    exact h.parent_directory i ((hlinked i).mp hi) hi0
  · intro i hi
    exact (h.rooted i ((hlinked i).mp hi)).congr_on (Linked s)
      h.parent_linked (fun j hj _ => hparent j hj.1) ((hlinked i).mp hi)
  · intro i j hi hj hi0 hj0 hui huj hne hp hn
    rw [hused i hi] at hui
    rw [hused j hj] at huj
    rw [hname i hi] at hne hn
    rw [hname j hj] at hn
    rw [hparent i hi, hparent j hj] at hp
    exact h.siblings i j hi hj hi0 hj0 hui huj hne hp hn

theorem TreeInv.setNode_samePlace (h : TreeInv s) (hplace : SamePlace node (s.nodes i)) :
    TreeInv (s.setNode i node) := by
  refine h.of_samePlace (fun j _ => ?_) rfl
  by_cases hj : j = i
  · subst hj
    rw [setNode_nodes_self]
    exact hplace
  · rw [setNode_nodes_ne hj]
    exact ⟨rfl, rfl, rfl, rfl⟩

/-- Entry `i` changes: what it needs of its parent, what it owes to its children, and that no other
name gets in its way. -/
theorem TreeInv.change {s' : State} (h : TreeInv s) (hi0 : i ≠ 0)
    (hne : ∀ j ≠ i, s'.nodes j = s.nodes j)
    (hgrows : s.nodeCount ≤ s'.nodeCount) (hcount : s'.nodeCount ≤ maxNodes)
    (hcounted : i < maxNodes → (s'.nodes i).used → i < s'.nodeCount)
    (hchildren : ∀ j, Linked s j → j ≠ 0 → j ≠ i → parentOf s j = i →
      Linked s' i ∧ (s'.nodes i).type = .directory)
    (hentry : Linked s' i → ValidName (s'.nodes i).name ∧ Linked s' (parentOf s' i) ∧
      (s'.nodes (parentOf s' i)).type = .directory)
    (hrooted : ∀ j, Linked s' j → Rooted (parentOf s') 0 j)
    (hfresh : (s'.nodes i).used → (s'.nodes i).name ≠ [] → ∀ j < maxNodes, j ≠ 0 →
      j ≠ i → (s.nodes j).used → parentOf s j = parentOf s' i →
      (s.nodes j).name ≠ (s'.nodes i).name) : TreeInv s' := by
  have hparent : ∀ j ≠ i, parentOf s' j = parentOf s j := by
    intro j hj
    simp [parentOf, hne j hj]
  have hback : ∀ j ≠ i, Linked s' j → Linked s j := by
    intro j hj hl
    rwa [Linked, hne j hj] at hl
  have habove : ∀ j ≠ i, Linked s' j → j ≠ 0 →
      Linked s' (parentOf s' j) ∧ (s'.nodes (parentOf s' j)).type = .directory := by
    intro j hj hl hj0
    have hl := hback j hj hl
    rw [hparent j hj]
    by_cases hp : parentOf s j = i
    · rw [hp]
      exact hchildren j hl hj0 hj hp
    · rw [Linked, hne _ hp]
      exact ⟨h.parent_linked j hl hj0, h.parent_directory j hl hj0⟩
  constructor
  · rw [hne 0 hi0.symm]
    exact h.root_directory
  · rw [hne 0 hi0.symm]
    exact h.root_linked
  · rw [hparent 0 hi0.symm]
    exact h.root_parent
  · exact hcount
  · intro j hj hu
    by_cases hji : j = i
    · subst hji
      exact hcounted hj hu
    · rw [hne j hji] at hu
      exact Nat.lt_of_lt_of_le (h.counted j hj hu) hgrows
  · intro j hj hj0
    by_cases hji : j = i
    · subst hji
      exact (hentry hj).1
    · rw [hne j hji]
      exact h.named j (hback j hji hj) hj0
  · intro j hj hj0
    by_cases hji : j = i
    · subst hji
      exact (hentry hj).2.1
    · exact (habove j hji hj hj0).1
  · intro j hj hj0
    by_cases hji : j = i
    · subst hji
      exact (hentry hj).2.2
    · exact (habove j hji hj hj0).2
  · exact hrooted
  · intro j k hj hk hj0 hk0 huj huk hnej hp hn
    by_cases hji : j = i
    · by_cases hki : k = i
      · rw [hji, hki]
      subst hji
      rw [hne k hki] at huk hn
      rw [hparent k hki] at hp
      exact absurd hn.symm (hfresh huj hnej k hk hk0 hki huk hp.symm)
    by_cases hki : k = i
    · subst hki
      have hnek := hn ▸ hnej
      rw [hne j hji] at huj hn
      rw [hparent j hji] at hp
      exact absurd hn (hfresh huk hnek j hj hj0 hji huj hp)
    · rw [hne j hji] at huj hn hnej
      rw [hne k hki] at huk hn
      rw [hparent j hji, hparent k hki] at hp
      exact h.siblings j k hj hk hj0 hk0 huj huk hnej hp hn

theorem parentOf_setNode : parentOf (s.setNode i node) i = node.parent := by simp [parentOf]

theorem parentOf_setNode_ne {j : Nat} (h : j ≠ i) : parentOf (s.setNode i node) j = parentOf s j := by
  simp [parentOf, setNode_nodes_ne h]

theorem TreeInv.create (h : TreeInv s) {slot : Nat} (hslot : slot < maxNodes)
    (hfree : (s.nodes slot).used = false) (hname : ValidName node.name)
    (hparent : Linked s node.parent) (hdirectory : (s.nodes node.parent).type = .directory)
    (hfresh : ∀ j < maxNodes, j ≠ 0 → (s.nodes j).used →
      parentOf s j = node.parent → (s.nodes j).name ≠ node.name) :
    TreeInv (s.create slot node) := by
  have hnodes : (s.create slot node).nodes = (s.setNode slot node).nodes := rfl
  have hcount : (s.create slot node).nodeCount =
      if s.nodeCount ≤ slot then slot + 1 else s.nodeCount := rfl
  have hle := h.count_le
  have hnot : ¬ Linked s slot := fun hl => by simp [hl.2.1] at hfree
  have hlinked : ∀ j, Linked s j → j ≠ slot := fun j hj heq => hnot (heq ▸ hj)
  have hself : parentOf (s.create slot node) slot = node.parent := parentOf_setNode
  have hrooted : Rooted (parentOf (s.create slot node)) 0 node.parent :=
    (h.rooted _ hparent).congr_on (Linked s) h.parent_linked
      (fun j hj _ => parentOf_setNode_ne (hlinked j hj)) hparent
  refine h.change (hlinked 0 h.linked_root).symm (fun j hj => setNode_nodes_ne hj)
    ?_ ?_ ?_ ?_ ?_ ?_ ?_
  · rw [hcount]
    split <;> omega
  · rw [hcount]
    split <;> omega
  · rw [hcount]
    split <;> omega
  · intro j hj hj0 _ hp
    exact absurd hp (h.parent_ne hj hnot hj0)
  · intro _
    rw [hself, Linked, hnodes, setNode_nodes_self, setNode_nodes_ne (hlinked _ hparent)]
    exact ⟨hname, hparent, hdirectory⟩
  · intro j hj
    have hslotRooted : Rooted (parentOf (s.create slot node)) 0 slot := .step (hself ▸ hrooted)
    by_cases hjs : j = slot
    · exact hjs ▸ hslotRooted
    · rw [Linked, hnodes, setNode_nodes_ne hjs] at hj
      exact (h.rooted j hj).redirect (fun _ => parentOf_setNode_ne) hslotRooted
  · rw [hself, hnodes, setNode_nodes_self]
    exact fun _ _ j hj hj0 _ => hfresh j hj hj0

theorem TreeInv.unlink (h : TreeInv s) (hi0 : i ≠ 0)
    (hleaf : ∀ j, Linked s j → j ≠ 0 → parentOf s j ≠ i) (hname : node.name = [])
    (hgone : node.used = false ∨ node.unlinked)
    (hcount : node.used → (s.nodes i).used) : TreeInv (s.setNode i node) := by
  have hnot : ¬ Linked (s.setNode i node) i := by
    rw [Linked, setNode_nodes_self]
    rintro ⟨-, hu, hk⟩
    rcases hgone with hg | hg
    · simp [hg] at hu
    · simp [hg] at hk
  refine h.change hi0 (fun j hj => setNode_nodes_ne hj) le_rfl h.count_le ?_ ?_ ?_ ?_ ?_
  · intro hi hu
    rw [setNode_nodes_self] at hu
    exact h.counted i hi (hcount hu)
  · intro j hj hj0 _ hp
    exact absurd hp (hleaf j hj hj0)
  · exact fun hl => absurd hl hnot
  · intro j hj
    have hji : j ≠ i := fun heq => hnot (heq ▸ hj)
    rw [Linked, setNode_nodes_ne hji] at hj
    -- chains of linked nodes other than `i` never pass through `i`
    refine (h.rooted j hj).congr_on (fun k => Linked s k ∧ k ≠ i) ?_ ?_ ⟨hj, hji⟩
    · intro k hk hk0
      exact ⟨h.parent_linked k hk.1 hk0, hleaf k hk.1 hk0⟩
    · intro k hk _
      exact parentOf_setNode_ne hk.2
  · intro _ hnamed
    rw [setNode_nodes_self] at hnamed
    exact absurd hname hnamed

theorem TreeInv.move (h : TreeInv s) (hi0 : i ≠ 0) (hname : ValidName node.name)
    (htype : node.type = (s.nodes i).type) (hunlinked : node.unlinked = (s.nodes i).unlinked)
    (hparent : Linked s node.parent) (hdirectory : (s.nodes node.parent).type = .directory)
    (hrooted : Rooted (parentOf (s.setNode i node)) 0 node.parent)
    (hfresh : ∀ j < maxNodes, j ≠ 0 → j ≠ i → (s.nodes j).used →
      parentOf s j = node.parent → (s.nodes j).name ≠ node.name) :
    TreeInv (s.setNode i node) := by
  have hused : node.used = (s.nodes i).used := by simp [Vnode.used, htype]
  have hplaces : ∀ j, ((s.setNode i node).nodes j).type = (s.nodes j).type ∧
      (Linked (s.setNode i node) j ↔ Linked s j) := by
    intro j
    by_cases hji : j = i
    · subst hji
      simp [Linked, htype, hused, hunlinked]
    · simp [Linked, setNode_nodes_ne hji]
  refine h.change hi0 (fun j hj => setNode_nodes_ne hj) le_rfl h.count_le ?_ ?_ ?_ ?_ ?_
  · intro hi hu
    rw [setNode_nodes_self, hused] at hu
    exact h.counted i hi hu
  · rintro j hj hj0 - rfl
    rw [(hplaces _).2, (hplaces _).1]
    exact ⟨h.parent_linked j hj hj0, h.parent_directory j hj hj0⟩
  · intro _
    rw [setNode_nodes_self, parentOf_setNode, (hplaces _).2, (hplaces _).1]
    exact ⟨hname, hparent, hdirectory⟩
  · intro j hj
    refine (h.rooted j ((hplaces j).2.mp hj)).redirect (fun _ => parentOf_setNode_ne) (.step ?_)
    rw [parentOf_setNode]
    exact hrooted
  · rw [setNode_nodes_self, parentOf_setNode]
    exact fun _ _ => hfresh

end Changes

end XsCore.Vfs
