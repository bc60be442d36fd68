import XsCore.Vfs.Ops

/-!
# What table scans and path resolution find

Each scan of the table has one lemma for a hit and one for a miss.  Resolving a
path is resolving its parent path and then looking up the last name
(`resolvePathAt_split`), and a failed last lookup in a directory that is searched
in the table means that the table has no such entry (`walkStep_error`).
-/

namespace XsCore.Vfs

open List

variable {i current : Nat} {comp : Name}

/-! ## Scans and permissions -/

variable {name : Name} {parent : Nat} {s : State} {caller : Caller} {e : Errno}

theorem findChild_some {child : Nat} (h : findChild s parent name = some child) :
    0 < child ∧ child < s.nodeCount ∧ (s.nodes child).used ∧
      (s.nodes child).parent = parent ∧ (s.nodes child).name = name := by
  have hmem := mem_of_find?_eq_some h
  have hp := List.find?_some h
  rw [mem_range'_1] at hmem
  simp only [Bool.and_eq_true, decide_eq_true_eq] at hp
  exact ⟨by omega, by omega, hp.1.1, hp.1.2, hp.2⟩

theorem findChild_none (h : findChild s parent name = none) (hpos : 0 < i) (hi : i < s.nodeCount)
    (hused : (s.nodes i).used) (hparent : (s.nodes i).parent = parent) :
    (s.nodes i).name ≠ name := by
  intro hname
  have hnot := List.find?_eq_none.mp h i (mem_range'_1.mpr (by omega))
  simp [hused, hparent, hname] at hnot

theorem hasChildren_false {directory : Nat} (h : ¬ hasChildren s directory) (hpos : 0 < i)
    (hi : i < s.nodeCount) (hused : (s.nodes i).used) : (s.nodes i).parent ≠ directory := by
  intro hparent
  apply h
  exact any_eq_true.mpr
    ⟨i, mem_range'_1.mpr (by omega), by simp [hused, hparent]⟩

theorem freeSlot_some {first slot : Nat} (h : freeSlot s first = some slot) :
    first ≤ slot ∧ slot < maxNodes ∧ (s.nodes slot).used = false := by
  have hmem := mem_of_find?_eq_some h
  have hp := List.find?_some h
  rw [mem_range'_1] at hmem
  exact ⟨hmem.1, by omega, by simpa using hp⟩

theorem nodeAllows_search {node : Vnode} (h : nodeAllows node caller 3) :
    nodeAllows node caller 1 := by
  unfold nodeAllows at h ⊢
  split
  · rfl
  rename_i huid
  rw [if_neg huid] at h
  simp only [decide_eq_true_eq] at h ⊢
  generalize node.mode >>> _ = bits at h ⊢
  calc bits &&& 1 = bits &&& 3 &&& 1 := by rw [UInt32.and_assoc]; rfl
    _ = 3 &&& 1 := by rw [h]
    _ = 1 := rfl

/-! ## Resolution -/

theorem walk_append (s : State) (caller : Caller) (current : Nat) (before : List Name)
    (comp : Name) :
    walk s caller current (before ++ [comp]) =
      match walk s caller current before with
      | .ok next => walkStep s caller next comp
      | .error e => .error e := by
  induction before generalizing current with
  | nil =>
    simp only [nil_append, walk]
    cases walkStep s caller current comp <;> rfl
  | cons first before ih =>
    simp only [cons_append, walk]
    cases walkStep s caller current first with
    | error e => rfl
    | ok next => exact ih next

theorem walk_dot (s : State) (caller : Caller) (current : Nat) :
    walk s caller current [[dot]] = .ok current := by
  simp [walk, walkStep, nameMax]

theorem components_dot : components [dot] = [[dot]] := by decide

theorem resolvePathAt_split {cwd : Nat} {path parentPath : Name}
    (hsplit : Split path parentPath name) (hname : name ≠ [])
    (hparent : resolvePathAt s caller cwd parentPath = .ok parent) :
    resolvePathAt s caller cwd path = walkStep s caller parent name := by
  have hstart : startNode s cwd path = startNode s cwd parentPath := by
    unfold startNode
    simp only [hsplit.absolute]
  unfold resolvePathAt at hparent ⊢
  rw [if_neg hsplit.parent_ne] at hparent
  rw [if_neg hsplit.path_ne, hstart]
  rcases hsplit.last hname with ⟨hdot, hcomp⟩ | hcomp
  · rw [hdot, components_dot, walk_dot, Except.ok.injEq] at hparent
    rw [hcomp, hdot, ← nil_append [name], walk_append, hparent]
    rfl
  · rw [hcomp, walk_append, hparent]

/-- A directory whose entries resolution does not look up in the table, because
its slot carries one of the procfs ids that answer by themselves. -/
def Opaque (s : State) (id : Nat) : Prop :=
  s.procfs.installed = true ∧
    (inPidRange id = true ∨ id = s.procfs.self ∨ id = s.procfs.selfStatus ∨
      id = s.procfs.processes ∨ id = s.procfs.mounts ∨ inStatusRange id = true)

instance (s : State) (id : Nat) : Decidable (Opaque s id) := inferInstanceAs (Decidable (_ ∧ _))

theorem tableChild_error (h : tableChild s current comp = .error e) :
    findChild s current comp = none := by
  unfold tableChild at h
  split at h
  · cases h
  · assumption

theorem namedChild_error {names : List (Name × Nat)}
    (h : namedChild s names current comp = .error e) : findChild s current comp = none := by
  unfold namedChild at h
  split at h
  · cases h
  · exact tableChild_error h

theorem procPidChild_error (h : procPidChild s caller current comp = .error e) :
    findChild s current comp = none := by
  unfold procPidChild at h
  split at h
  · split at h
    · cases h
    · exact tableChild_error h
  · exact tableChild_error h

/-- A name that fails to resolve in a directory that may be searched is proper,
and the table has no such entry. -/
theorem walkStep_error (hfits : name.length ≤ nameMax) (hidden : ¬ Opaque s parent)
    (hdirectory : (s.nodes parent).type = .directory)
    (hallows : nodeAllows (s.nodes parent) caller 3)
    (h : walkStep s caller parent name = .error e) :
    name ≠ [dot] ∧ name ≠ [dot, dot] ∧ findChild s parent name = none := by
  unfold walkStep at h
  rw [if_neg (by omega)] at h
  by_cases hd : name = [dot]
  · rw [if_pos hd] at h
    cases h
  rw [if_neg hd] at h
  by_cases hdd : name = [dot, dot]
  · rw [if_pos hdd] at h
    split at h
    · cases h
    · split at h <;> cases h
  rw [if_neg hdd] at h
  refine ⟨hd, hdd, ?_⟩
  split at h
  · split at h
    · cases h
    · exact procPidChild_error h
  split at h
  · exact namedChild_error h
  split at h
  · exact namedChild_error h
  split at h
  · exact namedChild_error h
  split at h
  · rename_i hpid
    exact absurd ⟨hpid.1, Or.inl hpid.2⟩ hidden
  split at h
  · rename_i hself
    exact absurd ⟨hself.1, Or.inr (Or.inl hself.2)⟩ hidden
  split at h
  · rename_i hfile
    exact absurd ⟨hfile.1, Or.inr (Or.inr hfile.2)⟩ hidden
  rw [if_neg (by simp [hdirectory]), nodeAllows_search hallows] at h
  exact tableChild_error h

end XsCore.Vfs
