import XsCore.Vfs.TreeHistory

/-!
# Node ids of process entries

The directory and the status file of a process have no table entry: their ids are sums of the
process id and a base, in the number space of the table's own slots.
-/

namespace XsCore.Vfs

def pidDirectoryId (pid : Nat) : Nat := (procPidBase + pid % 2 ^ 32) % 2 ^ 32

def pidStatusId (pid : Nat) : Nat := pidDirectoryId pid + 0x1000

def pidStatusPath (pid : Nat) : Name :=
  procPath ('/' :: Nat.toDigits 10 pid ++ ['/', 's', 't', 'a', 't', 'u', 's'])

/-- The process whose status `xscore_vfs_open_at` generates for a node id: directories come first. -/
def openedStatus (p : Procfs) (target : Nat) : Option Nat :=
  if isProcDirectory p target then none
  else if p.installed ∧ inStatusRange target then some (target - (procPidBase + 0x1000))
  else none

/-- The table indices `xscore_vfs_open_at` forms from a node id; the permission check of a file
takes the entry's address without a look at the bound. -/
def openIndices (p : Procfs) (target : Nat) : List Nat :=
  if isProcDirectory p target then [] else [target]

def Caller.Live (caller : Caller) (pid : Nat) : Prop := 0 < pid ∧ caller.visiblePid pid = true

/-- The ids of process entries stand for themselves. -/
structure ProcessFiles (s : State) (caller : Caller) : Prop where
  apart : ∀ pid, caller.Live pid → ∀ i, i < maxNodes → (s.nodes i).used = true →
    i ≠ pidDirectoryId pid ∧ i ≠ pidStatusId pid
  distinct : ∀ pid other, caller.Live pid → caller.Live other → pid ≠ other →
    pidDirectoryId pid ≠ pidDirectoryId other ∧ pidStatusId pid ≠ pidStatusId other
  status : ∀ pid, caller.Live pid → ∃ target,
    resolvePathAt s caller 0 (pidStatusPath pid) = .ok target ∧
      openedStatus s.procfs target = some pid
  indexed : ∀ pid target, caller.Live pid →
    resolvePathAt s caller 0 (pidStatusPath pid) = .ok target →
      ∀ i ∈ openIndices s.procfs target, i < maxNodes

theorem openedStatus_index {p : Procfs} {target pid : Nat} (h : openedStatus p target = some pid) :
    target ∈ openIndices p target ∧ maxNodes ≤ target := by
  unfold openedStatus at h
  split at h
  · cases h
  next hplain =>
  split at h
  · next hrange =>
    have hstart : procPidBase + 0x1000 ≤ target := by
      simpa using (Bool.and_eq_true_iff.mp hrange.2).1
    exact ⟨by simp [openIndices, hplain], hstart⟩
  · cases h

/-- One live process is enough to take an index past the table. -/
theorem process_files_iff (s : State) (caller : Caller) :
    ProcessFiles s caller ↔ ∀ pid, ¬ caller.Live pid := by
  constructor
  · intro h pid hlive
    obtain ⟨target, hresolved, hopened⟩ := h.status pid hlive
    have hindex := openedStatus_index hopened
    have hinside := h.indexed pid target hlive hresolved target hindex.1
    omega
  · intro hnone
    exact
      { apart := fun pid hlive => absurd hlive (hnone pid)
        distinct := fun pid _ hlive => absurd hlive (hnone pid)
        status := fun pid hlive => absurd hlive (hnone pid)
        indexed := fun pid _ hlive => absurd hlive (hnone pid) }

def twoProcesses : Caller := { superuser with visiblePid := fun pid => pid = 1 ∨ pid = 1000 }

/-- The status of process 1 opens past the table; that of process 1000 is not found, because the
ids of directories stop at 999. -/
theorem process_files_broken :
    resolvePathAt bareTree twoProcesses 0 (pidStatusPath 1) = .ok maxNodes.succ ∧
      maxNodes.succ ∈ openIndices bareTree.procfs maxNodes.succ ∧
      resolvePathAt bareTree twoProcesses 0 (pidStatusPath 1000) = .error .enotdir ∧
      ¬ ProcessFiles bareTree twoProcesses := by
  have hfirst : resolvePathAt bareTree twoProcesses 0 (pidStatusPath 1) = .ok maxNodes.succ := by
    decide +kernel
  have hindex : maxNodes.succ ∈ openIndices bareTree.procfs maxNodes.succ := by decide +kernel
  have hlive : twoProcesses.Live 1 := ⟨by decide, by decide⟩
  constructor
  · exact hfirst
  constructor
  · exact hindex
  constructor
  · decide +kernel
  · intro h
    exact absurd (h.indexed 1 _ hlive hfirst _ hindex) (by decide)

end XsCore.Vfs
