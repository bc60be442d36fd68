import XsCore.Vfs.Permission

/-!
# A failed open

`xscore_vfs_open_at` creates or truncates the file before it checks what it created, commits the
tree and asks for a descriptor.
-/

namespace XsCore.Vfs

/-- What an open meets outside the tree. -/
structure OpenRest where
  /-- The commit of a changed tree succeeds, or none is due. -/
  committed : Bool
  /-- The text of a generated file is made and stored. -/
  generated : Bool
  /-- A description and a descriptor are free. -/
  room : Bool

/-- `xscore_fd_open_vnode`, and `xscore_fd_open_directory` for an id of the table. -/
def fdOpenNode (s : State) (target : Nat) (room : Bool) : Result Unit :=
  match nodeAcquire s target with
  | (s, false) => (s, .error .enoent)
  | (s, true) => if room then (s, .ok ()) else (nodeRelease s target, .error .enfile)

def fdOpenDirectory (s : State) (target : Nat) (room : Bool) : Result Unit :=
  if target < maxNodes then fdOpenNode s target room
  else (s, if room then .ok () else .error .enfile)

def opensDirectory (p : Procfs) (target : Nat) (node : Vnode) : Bool :=
  isProcDirectory p target || (target < maxNodes && node.type = .directory)

/-- The descriptor half of `xscore_vfs_open_at`. -/
def openFinish (s : State) (target : Nat) (flags : UInt64) (changed : Bool) (rest : OpenRest) :
    Result Unit :=
  if opensDirectory s.procfs target (s.nodes target) then fdOpenDirectory s target rest.room
  else if isGenerated s.procfs target then
    (s, if flags &&& 3 ≠ 0 then .error .eacces
      else if rest.generated then .ok () else .error .enfile)
  else if changed && !rest.committed then (s, .error .eio)
  else fdOpenNode s target rest.room

def vfsOpenAt (s : State) (caller : Caller) (cwd : Nat) (path : Name) (flags : UInt64)
    (mode : UInt32) (rest : OpenRest) : Result Unit :=
  match openAt s caller cwd path flags mode with
  | (s', .error e) => (s', .error e)
  | (s', .ok target) =>
      let created := match resolvePathAt s caller cwd path with
        | .ok _ => false
        | .error _ => true
      openFinish s' target flags (created || flags &&& oTrunc ≠ 0) rest

/-- A call that fails has changed neither a node, its content and its count of references, nor the
rest of the table. -/
def NoTrace (s : State) (out : Result Unit) : Prop := ∀ e, out.2 = .error e → out.1 = s

/-! ## The condition -/

section Conditions

variable (p : Procfs) (caller : Caller) (target : Nat) (node : Vnode) (flags : UInt64)
  (changed : Bool) (rest : OpenRest)

def openCheck : Option Errno :=
  if isProcDirectory p target then if opensForWrite flags then some .eisdir else none
  else if target < maxNodes ∧ node.type = .directory then
    if opensForWrite flags then some .eisdir
    else if !nodeAllows node caller 4 then some .eacces else none
  else if target < maxNodes ∧ node.type = .character then some .enodev
  else if !nodeAllows node caller (requestedAccess flags) then some .eacces
  else if opensForWrite flags ∧ node.mode &&& modeWrite = 0 ∧ ¬ node.isDynamic then some .erofs
  else none

def emptied : Bool :=
  flags &&& oTrunc ≠ 0 && !opensDirectory p target node && !isGenerated p target

def acquires : Bool :=
  target < maxNodes ∧ node.used ∧ (¬ node.unlinked ∨ node.references ≠ 0)

def finishes : Bool :=
  if opensDirectory p target node then (maxNodes ≤ target || acquires target node) && rest.room
  else if isGenerated p target then flags &&& 3 = 0 && rest.generated
  else !(changed && !rest.committed) && acquires target node && rest.room

/-- The reference is taken when the counter is at its top, and given back. -/
def wraps : Bool :=
  acquires target node && node.references = 0xffffffff && !rest.room &&
    (opensDirectory p target node || !isGenerated p target && !(changed && !rest.committed))

end Conditions

/-- The checks before a file is created; where it goes, its name and its slot. -/
def createCheck (s : State) (caller : Caller) (cwd : Nat) (path : Name) (flags : UInt64) :
    Except Errno (Nat × Name × Nat) :=
  if flags &&& oCreat = 0 then .error .enoent
  else
    match splitParent s caller cwd path with
    | .error e => .error e
    | .ok (parent, name) =>
        if procPidBase ≤ parent ∨
            (s.procfs.installed ∧ (parent = s.procfs.root ∨ parent = s.procfs.self)) then
          .error .erofs
        else if (s.nodes parent).type ≠ .directory then .error .enotdir
        else if !nodeAllows (s.nodes parent) caller 3 then .error .eacces
        else
          match freeSlot s 0 with
          | none => .error .enfile
          | some slot => .ok (parent, name, slot)

/-- Whatever the open changes, nothing fails afterwards. -/
def Settles (s : State) (caller : Caller) (cwd : Nat) (path : Name) (flags : UInt64)
    (mode : UInt32) (rest : OpenRest) : Prop :=
  path ≠ [] → match resolvePathAt s caller cwd path with
  | .ok target =>
      let node := s.nodes target
      let changed : Bool := flags &&& oTrunc ≠ 0
      openCheck s.procfs caller target node flags = none →
        finishes s.procfs target node flags changed rest = false →
          wraps s.procfs target node changed rest = false ∧
            (emptied s.procfs target node flags = true → openTruncate node = node)
  | .error _ => ∀ parent name slot,
      createCheck s caller cwd path flags = .ok (parent, name, slot) →
      let node := freshNode .regular parent name (modeRegular ||| (mode &&& 0o777)) caller.uid
        caller.gid
      openCheck s.procfs caller slot node flags = none ∧
        finishes s.procfs slot node flags true rest = true

/-! ## The descriptor half -/

def Ends (s : State) (target : Nat) (good wrapped : Bool) (out : Result Unit) : Prop :=
  (good = true → out.2 = .ok ()) ∧ (good = false → (∃ e, out.2 = .error e) ∧
    (wrapped = true → (out.1.nodes target).references = 0) ∧ (wrapped = false → out.1 = s))

variable {s : State} {caller : Caller} {target : Nat} {flags : UInt64} {rest : OpenRest}

/-- A reference that is given back leaves nothing, unless the counter was at its top. -/
theorem nodeRelease_acquired (h : acquires target (s.nodes target)) :
    let after := nodeRelease (s.setNode target
      { s.nodes target with references := (s.nodes target).references + 1 }) target
    ((s.nodes target).references = 0xffffffff → (after.nodes target).references = 0) ∧
      ((s.nodes target).references ≠ 0xffffffff → after = s) := by
  have hnode := of_decide_eq_true h
  simp only [nodeRelease, if_neg (Nat.not_le.mpr hnode.1), setNode_nodes_self]
  constructor
  · intro htop
    rw [htop, if_neg (by decide), resetUnlinked]
    split <;> rfl
  · intro hlow
    have hcount : 0 < (s.nodes target).references + 1 := by
      rw [UInt32.lt_iff_toNat_lt, UInt32.toNat_add]
      have hne : (s.nodes target).references.toNat ≠ 0xffffffff := fun heq =>
        hlow (UInt32.toNat_inj.mp heq)
      have hlt := (s.nodes target).references.toNat_lt
      simp only [UInt32.toNat_zero, UInt32.toNat_one]
      omega
    have hkept : resetUnlinked (s.nodes target) = s.nodes target := by
      apply if_pos
      exact hnode.2.2
    rw [if_pos hcount, UInt32.add_sub_cancel, hkept, State.setNode, State.setNode]
    rw [Function.update_idem, Function.update_eq_self]

theorem fdOpenNode_ends (s : State) (target : Nat) (room : Bool) :
    Ends s target (acquires target (s.nodes target) && room)
      (acquires target (s.nodes target) && (s.nodes target).references = 0xffffffff && !room)
      (fdOpenNode s target room) := by
  unfold fdOpenNode nodeAcquire
  cases hacquires : acquires target (s.nodes target) with
  | true =>
    have hrelease := nodeRelease_acquired hacquires
    have hnode := of_decide_eq_true hacquires
    rw [if_neg (Nat.not_le.mpr hnode.1)]
    rw [if_pos hnode.2]
    cases room with
    | true => simp [Ends]
    | false => simpa [Ends] using hrelease
  | false =>
    have hnode := of_decide_eq_false hacquires
    by_cases hbound : maxNodes ≤ target
    · rw [if_pos hbound]
      simp [Ends]
    rw [if_neg hbound]
    rw [if_neg fun h => hnode ⟨Nat.lt_of_not_le hbound, h⟩]
    simp [Ends]

theorem openFinish_ends (s : State) (target : Nat) (flags : UInt64) (changed : Bool)
    (rest : OpenRest) : Ends s target (finishes s.procfs target (s.nodes target) flags changed rest)
      (wraps s.procfs target (s.nodes target) changed rest)
      (openFinish s target flags changed rest) := by
  have hnode := fdOpenNode_ends s target rest.room
  unfold openFinish finishes wraps
  cases hdirectory : opensDirectory s.procfs target (s.nodes target) with
  | true =>
    simp only [if_true, Bool.true_or, Bool.and_true]
    unfold fdOpenDirectory
    by_cases hbound : target < maxNodes
    · simp only [if_pos hbound, Nat.not_le.mpr hbound, decide_false, Bool.false_or]
      exact hnode
    have hout : acquires target (s.nodes target) = false := by simp [acquires, hbound]
    rw [if_neg hbound, hout]
    cases rest.room <;> simp [Ends, Nat.not_lt.mp hbound]
  | false =>
    cases hgenerated : isGenerated s.procfs target with
    | true =>
      by_cases hread : flags &&& 3 = 0 <;> cases hmade : rest.generated <;>
        simp [Ends, hread]
    | false =>
      cases hsync : changed && !rest.committed with
      | true => simp [Ends]
      | false => simpa using hnode

/-! ## The tree half -/

theorem openTarget_eq (s : State) (caller : Caller) (target : Nat) (flags : UInt64) :
    openTarget s caller target flags =
      match openCheck s.procfs caller target (s.nodes target) flags with
      | some e => (s, .error e)
      | none =>
          (if emptied s.procfs target (s.nodes target) flags then
            s.setNode target (openTruncate (s.nodes target)) else s, .ok target) := by
  unfold openTarget openCheck emptied opensDirectory
  dsimp only
  rcases hproc : isProcDirectory s.procfs target with _ | _
  swap
  · cases opensForWrite flags <;> simp
  by_cases hdirectory : target < maxNodes ∧ (s.nodes target).type = .directory
  · cases opensForWrite flags <;> cases nodeAllows (s.nodes target) caller 4 <;>
      simp [hdirectory.1, hdirectory.2]
  have hplain : (decide (target < maxNodes) && decide ((s.nodes target).type = .directory)) =
      false := by simpa using hdirectory
  simp only [if_neg hdirectory, hplain, Bool.false_or, Bool.not_false, Bool.and_true]
  split_ifs <;> first | rfl | simp_all

theorem openCreate_eq (s : State) (caller : Caller) (cwd : Nat) (path : Name) (flags : UInt64)
    (mode : UInt32) : openCreate s caller cwd path flags mode =
      match createCheck s caller cwd path flags with
      | .error e => (s, .error e)
      | .ok (parent, name, slot) =>
          (s.create slot (freshNode .regular parent name (modeRegular ||| (mode &&& 0o777))
            caller.uid caller.gid), .ok slot) := by
  unfold openCreate createCheck createIn
  split
  · rfl
  rcases splitParent s caller cwd path with e | ⟨parent, name⟩
  · rfl
  dsimp only
  split_ifs
  · rfl
  · rfl
  · rfl
  · cases freeSlot s 0 <;> rfl

theorem setNode_eq_self_iff (s : State) (target : Nat) (node : Vnode) :
    s.setNode target node = s ↔ node = s.nodes target := by
  constructor
  · intro h
    rw [← congrArg (·.nodes target) h]
    exact setNode_nodes_self.symm
  · intro h
    rw [h, State.setNode, Function.update_eq_self]

/-- A failure of the descriptor half leaves the tree half's changes, and a count that wrapped. -/
theorem noTrace_finish {s' : State} (changed : Bool)
    (hcount : (s'.nodes target).references = 0xffffffff →
      (s.nodes target).references = 0xffffffff) :
    NoTrace s (openFinish s' target flags changed rest) ↔
      (finishes s'.procfs target (s'.nodes target) flags changed rest = false →
        wraps s'.procfs target (s'.nodes target) changed rest = false ∧ s' = s) := by
  have hends := openFinish_ends s' target flags changed rest
  constructor
  · intro htrace hbad
    obtain ⟨⟨e, herror⟩, hwrapped, hplain⟩ := hends.2 hbad
    rw [htrace e herror] at hwrapped hplain
    cases hwraps : wraps s'.procfs target (s'.nodes target) changed rest with
    | true =>
      have htop : (s'.nodes target).references = 0xffffffff := by
        simp only [wraps, Bool.and_eq_true, decide_eq_true_eq] at hwraps
        exact hwraps.1.1.2
      exact absurd ((hwrapped hwraps).symm.trans (hcount htop)) (by decide)
    | false => exact ⟨rfl, (hplain hwraps).symm⟩
  · intro hcondition e herror
    cases hfinishes : finishes s'.procfs target (s'.nodes target) flags changed rest with
    | true =>
      rw [hends.1 hfinishes] at herror
      cases herror
    | false =>
      obtain ⟨hlow, hsame⟩ := hcondition hfinishes
      exact ((hends.2 hfinishes).2.2 hlow).trans hsame

theorem noTrace_resolved (s : State) (target : Nat) (flags : UInt64) (changed : Bool)
    (rest : OpenRest) :
    NoTrace s (openFinish (if emptied s.procfs target (s.nodes target) flags then
        s.setNode target (openTruncate (s.nodes target)) else s) target flags changed rest) ↔
      (finishes s.procfs target (s.nodes target) flags changed rest = false →
        wraps s.procfs target (s.nodes target) changed rest = false ∧
          (emptied s.procfs target (s.nodes target) flags →
            openTruncate (s.nodes target) = s.nodes target)) := by
  split
  · next hemptied =>
    rw [noTrace_finish changed (by rw [setNode_nodes_self]; exact id), setNode_nodes_self,
      setNode_eq_self_iff]
    simp only [hemptied, forall_const]
    exact Iff.rfl
  · next hkept =>
    rw [noTrace_finish changed id]
    simp [hkept]

/-- A file that was created just now: any failure leaves it behind. -/
theorem noTrace_created (caller : Caller) (flags : UInt64) (rest : OpenRest) {slot : Nat}
    (node : Vnode) (hfree : (s.nodes slot).used = false) (hnew : node.used)
    (hempty : openTruncate node = node) (hcount : node.references = 0) :
    NoTrace s (match openTarget (s.create slot node) caller slot flags with
      | (s', .error e) => (s', .error e)
      | (s', .ok target) => openFinish s' target flags true rest) ↔
      openCheck s.procfs caller slot node flags = none ∧
        finishes s.procfs slot node flags true rest := by
  have hslot : (s.create slot node).nodes slot = node := by simp [State.create]
  have hmoved : s.create slot node ≠ s := by
    intro h
    rw [h] at hslot
    rw [hslot, hnew] at hfree
    cases hfree
  have hprocfs : (s.create slot node).procfs = s.procfs := rfl
  rw [openTarget_eq, hslot, hprocfs]
  cases hcheck : openCheck s.procfs caller slot node flags with
  | some e => exact iff_of_false (fun htrace => hmoved (htrace e rfl)) (by simp)
  | none =>
    have hkept : (s.create slot node).setNode slot (openTruncate node) = s.create slot node :=
      (setNode_eq_self_iff _ _ _).mpr (hempty.trans hslot.symm)
    rw [hkept, ite_self]
    rw [noTrace_finish true (by rw [hslot, hcount]; exact fun h => absurd h (by decide)), hslot]
    simp [hmoved, hprocfs]

theorem createCheck_free {cwd parent slot : Nat} {path name : Name}
    (h : createCheck s caller cwd path flags = .ok (parent, name, slot)) :
    (s.nodes slot).used = false := by
  unfold createCheck at h
  repeat' split at h
  all_goals cases h
  next hfree => exact (freeSlot_some hfree).2.2

/-- A failed open leaves everything as it was exactly when nothing can fail after the tree was
changed. -/
theorem failed_open_iff (s : State) (caller : Caller) (cwd : Nat) (path : Name) (flags : UInt64)
    (mode : UInt32) (rest : OpenRest) : NoTrace s (vfsOpenAt s caller cwd path flags mode rest) ↔
      Settles s caller cwd path flags mode rest := by
  unfold vfsOpenAt openAt Settles
  split_ifs with hpath
  · exact iff_of_true (fun _ _ => rfl) (absurd hpath)
  simp only [ne_eq, hpath, not_false_eq_true, forall_const]
  cases hresolve : resolvePathAt s caller cwd path with
  | ok target =>
    dsimp only
    rw [openTarget_eq]
    cases hcheck : openCheck s.procfs caller target (s.nodes target) flags with
    | some e => exact iff_of_true (fun _ _ => rfl) fun h => by cases h
    | none =>
      simp only [Bool.false_or, forall_const]
      exact noTrace_resolved s target flags _ rest
  | error e =>
    rw [openCreate_eq]
    rcases hcheck : createCheck s caller cwd path flags with e | place
    · exact iff_of_true (fun _ _ => rfl) fun _ _ _ h => by cases h
    obtain ⟨parent, name, slot⟩ := place
    have hcreated := noTrace_created caller flags rest (freshNode .regular parent name
      (modeRegular ||| (mode &&& 0o777)) caller.uid caller.gid) (createCheck_free hcheck)
      rfl rfl rfl
    constructor
    · intro htrace parent name slot hplace
      cases hplace
      exact hcreated.mp htrace
    · intro hsettles
      exact hcreated.mpr (hsettles parent name slot rfl)

/-- A user creates a file that its mode does not let it open: the call fails, the file stays. -/
theorem failed_open_leaves_file :
    (vfsOpenAt bareTree ordinaryUser 0 pathA (oCreat ||| oRdwr) 0 ⟨true, true, true⟩).2 =
        .error .eacces ∧
      ¬ NoTrace bareTree
        (vfsOpenAt bareTree ordinaryUser 0 pathA (oCreat ||| oRdwr) 0 ⟨true, true, true⟩) := by
  have hfails : (vfsOpenAt bareTree ordinaryUser 0 pathA (oCreat ||| oRdwr) 0
      ⟨true, true, true⟩).2 = .error .eacces := by decide +kernel
  have hleft : ((vfsOpenAt bareTree ordinaryUser 0 pathA (oCreat ||| oRdwr) 0
      ⟨true, true, true⟩).1.nodes 39).type ≠ (bareTree.nodes 39).type := by decide +kernel
  constructor
  · exact hfails
  · intro htrace
    rw [htrace _ hfails] at hleft
    exact hleft rfl

end XsCore.Vfs
