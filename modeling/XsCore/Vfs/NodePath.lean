import XsCore.Vfs.ProcEntries

/-!
# The path of a node

`xscore_vfs_build_node_path` climbs from a node to the root and writes the names on the way down.
Resolution answers some names from procfs before it looks at the table, so a node below a
generated directory can have a path that leads elsewhere.
-/

namespace XsCore.Vfs

open List Option

variable {names : List Name} {current : Nat} {comp : Name}

def pathMax : Nat := 127

/-- The climb to the root, in an array of so many places. -/
def nodeChain (s : State) : Nat → Nat → Option (List Nat)
  | 0, current => if current = 0 then some [] else none
  | room + 1, current =>
      if current = 0 then some []
      else if s.nodeCount ≤ current ∨ maxNodes ≤ current ∨ (s.nodes current).used = false then none
      else (nodeChain s room (s.nodes current).parent).map (current :: ·)

def writeNames (capacity : Nat) : List Name → Name → Option Name
  | [], path => some path
  | name :: rest, path =>
      let separator := if rest = [] then [] else [slash]
      if capacity ≤ path.length + name.length + separator.length then none
      else writeNames capacity rest (path ++ name ++ separator)

def buildNodePath (s : State) (id capacity : Nat) : Option Name :=
  if capacity < 2 then none
  else if inPidRange id then
    let path := procPath ('/' :: Nat.toDigits 10 (id - procPidBase))
    if capacity ≤ path.length then none else some path
  else if inStatusRange id then
    let path := pidStatusPath (id - (procPidBase + 0x1000))
    if capacity ≤ path.length then none else some path
  else
    match nodeChain s ((pathMax + 1) / 2) id with
    | none => none
    | some chain => writeNames capacity (chain.reverse.map fun j => (s.nodes j).name) [slash]

/-! ## The property and its condition -/

def absolute (names : List Name) : Name :=
  if names = [] then [slash] else names.flatMap (slash :: ·)

/-- The path that leads to a node by the parents and the names of the table. -/
def AbsolutePath (s : State) (i : Nat) (path : Name) : Prop :=
  ∃ room chain, nodeChain s room i = some chain ∧
    path = absolute (chain.reverse.map fun j => (s.nodes j).name)

/-- The node's path is built, and leads back to it from every directory. -/
def PathInverse (s : State) (caller : Caller) (i : Nat) : Prop :=
  ∃ path, AbsolutePath s i path ∧ (path.length ≤ pathMax →
    buildNodePath s i (pathMax + 1) = some path ∧
      ∀ cwd, resolvePathAt s caller cwd path = .ok i)

/-- What procfs answers in place of the table: an id, or that there is none. -/
def procAnswer (s : State) (caller : Caller) (current : Nat) (comp : Name) : Option (Option Nat) :=
  let p := s.procfs
  if ¬ p.installed then none
  else if current = p.root then
    match (procRootNames p).lookup comp, pidOf comp with
    | some id, _ => some (some id)
    | none, some pid =>
        if 0 < pid ∧ caller.visiblePid pid then some (some (pidDirectoryId pid)) else none
    | none, none => none
  else if current = p.net then ((procNetNames p).lookup comp).map some
  else if current = p.asound then ((procAsoundNames p).lookup comp).map some
  else if current = p.acpi then ((procAcpiNames p).lookup comp).map some
  else if inPidRange current then some (if comp = statusName then some (current + 0x1000) else none)
  else if current = p.self then some (if comp = statusName then some p.selfStatus else none)
  else if current = p.selfStatus ∨ current = p.processes ∨ current = p.mounts ∨
      inStatusRange current then some none
  else none

/-- Procfs does not stand in front of a node: it answers with the node itself or not at all. -/
structure Unshadowed (s : State) (caller : Caller) (j : Nat) : Prop where
  name_fits : (s.nodes j).name.length ≤ nameMax
  answer : ∀ id, procAnswer s caller (parentOf s j) (s.nodes j).name = some id → id = some j

/-! ## Down the names -/

variable {s : State} {caller : Caller} {i : Nat}

theorem components_flatMap (h : ∀ name ∈ names, ValidName name) :
    components (names.flatMap (slash :: ·)) = names := by
  induction names with
  | nil => rfl
  | cons name rest ih =>
    have hname := h name (by simp)
    have hrest := ih fun n hn => h n (mem_cons_of_mem name hn)
    rw [flatMap_cons, cons_append, components_slash_cons]
    rcases rest with _ | ⟨next, rest⟩
    · simpa using components_of_notMem hname.2.1 hname.1
    rw [flatMap_cons, cons_append] at hrest ⊢
    rw [components_append_slash, components_of_notMem hname.2.1 hname.1]
    rw [components_slash_cons] at hrest
    rw [hrest]
    rfl

theorem components_absolute (h : ∀ name ∈ names, ValidName name) :
    components (absolute names) = names := by
  unfold absolute
  split
  · next hnil =>
    rw [hnil]
    rfl
  · exact components_flatMap h

theorem writeNames_eq (capacity : Nat) (name : Name) (rest : List Name) (path : Name)
    (h : (path ++ name ++ rest.flatMap (slash :: ·)).length < capacity) :
    writeNames capacity (name :: rest) path =
      some (path ++ name ++ rest.flatMap (slash :: ·)) := by
  induction rest generalizing name path with
  | nil =>
    rw [writeNames, if_neg (by simpa using h)]
    simp [writeNames]
  | cons next rest ih =>
    have hpath : path ++ name ++ (next :: rest).flatMap (slash :: ·) =
        path ++ name ++ [slash] ++ next ++ rest.flatMap (slash :: ·) := by simp
    rw [hpath] at h ⊢
    rw [writeNames, if_neg (by simp at h ⊢; omega)]
    exact ih next (path ++ name ++ [slash]) h

theorem writeNames_absolute (h : (absolute names).length ≤ pathMax) :
    writeNames (pathMax + 1) names [slash] = some (absolute names) := by
  cases names with
  | nil => rfl
  | cons name rest => exact writeNames_eq (pathMax + 1) name rest [slash] (Nat.lt_succ_of_le h)

/-! ## Up the parents -/

theorem nodeChain_mono {room more : Nat} {chain : List Nat} (hroom : room ≤ more)
    (h : nodeChain s room i = some chain) : nodeChain s more i = some chain := by
  induction room generalizing i more chain with
  | zero =>
    by_cases hi : i = 0
    · cases more <;> simpa [nodeChain, hi] using h
    · simp [nodeChain, hi] at h
  | succ room ih =>
    rcases more with _ | more
    · omega
    rw [nodeChain] at h ⊢
    split at h
    · next hroot => rw [if_pos hroot, h]
    next hroot =>
    split_ifs at h
    next hplace =>
    obtain ⟨rest, hrest, hchain⟩ := map_eq_some_iff.mp h
    rw [if_neg hroot, if_neg hplace, ih (by omega) hrest, map_some, hchain]

theorem length_le_absolute (h : ∀ name ∈ names, ValidName name) :
    2 * names.length ≤ (absolute names).length := by
  have hflat : 2 * names.length ≤ (names.flatMap (slash :: ·)).length := by
    induction names with
    | nil => simp
    | cons name rest ih =>
      have hname := length_pos_iff.mpr (h name (by simp)).1
      have hrest := ih fun n hn => h n (mem_cons_of_mem name hn)
      simp only [flatMap_cons, cons_append, length_cons, length_append]
      omega
  unfold absolute
  split
  · next hnil => simp [hnil]
  · exact hflat

theorem TreeInv.findChild_self (h : TreeInv s) (hlinked : Linked s i) (hi : i ≠ 0) :
    findChild s (parentOf s i) (s.nodes i).name = some i := by
  have hcount := h.counted i hlinked.1 hlinked.2.1
  rcases hfind : findChild s (parentOf s i) (s.nodes i).name with _ | j
  · exact absurd rfl (findChild_none hfind (Nat.pos_of_ne_zero hi) hcount hlinked.2.1 rfl)
  obtain ⟨hpos, hj, hused, hparent, hname⟩ := findChild_some hfind
  have hbound := lt_of_lt_of_le hj h.count_le
  rw [h.siblings j i hbound hlinked.1 (by omega) hi hused hlinked.2.1
    (hname ▸ (h.named i hlinked hi).1) hparent hname]

theorem namedChild_eq (htable : tableChild s current comp = .ok i) {names : List (Name × Nat)}
    (h : ∀ id, (names.lookup comp).map some = some id → id = some i) :
    namedChild s names current comp = .ok i := by
  unfold namedChild
  cases hlookup : names.lookup comp with
  | none => exact htable
  | some id => simpa using h (some id) (by rw [hlookup]; rfl)

/-- Where procfs is silent or agrees, a component leads to the table's entry. -/
theorem walkStep_eq (huid : caller.uid = 0) (hname : ValidName comp) (hfits : comp.length ≤ nameMax)
    (hdirectory : (s.nodes current).type = .directory) (hchild : findChild s current comp = some i)
    (hanswer : ∀ id, procAnswer s caller current comp = some id → id = some i) :
    walkStep s caller current comp = .ok i := by
  have htable : tableChild s current comp = .ok i := by rw [tableChild, hchild]
  have hallows : nodeAllows (s.nodes current) caller 1 := if_pos huid
  unfold procAnswer at hanswer
  unfold walkStep
  rw [if_neg (Nat.not_lt.mpr hfits), if_neg hname.2.2.1, if_neg hname.2.2.2]
  simp only [hdirectory, hallows, ne_eq, not_true_eq_false, if_false, Bool.not_true,
    Bool.false_eq_true] at hanswer ⊢
  by_cases hinstalled : s.procfs.installed
  · simp only [hinstalled, not_true_eq_false, if_false, true_and] at hanswer ⊢
    by_cases hroot : current = s.procfs.root
    · rw [if_pos hroot] at hanswer ⊢
      revert hanswer
      rcases (procRootNames s.procfs).lookup comp with _ | id
      swap
      · simp
      unfold procPidChild
      rcases pidOf comp with _ | pid
      · exact fun _ => htable
      dsimp only
      split
      · simp [pidDirectoryId]
      · exact fun _ => htable
    rw [if_neg hroot] at hanswer ⊢
    split_ifs at hanswer ⊢
    · exact namedChild_eq htable hanswer
    · exact namedChild_eq htable hanswer
    · exact namedChild_eq htable hanswer
    · exact congrArg Except.ok (some.inj (hanswer _ rfl))
    · exact nomatch hanswer _ rfl
    · exact congrArg Except.ok (some.inj (hanswer _ rfl))
    · exact nomatch hanswer _ rfl
    · exact nomatch hanswer _ rfl
    · exact htable
  · simp only [hinstalled, Bool.false_eq_true, false_and, if_false]
    exact htable

/-- The climb from a linked node ends at the root, and its names lead back down. -/
theorem TreeInv.chain (h : TreeInv s) (huid : caller.uid = 0) (hlinked : Linked s i)
    (hway : ∀ n, (parentOf s)^[n] i ≠ 0 → Unshadowed s caller ((parentOf s)^[n] i)) :
    ∃ chain, nodeChain s chain.length i = some chain ∧
      (∀ name ∈ chain.reverse.map fun j => (s.nodes j).name, ValidName name) ∧
      walk s caller 0 (chain.reverse.map fun j => (s.nodes j).name) = .ok i := by
  have hrooted := h.rooted i hlinked
  induction hrooted with
  | root => exact ⟨[], rfl, by simp, rfl⟩
  | @step i _ ih =>
    by_cases hi : i = 0
    · rw [hi]
      exact ⟨[], rfl, by simp, rfl⟩
    rcases ih (h.parent_linked i hlinked hi) (fun n => hway (n + 1)) with
      ⟨chain, hchain, hnames, hwalk⟩
    have hcount := h.counted i hlinked.1 hlinked.2.1
    have hplace : ¬ (s.nodeCount ≤ i ∨ maxNodes ≤ i ∨ (s.nodes i).used = false) := by
      simp [hlinked.2.1, hcount, hlinked.1]
    have hstep := walkStep_eq huid (h.named i hlinked hi) (hway 0 hi).name_fits
      (h.parent_directory i hlinked hi) (h.findChild_self hlinked hi) (hway 0 hi).answer
    refine ⟨i :: chain, ?_, ?_, ?_⟩
    · rw [length_cons, nodeChain, if_neg hi, if_neg hplace]
      exact congrArg (Option.map (i :: ·)) hchain
    · intro name hname
      rw [reverse_cons, map_append, mem_append] at hname
      rcases hname with hname | hname
      · exact hnames name hname
      rw [map_singleton, mem_singleton] at hname
      rw [hname]
      exact h.named i hlinked hi
    · rw [reverse_cons, map_append, map_singleton, walk_append, hwalk]
      exact hstep

/-- In every tree that sound calls lead to, the path of a linked node leads back to it, if procfs
does not stand in front of a node on the way. -/
theorem node_path_inverse (table : Nat → Vnode) (archive : List BootEntry) (x86 : Bool)
    (hnames : ∀ entry ∈ archive, entry.NameValid) (ops : List TreeOp)
    (hsound : Machine.Guarded TreeOp.apply (fun s op => op.Sound s)
      (bootTree table archive x86) ops)
    (hs : s = Machine.run TreeOp.apply (bootTree table archive x86) ops)
    (huid : caller.uid = 0) (hlinked : Linked s i) (hplain : inPidRange i = false)
    (hway : ∀ n, (parentOf s)^[n] i ≠ 0 → Unshadowed s caller ((parentOf s)^[n] i)) :
    PathInverse s caller i := by
  have hinv : TreeInv s := by
    rw [hs]
    exact hsound.invariant TreeInv TreeOp.apply_inv (bootTree_inv table archive x86 hnames)
  obtain ⟨chain, hchain, hvalid, hwalk⟩ := hinv.chain huid hlinked hway
  refine ⟨_, ⟨_, chain, hchain, rfl⟩, fun hfits => ?_⟩
  have hlength := length_le_absolute hvalid
  rw [length_map, length_reverse] at hlength
  have hroom : chain.length ≤ (pathMax + 1) / 2 := by
    unfold pathMax at hfits ⊢
    omega
  have hstatus : inStatusRange i = false := by
    have hlow : ¬ procPidBase + 0x1000 ≤ i := Nat.not_le.mpr hlinked.1
    unfold inStatusRange
    rw [decide_eq_false hlow]
    rfl
  constructor
  · rw [buildNodePath, if_neg (by decide), hplain, if_neg Bool.false_ne_true, hstatus,
      if_neg Bool.false_ne_true, nodeChain_mono hroom hchain]
    exact writeNames_absolute hfits
  · intro cwd
    have hslash : (absolute (chain.reverse.map fun j => (s.nodes j).name)).head? = some slash := by
      unfold absolute
      split
      · rfl
      next hne =>
      obtain ⟨name, rest, hcons⟩ := exists_cons_of_ne_nil hne
      rw [hcons]
      rfl
    rw [resolvePathAt, if_neg (by intro hnil; rw [hnil] at hslash; cases hslash),
      components_absolute hvalid, startNode, if_pos hslash, hwalk]

def nestedPath : Name := ascii ['/', 'a', '/', 'b']

def outerDirectory : State := TreeOp.apply bareTree (.mkdir superuser 0 pathA 0o755)

def nestedDirectory : State := TreeOp.apply outerDirectory (.mkdir superuser 0 nestedPath 0o755)

/-- The directory `/a/b`, made on a booted tree. -/
theorem node_path_inverse_nested : PathInverse nestedDirectory superuser 40 := by
  have hparents : splitParent bareTree superuser 0 pathA = .ok (0, [97]) ∧
      splitParent outerDirectory superuser 0 nestedPath = .ok (39, [98]) ∧
      ((bareTree.nodes 0).unlinked = false ∧ ¬ Opaque bareTree 0) ∧
      (outerDirectory.nodes 39).unlinked = false ∧ ¬ Opaque outerDirectory 39 := by
    decide +kernel
  have hfacts : ((nestedDirectory.nodes 40).used ∧ (nestedDirectory.nodes 40).unlinked = false) ∧
      (∀ j ∈ [39, 40], (nestedDirectory.nodes j).name.length ≤ nameMax ∧
        procAnswer nestedDirectory superuser (parentOf nestedDirectory j)
          (nestedDirectory.nodes j).name = none) ∧
      parentOf nestedDirectory 40 = 39 ∧ parentOf nestedDirectory 39 = 0 ∧
        parentOf nestedDirectory 0 = 0 := by
    decide +kernel
  obtain ⟨hfirst, hsecond, hroot, houter⟩ := hparents
  obtain ⟨hlinked, hway, hup, hup', htop⟩ := hfacts
  have hclear : ∀ j ∈ [39, 40], Unshadowed nestedDirectory superuser j := fun j hj =>
    ⟨(hway j hj).1, fun id hid => absurd ((hway j hj).2.symm.trans hid) (by simp)⟩
  apply node_path_inverse (s := nestedDirectory) (fun _ => zeroNode) [] true (by simp)
    [.mkdir superuser 0 pathA 0o755, .mkdir superuser 0 nestedPath 0o755] ?_ rfl rfl
    ⟨by decide, hlinked⟩ (by decide)
  · intro n hn
    rcases n with _ | _ | n
    · exact hclear 40 (by simp)
    · rw [zero_add, Function.iterate_one, hup]
      exact hclear 39 (by simp)
    · rw [Function.iterate_add_apply, Function.iterate_succ_apply, Function.iterate_one, hup, hup',
        Function.iterate_fixed htop] at hn
      exact absurd rfl hn
  · refine ⟨fun parent name h => ?_, fun parent name h => ?_, trivial⟩
    · cases hfirst.symm.trans h
      exact ⟨by decide, hroot⟩
    · cases hsecond.symm.trans h
      exact ⟨by decide, houter⟩

def hiddenDirectory : State := Machine.run TreeOp.apply bareTree
  [.mkdir superuser 0 (procPath ['/', 's', 'e', 'l', 'f', '/', 'x']) 0o755]

theorem hidden_directory_lost : Linked hiddenDirectory 39 ∧
      buildNodePath hiddenDirectory 39 (pathMax + 1) =
        some (procPath ['/', 's', 'e', 'l', 'f', '/', 'x']) ∧
      resolvePathAt hiddenDirectory superuser 0 (procPath ['/', 's', 'e', 'l', 'f', '/', 'x']) =
        .error .enoent ∧
      ¬ PathInverse hiddenDirectory superuser 39 := by
  have hfacts : (hiddenDirectory.nodes 39).used ∧
      (hiddenDirectory.nodes 39).unlinked = false ∧
      buildNodePath hiddenDirectory 39 (pathMax + 1) =
        some (procPath ['/', 's', 'e', 'l', 'f', '/', 'x']) ∧
      resolvePathAt hiddenDirectory superuser 0 (procPath ['/', 's', 'e', 'l', 'f', '/', 'x']) =
        .error .enoent ∧
      ∃ chain ∈ nodeChain hiddenDirectory 64 39,
        absolute (chain.reverse.map fun j => (hiddenDirectory.nodes j).name) =
          procPath ['/', 's', 'e', 'l', 'f', '/', 'x'] := by
    decide +kernel
  obtain ⟨hused, hlinked, hbuilt, hlost, known, hknown, hpath⟩ := hfacts
  refine ⟨⟨by decide, hused, hlinked⟩, hbuilt, hlost, ?_⟩
  rintro ⟨path, ⟨room, chain, hchain, rfl⟩, hinverse⟩
  have hsame := nodeChain_mono (le_max_left room 64) hchain
  rw [nodeChain_mono (le_max_right room 64) hknown] at hsame
  rw [← some.inj hsame] at hinverse
  have hback := (hinverse (by rw [hpath]; decide)).2 0
  rw [hpath, hlost] at hback
  cases hback

end XsCore.Vfs
