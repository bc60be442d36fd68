import XsCore.File.Creators

/-! # Sharing and dropping descriptions

Closing, duplicating and cloning keep `FilesOk`: every entry that is overwritten gives its reference
up, and every entry that is written has one.
-/

namespace XsCore.File

open Function List Option

variable {leak : Nat → Prop} {base : Base} {locals : Multiset Nat}
  {pledged : Multiset Handle} {k k' : Files} {f d t : Nat} {table : Table}

/-! ## Looking up -/

theorem Files.lookup_spec (h : k.lookup t d = some f) :
    ∃ table, k.tables[t]? = some table ∧ table.entry d = some f := by
  unfold Files.lookup at h
  split_ifs at h
  exact bind_eq_some_iff.mp h

theorem FilesOk.lookupRef (hk : FilesOk leak base locals pledged k)
    (h : k.lookupRef t d = some (k', f)) :
    FilesOk leak base (f ::ₘ locals) pledged k' ∧ k' = k.fileAcquire f := by
  obtain ⟨g, hlookup, hpair⟩ := map_eq_some_iff.mp h
  obtain ⟨rfl, rfl⟩ := Prod.mk.inj hpair
  obtain ⟨table, ht, hentry⟩ := Files.lookup_spec hlookup
  exact ⟨hk.acquire (.inl (hk.entry_used ht hentry)), rfl⟩

theorem Files.object_acquire (k : Files) (f g : Nat) :
    ((k.fileAcquire f).files g).object = (k.files g).object := by
  show (update k.files f _ g).object = _
  by_cases hg : g = f
  · subst hg
    rw [update_self]
  · rw [update_of_ne hg]

/-! ## Closing -/

section

variable (hk : FilesOk leak base locals pledged k)
include hk

theorem FilesOk.close (t d : Nat) : FilesOk leak base locals pledged (k.close t d).1 := by
  unfold Files.close
  rcases hlookup : k.lookup t d with _ | f
  · exact hk
  obtain ⟨table, ht, hentry⟩ := Files.lookup_spec hlookup
  obtain ⟨slot, hslot, hfile⟩ := Table.entry_slot hentry
  have hthere : k.slot t d = some slot := by rw [Files.slot, ht, bind_some, hslot]
  have hcleared := hk.clear hthere
  rw [Slot.files_some hfile, Multiset.singleton_add] at hcleared
  exact hcleared.release

def Files.closeEntry (t : Nat) (select : Nat → Slot → Bool) (k : Files) (d : Nat) : Files :=
  match k.slot t d with
  | some slot => if select d slot then (slot.file.elim k k.release).putSlot t d .empty else k
  | none => k

theorem FilesOk.closeEntry (t : Nat) (select : Nat → Slot → Bool) (d : Nat) :
    FilesOk leak base locals pledged (k.closeEntry t select d) := by
  unfold Files.closeEntry
  rcases hslot : k.slot t d with _ | slot
  · exact hk
  dsimp only
  split_ifs
  · exact hk.releaseEntry hslot
  · exact hk

end

theorem Files.closeWhere_eq (k : Files) (t : Nat) (select : Nat → Slot → Bool) :
    k.closeWhere t select =
      ((k.tables[t]?).elim [] fun table => range table.capacity).foldl
        (Files.closeEntry t select) k := rfl

theorem FilesOk.closeWhere (hk : FilesOk leak base locals pledged k) (t : Nat)
    (select : Nat → Slot → Bool) : FilesOk leak base locals pledged (k.closeWhere t select) :=
  foldlRecOn _ _ hk fun _ hk d _ => hk.closeEntry t select d

theorem Files.tables_putSlot (k : Files) (t d : Nat) (slot : Slot) :
    (k.putSlot t d slot).tables = k.tables.modify t fun table => table.put d slot := by
  unfold Files.putSlot
  rw [modify_eq_set_getElem?]
  cases k.tables[t]? <;> rfl

theorem Files.closeEntry_all (t : Nat) (k : Files) (d : Nat) :
    (k.closeEntry t (fun _ _ => true) d).tables =
      k.tables.modify t fun table => table.put d .empty := by
  unfold Files.closeEntry
  cases hslot : k.slot t d with
  | none =>
    rw [modify_eq_set_getElem?]
    rcases ht : k.tables[t]? with _ | table
    · rfl
    have hout : table.slots.length ≤ d := by simpa [Files.slot, ht] using hslot
    have hsame : table.put d .empty = table := by rw [Table.put, set_eq_of_length_le hout]
    obtain ⟨hlt, hget⟩ := List.getElem?_eq_some_iff.mp ht
    show k.tables = k.tables.set t (table.put d .empty)
    rw [hsame, ← hget, set_getElem_self]
  | some slot =>
    simp only [if_true]
    rw [Files.tables_putSlot]
    cases slot.file with
    | none => rfl
    | some f => rw [elim_some, Files.tables_release]

def Table.cleared (table : Table) (ds : List Nat) : Table :=
  ds.foldl (fun table d => table.put d .empty) table

theorem Files.closeEntries_all (ht : k.tables[t]? = some table) (ds : List Nat) :
    (ds.foldl (Files.closeEntry t fun _ _ => true) k).tables[t]? = some (table.cleared ds) := by
  induction ds generalizing k table with
  | nil => exact ht
  | cons d ds ih =>
    have hnext : (k.closeEntry t (fun _ _ => true) d).tables[t]? = some (table.put d .empty) := by
      rw [Files.closeEntry_all, getElem?_modify, ht]
      simp
    exact ih hnext

theorem Table.cleared_entry (table : Table) (ds : List Nat) (d : Nat)
    (h : d ∈ ds ∨ table.entry d = none) : (table.cleared ds).entry d = none := by
  induction ds generalizing table with
  | nil => exact h.resolve_left (by simp)
  | cons e ds ih =>
    refine ih (table.put e .empty) ?_
    by_cases hde : d = e
    · subst hde
      right
      simp [Table.entry, Table.put, getElem?_set, Slot.empty]
    rcases h with hmem | hnone
    · exact .inl (by simpa [hde] using hmem)
    · right
      simpa [Table.entry, Table.put, getElem?_set_ne (Ne.symm hde)] using hnone

theorem Table.files_eq (table : Table) :
    table.files = (table.slots.filterMap Slot.file : List Nat) := by
  unfold Table.files
  induction table.slots with
  | nil => rfl
  | cons slot slots ih =>
    rw [map_cons, sum_cons, ih]
    cases hfile : slot.file with
    | none => rw [Slot.files_none hfile, zero_add, filterMap_cons_none hfile]
    | some f =>
      rw [Slot.files_some hfile, filterMap_cons_some hfile, Multiset.singleton_add,
        Multiset.cons_coe]

theorem Table.files_zero (h : ∀ d, table.entry d = none) : table.files = 0 := by
  rw [Table.files_eq, Multiset.coe_eq_zero, filterMap_eq_nil_iff]
  intro slot hslot
  obtain ⟨d, hd⟩ := getElem?_of_mem hslot
  simpa [Table.entry, hd] using h d

theorem FilesOk.closeAll (hk : FilesOk leak base locals pledged k) (t : Nat) :
    FilesOk leak base locals pledged (k.closeAll t) := by
  have hclosed := hk.closeWhere t fun _ _ => true
  unfold Files.closeAll
  cases ht : k.tables[t]? with
  | none =>
    have hsame : k.closeWhere t (fun _ _ => true) = k := by
      rw [Files.closeWhere_eq, ht]
      rfl
    have hout : k.tables.length ≤ t := getElem?_eq_none_iff.mp ht
    rw [hsame, if_neg (by omega)]
    exact hk
  | some table =>
    have hafter : (k.closeWhere t fun _ _ => true).tables[t]? =
        some (table.cleared (range table.capacity)) := by
      rw [Files.closeWhere_eq, ht]
      exact Files.closeEntries_all ht _
    have hempty : (table.cleared (range table.capacity)).files = 0 := by
      refine Table.files_zero fun d => table.cleared_entry _ d ?_
      by_cases hd : d < table.capacity
      · exact .inl (mem_range.mpr hd)
      right
      have hout : table.slots.length ≤ d := Nat.le_of_not_lt hd
      simp [Table.entry, hout]
    rw [if_pos (List.getElem?_eq_some_iff.mp hafter).1]
    refine hclosed.setTable hafter Table.storageReset_ok ?_
    rw [hempty]
    exact Table.files_empty fdInlineMax

/-! ## Duplicating -/

section

variable (hk : FilesOk leak base locals pledged k)
include hk

theorem FilesOk.shareClaim {grown : Table} (ht : k.tables[t]? = some table)
    (hused : (k.files f).references ≠ 0) (hgrown : Grown table grown) (heap : Nat → Bool)
    (start flags : Nat) : FilesOk leak base locals pledged
      (match grown.claim heap start fdMax with
        | (grown, .error e) => (k.setTable t grown, Except.error e)
        | (grown, .ok target) => (k.share t grown target f flags, Except.ok target)).1 := by
  have hclaim := Table.claim_spec heap start fdMax grown
  generalize grown.claim heap start fdMax = result at hclaim ⊢
  rcases result with ⟨final, e | target⟩
  · exact hk.grown ht (hgrown.trans hclaim.1)
  · obtain ⟨slot, hslot, hfree⟩ := hclaim.2 target rfl
    exact hk.share (.inl hused) ht (hgrown.trans hclaim.1) hslot hfree flags

theorem FilesOk.dup (t d : Nat) (heap : Nat → Bool) :
    FilesOk leak base locals pledged (k.dup t d heap).1 := by
  unfold Files.dup
  cases hlookup : k.lookup t d with
  | none => exact hk
  | some f =>
    obtain ⟨table, ht, hentry⟩ := Files.lookup_spec hlookup
    simp only [ht]
    exact hk.shareClaim ht (hk.entry_used ht hentry) (.refl table) heap 0 0

theorem FilesOk.dupFrom (t d : Nat) (heap : Nat → Bool) (start : Nat) (cloexec : Bool) :
    FilesOk leak base locals pledged (k.dupFrom t d heap start cloexec).1 := by
  unfold Files.dupFrom
  split
  · exact hk
  split
  · exact hk
  rcases hlookup : k.lookup t d with _ | f
  · exact hk
  obtain ⟨table, ht, hentry⟩ := Files.lookup_spec hlookup
  simp only [ht]
  cases hgrow : table.grow heap (start + 1) with
  | error e => exact hk
  | ok grown =>
    exact hk.shareClaim ht (hk.entry_used ht hentry) (Table.grow_spec hgrow).1 heap start _

end

theorem Table.put_put (table : Table) (d : Nat) (slot slot' : Slot) :
    (table.put d slot).put d slot' = table.put d slot' := by
  simp [Table.put]

section

variable (hk : FilesOk leak base locals pledged k)
include hk

/-- The description replaced is released before the entry is overwritten; the one put in its place
keeps the reference of its own entry meanwhile. -/
theorem FilesOk.replace {old new : Nat} (hne : new ≠ old) (ht : k.tables[t]? = some table)
    (hold : table.entry old = some f) (hnew : new < table.capacity) :
    FilesOk leak base locals pledged
      ((((table.entry new).elim k k.release).putSlot t new ⟨some f, 0⟩).fileAcquire f) := by
  have hslot : table.slots[new]? = some table.slots[new] := getElem?_eq_getElem hnew
  have hentry : table.entry new = table.slots[new].file := by rw [Table.entry, hslot, bind_some]
  have hthere : k.slot t new = some table.slots[new] := by rw [Files.slot, ht, bind_some, hslot]
  have hdropped := hk.releaseEntry hthere
  rw [hentry]
  generalize hdrop : table.slots[new].file.elim k k.release = dropped at hdropped ⊢
  have htables : dropped.tables[t]? = some table := by
    rw [← hdrop, ← ht]
    cases table.slots[new].file with
    | none => rfl
    | some g => rw [elim_some, Files.tables_release]
  have hlt : t < dropped.tables.length := (List.getElem?_eq_some_iff.mp htables).1
  have hcleared : (dropped.putSlot t new .empty).tables[t]? = some (table.put new .empty) := by
    rw [Files.putSlot_eq htables]
    simp [Files.setTable, hlt]
  have hused := hdropped.entry_used hcleared (d := old) (f := f) (by
    simpa [Table.entry, Table.put, getElem?_set_ne hne] using hold)
  have hfree : (table.put new .empty).slots[new]? = some .empty := by
    simp [Table.put, getElem?_set_self hnew]
  have hshared := hdropped.share (.inl hused) hcleared (.refl _) hfree rfl 0
  rw [Files.putSlot_eq htables]
  rwa [Files.share, Table.put_put, Files.putSlot_eq htables, Files.setTable, Files.setTable,
    set_set] at hshared

theorem FilesOk.dup2 (t old new : Nat) (heap : Nat → Bool) :
    FilesOk leak base locals pledged (k.dup2 t old new heap).1 := by
  unfold Files.dup2
  split
  · exact hk
  rename_i hmax
  rcases ht : k.tables[t]? with _ | table
  · exact hk
  dsimp only
  have hroom : ∀ grown, (if table.capacity ≤ new then table.grow heap (new + 1) else .ok table) =
      .ok grown → Grown table grown ∧ new < grown.capacity := by
    intro grown hgrow
    split_ifs at hgrow with hsmall
    · exact Table.grow_spec hgrow
    · cases hgrow
      exact ⟨.refl table, by omega⟩
  cases hgrow : (if table.capacity ≤ new then table.grow heap (new + 1) else .ok table) with
  | error e => exact hk
  | ok grown =>
    have hgrown := hroom grown hgrow
    have hset : FilesOk leak base locals pledged (k.setTable t grown) := hk.grown ht hgrown.1
    dsimp only
    rcases hentry : grown.entry old with _ | f
    · exact hset
    split_ifs with heq
    · exact hset
    have hlt : t < k.tables.length := (List.getElem?_eq_some_iff.mp ht).1
    have htable : (k.setTable t grown).tables[t]? = some grown := by simp [Files.setTable, hlt]
    exact hset.replace (Ne.symm heq) htable hentry hgrown.2

/-! ## New tables -/

omit hk in
theorem FilesOk.addTable (hk : FilesOk leak base (table.files + locals) pledged k)
    (hok : table.Ok) :
    FilesOk leak base locals pledged { k with tables := k.tables ++ [table] } := by
  constructor
  · have hentries : ({ k with tables := k.tables ++ [table] } : Files).entries =
        k.entries + table.files := by
      simp [Files.entries]
    rw [hentries]
    have hsum : k.entries + table.files + k.held + locals =
        k.entries + k.held + (table.files + locals) := by abel
    rw [hsum]
    exact hk.sound.congr rfl rfl rfl rfl
  · intro t ht
    rcases mem_append.mp ht with hold | hnew
    · exact hk.tables t hold
    · rw [mem_singleton.mp hnew]
      exact hok

theorem FilesOk.acquires (fs : List Nat)
    (hfs : ∀ f ∈ fs, (k.files f).references ≠ 0 ∨ filePoolSize ≤ f) :
    FilesOk leak base ((fs : Multiset Nat) + locals) pledged (fs.foldl Files.fileAcquire k) := by
  induction fs generalizing k locals with
  | nil => simpa using hk
  | cons f fs ih =>
    have hfirst := hk.acquire (hfs f (by simp))
    have hrest := ih hfirst fun g hg => by
      refine (hfs g (by simp [hg])).imp_left fun hused => ?_
      show (update k.files f _ g).references ≠ 0
      rw [update_apply]
      split_ifs with hgf
      · subst hgf
        exact Nat.succ_ne_zero _
      · exact hused
    rwa [Multiset.add_cons, ← Multiset.cons_add, Multiset.cons_coe] at hrest

end

theorem Files.acquires_tables (fs : List Nat) (k : Files) (tables : List Table) :
    fs.foldl Files.fileAcquire { k with tables := tables } =
      { fs.foldl Files.fileAcquire k with tables := tables } :=
  foldl_hom (fun k : Files => { k with tables := tables }) fun _ _ => rfl

theorem Files.tables_acquires (fs : List Nat) (k : Files) :
    (fs.foldl Files.fileAcquire k).tables = k.tables :=
  foldlRecOn (motive := fun k' : Files => k'.tables = k.tables) fs _ rfl fun _ h _ _ => h

section

variable (hk : FilesOk leak base locals pledged k)
include hk

theorem FilesOk.newTable (hok : table.Ok) (fs : List Nat)
    (hfiles : table.files = fs) (hfs : ∀ f ∈ fs, (k.files f).references ≠ 0 ∨ filePoolSize ≤ f) :
    FilesOk leak base locals pledged
      (fs.foldl Files.fileAcquire { k with tables := k.tables ++ [table] }) := by
  have hacquired := hk.acquires fs hfs
  rw [← hfiles] at hacquired
  have hadded := hacquired.addTable hok
  rwa [Files.tables_acquires, ← Files.acquires_tables] at hadded

theorem FilesOk.tableInitialize : FilesOk leak base locals pledged k.tableInitialize := by
  refine hk.newTable ⟨0, Nat.zero_le _, rfl⟩ [consoleInput, consoleOutput, consoleError] ?_ ?_
  · rw [Table.files_eq]
    rfl
  · intro f hf
    right
    rw [mem_cons, mem_cons, mem_singleton] at hf
    rcases hf with rfl | rfl | rfl
    · exact le_rfl
    · exact Nat.le_add_right _ _
    · exact Nat.le_add_right _ _

theorem FilesOk.tableClone (t : Nat) (heap : Nat → Bool) :
    FilesOk leak base locals pledged (k.tableClone t heap).1 := by
  have hempty : FilesOk leak base locals pledged
      { k with tables := k.tables ++ [.storageReset] } :=
    hk.newTable Table.storageReset_ok [] (Table.files_empty fdInlineMax) (by simp)
  unfold Files.tableClone
  rcases ht : k.tables[t]? with _ | src
  · exact hempty
  dsimp only
  rcases hgrow : Table.storageReset.grow heap src.capacity with e | dest
  · exact hempty
  have hgrown := Table.grow_spec hgrow
  obtain ⟨n, hn⟩ := hgrown.1.slots
  refine hk.newTable ?_ _ ?_ fun f hf => ?_
  · have hdest : dest.Ok := hgrown.1.ok Table.storageReset_ok
    have hcapacity : Table.capacity ⟨src.slots ++ dest.slots.drop src.capacity⟩ =
        dest.capacity := by
      have hle := hgrown.2
      simp only [Table.capacity, length_append, length_drop] at hle ⊢
      omega
    rw [Table.Ok, hcapacity]
    exact hdest
  · have hrest : (dest.slots.drop src.capacity).filterMap Slot.file = [] := by
      rw [filterMap_eq_nil_iff]
      intro slot hslot
      have hmem := mem_of_mem_drop hslot
      rw [hn, Table.storageReset, replicate_append_replicate] at hmem
      rw [eq_of_mem_replicate hmem]
      rfl
    rw [Table.files_eq, filterMap_append, hrest, append_nil]
  · obtain ⟨slot, hslot, hfile⟩ := mem_filterMap.mp hf
    obtain ⟨d, hd⟩ := getElem?_of_mem hslot
    exact .inl (hk.entry_used ht (d := d) (by rw [Table.entry, hd, bind_some, hfile]))

end

/-! ## Flags -/

section

variable (hk : FilesOk leak base locals pledged k)
include hk

theorem FilesOk.setFd (t d flags : Nat) :
    FilesOk leak base locals pledged (k.setFd t d flags).1 := by
  unfold Files.setFd
  rcases hslot : k.slot t d with _ | slot
  · exact hk
  dsimp only
  split_ifs
  · exact hk
  · exact hk
  obtain ⟨table, ht, hd⟩ := bind_eq_some_iff.mp hslot
  have hput := Table.files_put hd { slot with flags := flags }
  have hsame : (table.put d { slot with flags := flags }).files = table.files :=
    add_right_cancel hput
  rw [Files.putSlot_eq ht]
  exact hk.setTable ht (Table.put_ok (hk.tableOk ht) _ _) hsame

theorem FilesOk.setStatus {d : Description}
    (hcount : d.references = (k.files f).references) (hobject : d.object = (k.files f).object)
    (hsame : d.live = (k.files f).live) : FilesOk leak base locals pledged (k.setFile f d) := by
  have hfields : ∀ g, ((k.setFile f d).files g).references = (k.files g).references ∧
      ((k.setFile f d).files g).object = (k.files g).object := by
    intro g
    show (update k.files f d g).references = _ ∧ (update k.files f d g).object = _
    rw [update_apply]
    split_ifs with hg
    · subst hg
      exact ⟨hcount, hobject⟩
    · exact ⟨rfl, rfl⟩
  have hlive : (k.setFile f d).live = k.live := liveOf_update_same k.files hsame
  refine ⟨?_, hk.tables⟩
  constructor
  · intro g
    exact (hfields g).1.trans (hk.sound.counted g)
  · intro i hi hzero
    rw [(hfields i).1] at hzero
    rw [(hfields i).2]
    exact hk.sound.slots i hi hzero
  · intro i hi hused
    rw [(hfields i).1] at hused
    rw [(hfields i).2]
    exact hk.sound.kinds i hi hused
  · intro g hg s
    rw [(hfields g).2]
    exact hk.sound.passed g hg s
  · rw [hlive]
    exact hk.sound.log
  · rw [hlive]
    exact hk.sound.backed

theorem FilesOk.setFl (t d : Nat) (append nonblock : Bool) :
    FilesOk leak base locals pledged (k.setFl t d append nonblock).1 := by
  unfold Files.setFl
  rcases hlookup : k.lookupRef t d with _ | ⟨k', f⟩
  · exact hk
  have hset : FilesOk leak base (f ::ₘ locals) pledged
      (k'.setFile f { k'.files f with append := append, nonblock := nonblock }) :=
    (hk.lookupRef hlookup).1.setStatus rfl rfl rfl
  exact hset.release

end

/-! ## Calls at work -/

theorem FilesOk.keep (hk : FilesOk leak base (f ::ₘ locals) pledged k) :
    FilesOk leak base locals pledged { k with held := f ::ₘ k.held } := by
  refine ⟨?_, hk.tables⟩
  have hsum : k.entries + (f ::ₘ k.held) + locals = k.entries + k.held + (f ::ₘ locals) := by
    rw [Multiset.add_cons, Multiset.add_cons, Multiset.cons_add]
  show Sound leak base (k.entries + (f ::ₘ k.held) + locals) pledged _
  rw [hsum]
  exact hk.sound.congr rfl rfl rfl rfl

theorem FilesOk.hold (hk : FilesOk leak base locals pledged k) (t d : Nat) :
    FilesOk leak base locals pledged (k.step (.hold t d)) := by
  rw [Files.step]
  rcases hlookup : k.lookupRef t d with _ | ⟨k', f⟩
  · exact hk
  · exact (hk.lookupRef hlookup).1.keep

theorem FilesOk.put (hk : FilesOk leak base locals pledged k) (f : Nat) :
    FilesOk leak base locals pledged (k.step (.put f)) := by
  show FilesOk leak base locals pledged
    (if f ∈ k.held then ({ k with held := k.held.erase f } : Files).release f else k)
  split_ifs with hmem
  · have hgiven : FilesOk leak base (f ::ₘ locals) pledged { k with held := k.held.erase f } := by
      refine ⟨?_, hk.tables⟩
      have hsum : k.entries + k.held.erase f + (f ::ₘ locals) = k.entries + k.held + locals := by
        rw [Multiset.add_cons, ← Multiset.cons_add, ← Multiset.add_cons, Multiset.cons_erase hmem]
      show Sound leak base (k.entries + k.held.erase f + (f ::ₘ locals)) pledged _
      rw [hsum]
      exact hk.sound.congr rfl rfl rfl rfl
    exact hgiven.release
  · exact hk

end XsCore.File
