import XsCore.File.Counts
import Mathlib.Tactic.IntervalCases

/-! # Tables and the references they hold

A table grows by doubling and never loses an entry on the way.  `FilesOk` is the invariant between
two steps of a call: the references counted are those of the tables, of calls at work and of the
call itself.
-/

namespace XsCore.File

open List

/-! ## One table -/

def Slot.files (slot : Slot) : Multiset Nat := slot.file.elim 0 fun f => {f}

def Table.files (t : Table) : Multiset Nat := (t.slots.map Slot.files).sum

def CapacityOk (capacity : Nat) : Prop := ∃ j ≤ 6, capacity = fdInlineMax * 2 ^ j

def Table.Ok (t : Table) : Prop := CapacityOk t.capacity

variable {t t' : Table} {heap : Nat → Bool} {d : Nat}

variable {c : Nat} {slot : Slot}

theorem CapacityOk.next (h : CapacityOk c) : CapacityOk (nextCapacity c) := by
  obtain ⟨j, hj, rfl⟩ := h
  by_cases hlast : j = 6
  · subst hlast
    exact ⟨6, le_rfl, rfl⟩
  · refine ⟨j + 1, by omega, ?_⟩
    interval_cases j <;> first | rfl | exact absurd rfl hlast

theorem CapacityOk.next_eq (h : CapacityOk c) (hc : c < fdMax) : nextCapacity c = 2 * c := by
  obtain ⟨j, hj, rfl⟩ := h
  interval_cases j <;> first | rfl | exact absurd hc (by decide)

theorem le_nextCapacity (hc : c < fdMax) : c ≤ nextCapacity c := by
  unfold nextCapacity
  split <;> omega

theorem CapacityOk.doubled (n : Nat) (h : CapacityOk c) (required : Nat) :
    CapacityOk (doubled n c required) := by
  induction n generalizing c with
  | zero => exact h
  | succ n ih =>
    unfold File.doubled
    split
    · exact ih h.next
    · exact h

theorem le_doubled (n c required : Nat) : c ≤ doubled n c required := by
  induction n generalizing c with
  | zero => exact Nat.le_refl c
  | succ n ih =>
    unfold File.doubled
    split
    next hless => exact Nat.le_trans (le_nextCapacity hless.2) (ih _)
    next => exact Nat.le_refl c

theorem Table.storageReset_ok : Table.storageReset.Ok := ⟨0, Nat.zero_le _, rfl⟩

theorem Table.files_empty (n : Nat) : Table.files ⟨replicate n .empty⟩ = 0 := by
  simp [Table.files, Slot.files, Slot.empty]

structure Grown (t t' : Table) : Prop where
  slots : ∃ n, t'.slots = t.slots ++ replicate n .empty
  ok : t.Ok → t'.Ok

theorem Grown.refl (t : Table) : Grown t t := ⟨⟨0, by simp⟩, id⟩

theorem Grown.trans {t'' : Table} (h : Grown t t') (h' : Grown t' t'') : Grown t t'' := by
  obtain ⟨n, hn⟩ := h.slots
  obtain ⟨m, hm⟩ := h'.slots
  refine ⟨⟨n + m, ?_⟩, h'.ok ∘ h.ok⟩
  rw [hm, hn, append_assoc, replicate_append_replicate]

theorem Grown.files (h : Grown t t') : t'.files = t.files := by
  obtain ⟨n, hn⟩ := h.slots
  have hempty := Table.files_empty n
  unfold Table.files at hempty ⊢
  rw [hn, map_append, sum_append, hempty, add_zero]

theorem Grown.capacity_le (h : Grown t t') : t.capacity ≤ t'.capacity := by
  obtain ⟨n, hn⟩ := h.slots
  simp [Table.capacity, hn]

theorem Grown.entry (h : Grown t t') (hd : d < t.capacity) : t'.entry d = t.entry d := by
  obtain ⟨n, hn⟩ := h.slots
  rw [Table.entry, Table.entry, hn, getElem?_append_left hd]

theorem Table.grow_spec {required : Nat} (h : t.grow heap required = .ok t') :
    Grown t t' ∧ required ≤ t'.capacity := by
  unfold Table.grow at h
  dsimp only at h
  split_ifs at h with hmax henough hshort hheap
  · rw [Except.ok.injEq] at h
    subst h
    exact ⟨.refl t, henough⟩
  rw [Except.ok.injEq] at h
  subst h
  have hle := le_doubled fdMax t.capacity required
  have hcapacity : Table.capacity ⟨t.slots ++
      replicate (doubled fdMax t.capacity required - t.capacity) .empty⟩ =
      doubled fdMax t.capacity required := by
    simp only [Table.capacity, length_append, length_replicate] at hle ⊢
    omega
  refine ⟨⟨⟨_, rfl⟩, fun hok => ?_⟩, ?_⟩
  · unfold Table.Ok
    rw [hcapacity]
    exact CapacityOk.doubled fdMax hok required
  · rw [hcapacity]
    omega

theorem Table.findFree_spec {start : Nat} (h : t.findFree start = some d) :
    ∃ slot, t.slots[d]? = some slot ∧ slot.file = none := by
  obtain ⟨j, hj, rfl⟩ := Option.map_eq_some_iff.mp h
  obtain ⟨hlt, hnone, -⟩ := findIdx?_eq_some_iff_getElem.mp hj
  refine ⟨(t.slots.drop start)[j], ?_, by simpa using hnone⟩
  rw [← getElem?_drop, getElem?_eq_getElem hlt]

theorem Table.claim_spec (heap : Nat → Bool) (start n : Nat) (t : Table) :
    Grown t (t.claim heap start n).1 ∧
      ∀ d, (t.claim heap start n).2 = .ok d →
        ∃ slot, (t.claim heap start n).1.slots[d]? = some slot ∧ slot.file = none := by
  induction n generalizing t with
  | zero => exact ⟨.refl t, fun d h => absurd h (by simp [Table.claim])⟩
  | succ n ih =>
    unfold Table.claim
    rcases hfree : t.findFree start with _ | d
    swap
    · refine ⟨.refl t, fun d' h => ?_⟩
      rw [← Except.ok.inj h]
      exact Table.findFree_spec hfree
    split_ifs with hmax
    · exact ⟨.refl t, fun d h => absurd h (by simp)⟩
    cases hgrow : t.grow heap (nextCapacity t.capacity) with
    | error e => exact ⟨.refl t, fun d h => absurd h (by simp)⟩
    | ok grown =>
      have hrest := ih grown
      exact ⟨(Table.grow_spec hgrow).1.trans hrest.1, hrest.2⟩

theorem Table.files_put (h : t.slots[d]? = some slot) (new : Slot) :
    (t.put d new).files + slot.files = t.files + new.files :=
  Tally.sum_map_set Slot.files h new

theorem Table.put_ok (h : t.Ok) (d : Nat) (slot : Slot) : (t.put d slot).Ok := by
  unfold Table.Ok Table.put Table.capacity at *
  simpa using h

structure FoundOk (t : Table) (found : List Nat) : Prop where
  nodup : found.Nodup
  free : ∀ d ∈ found, d < t.capacity ∧ t.entry d = none

theorem Table.freeIn_spec {start stop : Nat} (hd : d ∈ t.freeIn start stop) :
    start ≤ d ∧ d < stop ∧ t.entry d = none := by
  unfold Table.freeIn at hd
  rw [mem_filter, mem_range'_1] at hd
  exact ⟨by omega, by omega, by simpa using hd.2⟩

theorem Table.freeIn_nodup (t : Table) (start stop : Nat) : (t.freeIn start stop).Nodup :=
  List.Nodup.filter _ nodup_range'

theorem FoundOk.extend {found : List Nat} (h : FoundOk t found) (hok : t.Ok)
    (hmax : t.capacity < fdMax) (hgrow : t.grow heap (nextCapacity t.capacity) = .ok t') (n : Nat) :
    FoundOk t' (found ++ (t'.freeIn (nextCapacity t.capacity / 2) t'.capacity).take n) := by
  have hgrown := (Table.grow_spec hgrow).1
  have hhalf : nextCapacity t.capacity / 2 = t.capacity := by
    rw [CapacityOk.next_eq hok hmax]
    omega
  rw [hhalf]
  have hnew : ∀ d ∈ (t'.freeIn t.capacity t'.capacity).take n,
      t.capacity ≤ d ∧ d < t'.capacity ∧ t'.entry d = none := fun d hd =>
    Table.freeIn_spec (mem_of_mem_take hd)
  constructor
  · refine h.nodup.append ((t'.freeIn_nodup _ _).sublist (take_sublist _ _)) ?_
    intro d hold hd
    have hless := (h.free d hold).1
    have hmore := (hnew d hd).1
    omega
  · intro d hd
    rcases mem_append.mp hd with hold | hd
    · have hfree := h.free d hold
      exact ⟨hfree.1.trans_le hgrown.capacity_le, by rw [hgrown.entry hfree.1, hfree.2]⟩
    · exact ⟨(hnew d hd).2.1, (hnew d hd).2.2⟩

theorem Table.claimMany_spec (heap : Nat → Bool) (count n : Nat) {t : Table} {found : List Nat}
    (hok : t.Ok) (hfound : FoundOk t found) : Grown t (t.claimMany heap count n found).1 ∧
      ∀ found', (t.claimMany heap count n found).2 = .ok found' →
        FoundOk (t.claimMany heap count n found).1 found' ∧ found'.length = count := by
  induction n generalizing t found with
  | zero => exact ⟨.refl t, fun _ h => absurd h (by simp [Table.claimMany])⟩
  | succ n ih =>
    unfold Table.claimMany
    split_ifs with hmore hexact
    · cases hgrow : t.grow heap (nextCapacity t.capacity) with
      | error e => exact ⟨.refl t, fun _ h => absurd h (by simp)⟩
      | ok grown =>
        have hgrown := (Table.grow_spec hgrow).1
        have hrest := ih (hgrown.ok hok) (hfound.extend hok hmore.2 hgrow (count - found.length))
        exact ⟨hgrown.trans hrest.1, hrest.2⟩
    · refine ⟨.refl t, fun found' h => ?_⟩
      rw [← Except.ok.inj h]
      exact ⟨hfound, hexact⟩
    · exact ⟨.refl t, fun _ h => absurd h (by simp)⟩

/-! ## All tables -/

def Files.entries (k : Files) : Multiset Nat := (k.tables.map Table.files).sum

/-- `locals` are the references the running call holds in its own variables. -/
structure FilesOk (leak : Nat → Prop) (base : Base) (locals : Multiset Nat)
    (pledged : Multiset Handle) (k : Files) : Prop where
  sound : Sound leak base (k.entries + k.held + locals) pledged k
  tables : ∀ t ∈ k.tables, t.Ok

variable {leak leak' : Nat → Prop} {base : Base} {locals : Multiset Nat}
  {pledged : Multiset Handle} {k k' : Files} {f i n : Nat} {h : Handle} {table : Table}

theorem Files.entries_setTable (hn : k.tables[n]? = some t) (table : Table) :
    (k.setTable n table).entries + t.files = k.entries + table.files :=
  Tally.sum_map_set Table.files hn table

section

variable (hk : FilesOk leak base locals pledged k)
include hk

theorem FilesOk.tableOk (hn : k.tables[n]? = some t) : t.Ok := hk.tables t (mem_of_getElem? hn)

theorem FilesOk.mono (hle : ∀ i, leak i → leak' i) : FilesOk leak' base locals pledged k :=
  ⟨hk.sound.mono hle, hk.tables⟩

theorem FilesOk.tables_set (n : Nat) (hok : table.Ok) :
    ∀ t ∈ (k.setTable n table).tables, t.Ok := by
  intro t ht
  rcases mem_or_eq_of_mem_set ht with hold | rfl
  · exact hk.tables t hold
  · exact hok

theorem FilesOk.setTable (hn : k.tables[n]? = some t) (hok : table.Ok)
    (hfiles : table.files = t.files) : FilesOk leak base locals pledged (k.setTable n table) := by
  have hentries := Files.entries_setTable hn table
  rw [hfiles] at hentries
  refine ⟨?_, hk.tables_set n hok⟩
  rw [add_right_cancel hentries]
  exact hk.sound.congr rfl rfl rfl rfl

theorem FilesOk.grown (hn : k.tables[n]? = some t) (hgrown : Grown t table) :
    FilesOk leak base locals pledged (k.setTable n table) :=
  hk.setTable hn (hgrown.ok (hk.tableOk hn)) hgrown.files

end

theorem Slot.files_none (h : slot.file = none) : slot.files = 0 := by
  simp [Slot.files, h]

theorem Slot.files_some (h : slot.file = some f) : slot.files = {f} := by
  simp [Slot.files, h]

theorem Files.entries_put (hn : k.tables[n]? = some t) (hgrown : Grown t table)
    (hslot : table.slots[d]? = some slot) (hfree : slot.file = none) (flags : Nat) :
    (k.setTable n (table.put d ⟨some f, flags⟩)).entries = f ::ₘ k.entries := by
  have hput := Table.files_put hslot ⟨some f, flags⟩
  rw [Slot.files_none hfree, add_zero, hgrown.files, Slot.files_some rfl] at hput
  have hentries := Files.entries_setTable hn (table.put d ⟨some f, flags⟩)
  rw [hput, ← add_assoc] at hentries
  have hsum : (k.setTable n (table.put d ⟨some f, flags⟩)).entries + t.files =
      (k.entries + {f}) + t.files := by
    rw [hentries]
    abel
  rw [add_right_cancel hsum, add_comm, Multiset.singleton_add]

/-- Both ways of installing a description: a further reference, or the first one. -/
theorem FilesOk.share (hk : FilesOk leak base locals pledged k)
    (hf : (k.files f).references ≠ 0 ∨ filePoolSize ≤ f) (hn : k.tables[n]? = some t)
    (hgrown : Grown t table) (hslot : table.slots[d]? = some slot) (hfree : slot.file = none)
    (flags : Nat) : FilesOk leak base locals pledged (k.share n table d f flags) := by
  refine ⟨?_, hk.tables_set n (Table.put_ok (hgrown.ok (hk.tableOk hn)) _ _)⟩
  show Sound leak base ((k.setTable n (table.put d ⟨some f, flags⟩)).entries + k.held + locals)
    pledged _
  rw [Files.entries_put hn hgrown hslot hfree, Multiset.cons_add, Multiset.cons_add]
  have hsame : Sound leak base (k.entries + k.held + locals) pledged
      (k.setTable n (table.put d ⟨some f, flags⟩)) := hk.sound.congr rfl rfl rfl rfl
  exact hsame.acquire hf

theorem FilesOk.first (hk : FilesOk leak base locals (h ::ₘ pledged) k) (hi : i < filePoolSize)
    (hzero : (k.files i).references = 0) (hh : (k.files i).handle = some h)
    (hleak : ∀ j ≠ i, leak j → leak' j) (hn : k.tables[n]? = some t) (hgrown : Grown t table)
    (hslot : table.slots[d]? = some slot) (hfree : slot.file = none) (flags : Nat) :
    FilesOk leak' base locals pledged (k.share n table d i flags) := by
  refine ⟨?_, hk.tables_set n (Table.put_ok (hgrown.ok (hk.tableOk hn)) _ _)⟩
  show Sound leak' base ((k.setTable n (table.put d ⟨some i, flags⟩)).entries + k.held + locals)
    pledged _
  rw [Files.entries_put hn hgrown hslot hfree, Multiset.cons_add, Multiset.cons_add]
  have hsame : Sound leak base (k.entries + k.held + locals) (h ::ₘ pledged)
      (k.setTable n (table.put d ⟨some i, flags⟩)) := hk.sound.congr rfl rfl rfl rfl
  exact hsame.create hi hzero hh hleak

theorem FilesOk.acquire (hk : FilesOk leak base locals pledged k)
    (hf : (k.files f).references ≠ 0 ∨ filePoolSize ≤ f) :
    FilesOk leak base (f ::ₘ locals) pledged (k.fileAcquire f) := by
  refine ⟨?_, hk.tables⟩
  rw [Multiset.add_cons]
  exact hk.sound.acquire hf

theorem fileRelease_frame (n : Nat) (k : Files) (f : Nat) :
    (fileRelease n k f).tables = k.tables ∧ (fileRelease n k f).held = k.held := by
  induction n generalizing k f with
  | zero => exact ⟨rfl, rfl⟩
  | succ n ih =>
    have hfold : ∀ (gs : List Nat) (k : Files), (gs.foldl (fileRelease n) k).tables = k.tables ∧
        (gs.foldl (fileRelease n) k).held = k.held := fun gs k =>
      foldlRecOn (motive := fun k' => k'.tables = k.tables ∧ k'.held = k.held) gs _ ⟨rfl, rfl⟩
        fun k' h g _ => ⟨(ih k' g).1.trans h.1, (ih k' g).2.trans h.2⟩
    unfold fileRelease
    dsimp only
    split_ifs
    · exact ⟨rfl, rfl⟩
    · cases (k.files f).handle with
      | none => exact ⟨rfl, rfl⟩
      | some h => exact hfold _ _
    · exact ⟨rfl, rfl⟩

@[simp]
theorem Files.tables_release (k : Files) (f : Nat) : (k.release f).tables = k.tables :=
  (fileRelease_frame _ k f).1

@[simp]
theorem Files.held_release (k : Files) (f : Nat) : (k.release f).held = k.held :=
  (fileRelease_frame _ k f).2

@[simp]
theorem Files.entries_release (k : Files) (f : Nat) : (k.release f).entries = k.entries := by
  rw [Files.entries, Files.tables_release, Files.entries]

theorem FilesOk.release (hk : FilesOk leak base (f ::ₘ locals) pledged k) :
    FilesOk leak base locals pledged (k.release f) := by
  have hsound := hk.sound
  rw [Multiset.add_cons] at hsound
  refine ⟨?_, by simpa using hk.tables⟩
  rw [Files.entries_release, Files.held_release]
  exact hsound.release

theorem FilesOk.releases (gs : List Nat)
    (hk : FilesOk leak base ((gs : Multiset Nat) + locals) pledged k) :
    FilesOk leak base locals pledged (gs.foldl Files.release k) := by
  induction gs generalizing k with
  | nil => simpa using hk
  | cons g gs ih =>
    rw [← Multiset.cons_coe, Multiset.cons_add] at hk
    exact ih hk.release

theorem Table.entry_slot (h : t.entry d = some f) :
    ∃ slot, t.slots[d]? = some slot ∧ slot.file = some f := by
  unfold Table.entry at h
  cases hslot : t.slots[d]? with
  | none => simp [hslot] at h
  | some slot => exact ⟨slot, rfl, by simpa [hslot] using h⟩

theorem Files.putSlot_eq (hn : k.tables[n]? = some t) (slot : Slot) :
    k.putSlot n d slot = k.setTable n (t.put d slot) := by
  rw [Files.putSlot, hn]

theorem Files.entries_clear (hn : k.tables[n]? = some t) (hslot : t.slots[d]? = some slot) :
    k.entries = slot.files + (k.putSlot n d .empty).entries := by
  rw [Files.putSlot_eq hn]
  have hput := Table.files_put hslot .empty
  rw [Slot.files_none (rfl : Slot.empty.file = none), add_zero] at hput
  have hentries := Files.entries_setTable hn (t.put d .empty)
  rw [← hput] at hentries
  have hsum : k.entries + (t.put d .empty).files =
      (slot.files + (k.setTable n (t.put d .empty)).entries) + (t.put d .empty).files := by
    rw [← hentries]
    abel
  exact add_right_cancel hsum

section

variable (hk : FilesOk leak base locals pledged k)
include hk

theorem FilesOk.entry_used (hn : k.tables[n]? = some t) (hd : t.entry d = some f) :
    (k.files f).references ≠ 0 := by
  obtain ⟨slot, hslot, hfile⟩ := Table.entry_slot hd
  have hentries := Files.entries_clear hn hslot
  rw [Slot.files_some hfile] at hentries
  have hcount := hk.sound.counted f
  rw [hentries] at hcount
  simp only [Multiset.count_add, Multiset.count_singleton_self] at hcount
  omega

theorem FilesOk.tables_put (n d : Nat) (slot : Slot) : ∀ t ∈ (k.putSlot n d slot).tables, t.Ok := by
  unfold Files.putSlot
  cases hn : k.tables[n]? with
  | none => exact hk.tables
  | some t => exact hk.tables_set n (Table.put_ok (hk.tableOk hn) d slot)

omit hk in
theorem Files.putSlot_frame (k : Files) (n d : Nat) (slot : Slot) :
    (k.putSlot n d slot).files = k.files ∧ (k.putSlot n d slot).objects = k.objects ∧
    (k.putSlot n d slot).opened = k.opened ∧ (k.putSlot n d slot).released = k.released ∧
    (k.putSlot n d slot).held = k.held := by
  unfold Files.putSlot
  cases k.tables[n]? <;> exact ⟨rfl, rfl, rfl, rfl, rfl⟩

theorem FilesOk.clear (hslot : k.slot n d = some slot) :
    FilesOk leak base (slot.files + locals) pledged (k.putSlot n d .empty) := by
  have hframe := k.putSlot_frame n d .empty
  obtain ⟨t, hn, hd⟩ := Option.bind_eq_some_iff.mp hslot
  have hentries := Files.entries_clear hn hd
  refine ⟨?_, hk.tables_put n d .empty⟩
  have hsound := hk.sound
  have hsum : (k.putSlot n d .empty).entries + (k.putSlot n d .empty).held + (slot.files + locals) =
      k.entries + k.held + locals := by
    rw [hentries, hframe.2.2.2.2]
    abel
  rw [hsum]
  exact hsound.congr hframe.1 hframe.2.1 hframe.2.2.1 hframe.2.2.2.1

theorem FilesOk.releaseEntry (hslot : k.slot n d = some slot) :
    FilesOk leak base locals pledged ((slot.file.elim k k.release).putSlot n d .empty) := by
  have hcleared := hk.clear hslot
  rcases hfile : slot.file with _ | f
  · rw [Slot.files_none hfile, zero_add] at hcleared
    exact hcleared
  rw [Slot.files_some hfile, Multiset.singleton_add] at hcleared
  have hframe := (k.release f).putSlot_frame n d .empty
  have htables : ((k.release f).putSlot n d .empty).tables = (k.putSlot n d .empty).tables := by
    unfold Files.putSlot
    rw [Files.tables_release]
    cases k.tables[n]? with
    | none => exact Files.tables_release k f
    | some t => simp [Files.setTable]
  have hframe' := k.putSlot_frame n d .empty
  have hbefore : Sound leak base (f ::ₘ ((k.putSlot n d .empty).entries + k.held + locals))
      pledged k := by
    have hsound := hcleared.sound
    rw [Multiset.add_cons, hframe'.2.2.2.2] at hsound
    exact hsound.congr hframe'.1.symm hframe'.2.1.symm hframe'.2.2.1.symm hframe'.2.2.2.1.symm
  refine ⟨?_, ?_⟩
  · show Sound leak base (((k.release f).putSlot n d .empty).entries +
      ((k.release f).putSlot n d .empty).held + locals) pledged _
    have hentries : ((k.release f).putSlot n d .empty).entries =
        (k.putSlot n d .empty).entries := by
      rw [Files.entries, htables, Files.entries]
    rw [hentries, hframe.2.2.2.2, Files.held_release]
    exact hbefore.release.congr hframe.1 hframe.2.1 hframe.2.2.1 hframe.2.2.2.1
  · show ∀ t ∈ ((k.release f).putSlot n d .empty).tables, t.Ok
    rw [htables]
    exact hcleared.tables

end

end XsCore.File
