import XsCore.Foundation.Machine
import Mathlib.Data.Fintype.Basic
import Mathlib.Algebra.Group.Nat.Defs

/-! # The sector cache

The write-back cache of `kernel/bufcache.c` in front of the block device: 64 sectors, the least
recently used of which is evicted when none is unused.  Through the cache the device reads as one
flat array of sectors.
-/

namespace XsCore.Storage

open Function

abbrev Sector : Type := Vector UInt8 512

structure Disk where
  present : Bool
  healthy : Nat → Bool
  content : Nat → Sector

def Disk.readSector (d : Disk) (sector : Nat) : Option Sector :=
  if d.healthy sector then some (d.content sector) else none

def Disk.writeSector (d : Disk) (sector : Nat) (data : Sector) : Disk × Bool :=
  if d.healthy sector then ({ d with content := update d.content sector data }, true)
  else (d, false)

structure BufEntry where
  sector : Nat
  valid : Bool
  dirty : Bool
  accessTick : Nat
  data : Sector

def cacheSectors : Nat := 64

structure BufCache where
  entries : Fin cacheSectors → BufEntry
  globalTick : Nat
  ready : Bool
  disk : Disk

def BufEntry.blank : BufEntry := ⟨0, false, false, 0, Vector.replicate 512 0⟩

def BufCache.reset (c : BufCache) : BufCache :=
  { c with entries := fun _ => .blank, globalTick := 0, ready := true }

def bootCache (disk : Disk) : BufCache := ⟨fun _ => .blank, 0, false, disk⟩

def BufCache.prepare (c : BufCache) : BufCache := if c.ready then c else c.reset

def BufCache.set (c : BufCache) (i : Fin cacheSectors) (e : BufEntry) : BufCache :=
  { c with entries := update c.entries i e }

def BufCache.nextTick (c : BufCache) : Nat := (c.globalTick + 1) % 2 ^ 64

def findEntry (c : BufCache) (sector : Nat) : Option (Fin cacheSectors) :=
  (List.finRange cacheSectors).find? fun i => (c.entries i).valid && (c.entries i).sector == sector

def findUnused (c : BufCache) : Option (Fin cacheSectors) :=
  (List.finRange cacheSectors).find? fun i => !(c.entries i).valid

def findVictim (c : BufCache) : Fin cacheSectors :=
  (List.finRange cacheSectors).foldl (fun best i =>
    if (c.entries i).accessTick < (c.entries best).accessTick then i else best) ⟨0, by decide⟩

/-- Write the victim back; a failing device is not noticed. -/
def writeBack (c : BufCache) (i : Fin cacheSectors) : BufCache :=
  if (c.entries i).dirty then
    { c.set i { c.entries i with dirty := false } with
      disk := (c.disk.writeSector (c.entries i).sector (c.entries i).data).1 }
  else c

/-- Give an entry to a sector; its data is still the old one. -/
def claimEntry (c : BufCache) (i : Fin cacheSectors) (sector : Nat) : BufCache :=
  { c.set i ⟨sector, true, false, c.nextTick, (c.entries i).data⟩ with globalTick := c.nextTick }

def allocateEntry (c : BufCache) (sector : Nat) : BufCache × Fin cacheSectors :=
  match findUnused c with
  | some i => (claimEntry c i sector, i)
  | none => (claimEntry (writeBack c (findVictim c)) (findVictim c) sector, findVictim c)

def touch (c : BufCache) (i : Fin cacheSectors) : BufCache :=
  { c.set i { c.entries i with accessTick := c.nextTick } with globalTick := c.nextTick }

/-- The part of `xscore_bufcache_read` after a miss. -/
def fillEntry (c : BufCache) (i : Fin cacheSectors) (sector : Nat) : BufCache × Option Sector :=
  match c.disk.readSector sector with
  | some data => (c.set i { c.entries i with data := data }, some data)
  | none => (c.set i { c.entries i with valid := false, dirty := false }, none)

def bufcacheRead (c : BufCache) (sector : Nat) : BufCache × Option Sector :=
  let c := c.prepare
  if !c.disk.present then (c, none)
  else
    match findEntry c sector with
    | some i => (touch c i, some (c.entries i).data)
    | none => fillEntry (allocateEntry c sector).1 (allocateEntry c sector).2 sector

def storeEntry (c : BufCache) (i : Fin cacheSectors) (data : Sector) : BufCache :=
  touch (c.set i { c.entries i with data := data, valid := true, dirty := true }) i

def bufcacheWrite (c : BufCache) (sector : Nat) (data : Sector) : BufCache :=
  let c := c.prepare
  if !c.disk.present then c
  else
    match findEntry c sector with
    | some i => storeEntry c i data
    | none => storeEntry (allocateEntry c sector).1 (allocateEntry c sector).2 data

def flushEntry (c : BufCache) (i : Fin cacheSectors) : BufCache :=
  if (c.entries i).valid && (c.entries i).dirty then
    match c.disk.writeSector (c.entries i).sector (c.entries i).data with
    | (disk, true) => { c.set i { c.entries i with dirty := false } with disk := disk }
    | (disk, false) => { c with disk := disk }
  else c

def bufcacheSync (c : BufCache) : BufCache :=
  if !c.ready || !c.disk.present then c
  else (List.finRange cacheSectors).foldl flushEntry c

/-! ## Requests, and the flat array they stand for -/

inductive Request where
  | read (sector : Nat)
  | write (sector : Nat) (data : Sector)
  | sync

/-- A request to the cache and the data it returns. -/
def BufCache.serve (c : BufCache) : Request → BufCache × Option Sector
  | .read sector => bufcacheRead c sector
  | .write sector data => (bufcacheWrite c sector data, none)
  | .sync => (bufcacheSync c, none)

/-- The same request to a flat array of sectors. -/
def serveFlat (array : Nat → Sector) : Request → (Nat → Sector) × Option Sector
  | .read sector => (array, some (array sector))
  | .write sector data => (update array sector data, none)
  | .sync => (array, none)

/-! ## Coherence -/

/-- The cache keeps `array`: what is cached is what was written last, and what the device lacks is
cached and dirty. -/
structure Kept (c : BufCache) (array : Nat → Sector) : Prop where
  fresh : c.ready = false → ∀ i, (c.entries i).valid = false
  dirty_valid : ∀ i, (c.entries i).dirty = true → (c.entries i).valid = true
  unique : ∀ i j, (c.entries i).valid = true → (c.entries j).valid = true →
    (c.entries i).sector = (c.entries j).sector → i = j
  data : ∀ i, (c.entries i).valid = true → (c.entries i).data = array (c.entries i).sector
  clean : ∀ sector, c.disk.content sector ≠ array sector →
    ∃ i, (c.entries i).valid = true ∧ (c.entries i).dirty = true ∧ (c.entries i).sector = sector

/-- The cache over a working device shows `array`. -/
structure Coherent (c : BufCache) (array : Nat → Sector) : Prop extends Kept c array where
  present : c.disk.present = true
  healthy : ∀ sector, c.disk.healthy sector = true

variable {c : BufCache} {array : Nat → Sector}

theorem Kept.coherent (h : Kept c array) (hpresent : c.disk.present)
    (hhealthy : ∀ sector, c.disk.healthy sector) : Coherent c array :=
  { h with present := hpresent, healthy := hhealthy }

theorem bootCache_kept (disk : Disk) : Kept (bootCache disk) disk.content where
  fresh := fun _ _ => rfl
  dirty_valid := fun _ h => by simp [bootCache, BufEntry.blank] at h
  unique := fun _ _ h => by simp [bootCache, BufEntry.blank] at h
  data := fun _ h => by simp [bootCache, BufEntry.blank] at h
  clean := fun sector h => absurd rfl h

theorem Kept.prepare (h : Kept c array) : Kept c.prepare array ∧ c.prepare.ready := by
  unfold BufCache.prepare
  split_ifs with hready
  · exact ⟨h, hready⟩
  refine ⟨⟨fun _ _ => rfl, fun _ hd => ?_, fun _ _ hv => ?_, fun _ hv => ?_,
    fun sector hdiff => ?_⟩, rfl⟩
  · simp [BufCache.reset, BufEntry.blank] at hd
  · simp [BufCache.reset, BufEntry.blank] at hv
  · simp [BufCache.reset, BufEntry.blank] at hv
  · obtain ⟨i, hvalid, -, -⟩ := h.clean sector hdiff
    rw [h.fresh (by simpa using hready) i] at hvalid
    cases hvalid

variable {i : Fin cacheSectors} {sector : Nat}

theorem findEntry_some (h : findEntry c sector = some i) :
    (c.entries i).valid ∧ (c.entries i).sector = sector := by
  have hfound := List.find?_some h
  simpa using hfound

theorem findEntry_none (h : findEntry c sector = none) (i : Fin cacheSectors)
    (hvalid : (c.entries i).valid) : (c.entries i).sector ≠ sector := by
  have hmiss := List.find?_eq_none.mp h i (List.mem_finRange i)
  simpa [hvalid] using hmiss

/-- Rewriting one entry, when the new one is right on its own and covers what the old one
covered. -/
theorem Kept.set (h : Kept c array) {e : BufEntry} {c' : BufCache} {array' : Nat → Sector}
    (hready : c.ready) (hentries : c'.entries = update c.entries i e)
    (hdisk : c'.disk = c.disk) (hkeep : c'.ready = c.ready) (hvalid : e.valid)
    (hother : ∀ j ≠ i, (c.entries j).valid → (c.entries j).sector ≠ e.sector)
    (hdata : e.data = array' e.sector) (harray : ∀ sector ≠ e.sector, array' sector = array sector)
    (hold : (c.entries i).dirty → (c.entries i).sector = e.sector)
    (hcover : e.dirty ∨ c.disk.content e.sector = array' e.sector) : Kept c' array' := by
  have hself : c'.entries i = e := by rw [hentries, update_self]
  have hrest : ∀ j ≠ i, c'.entries j = c.entries j := fun j hj => by
    rw [hentries, update_of_ne hj]
  refine ⟨fun hfresh => ?_, fun j => ?_, fun j k => ?_, fun j => ?_, fun sector => ?_⟩
  · rw [hkeep, hready] at hfresh
    cases hfresh
  · by_cases hj : j = i
    · rw [hj, hself]
      exact fun _ => hvalid
    · rw [hrest j hj]
      exact h.dirty_valid j
  · by_cases hj : j = i
    · by_cases hk : k = i
      · exact fun _ _ _ => hj.trans hk.symm
      · rw [hj, hself, hrest k hk]
        exact fun _ hkv hsame => absurd hsame.symm (hother k hk hkv)
    · by_cases hk : k = i
      · rw [hk, hself, hrest j hj]
        exact fun hjv _ hsame => absurd hsame (hother j hj hjv)
      · rw [hrest j hj, hrest k hk]
        exact h.unique j k
  · by_cases hj : j = i
    · rw [hj, hself]
      exact fun _ => hdata
    rw [hrest j hj]
    intro hjv
    rw [harray _ (hother j hj hjv)]
    exact h.data j hjv
  · intro hdiff
    rw [hdisk] at hdiff
    by_cases hsector : sector = e.sector
    · refine ⟨i, ?_⟩
      rw [hself]
      rcases hcover with hdirty | hsame
      · exact ⟨hvalid, hdirty, hsector.symm⟩
      · rw [hsector] at hdiff
        exact absurd hsame hdiff
    · rw [harray sector hsector] at hdiff
      obtain ⟨j, hjv, hjd, hjs⟩ := h.clean sector hdiff
      have hj : j ≠ i := by
        rintro rfl
        exact hsector (hjs ▸ hold hjd)
      exact ⟨j, by rw [hrest j hj]; exact ⟨hjv, hjd, hjs⟩⟩

theorem Kept.touch (h : Kept c array) (hready : c.ready)
    (hvalid : (c.entries i).valid) : Kept (touch c i) array := by
  refine h.set (i := i) hready rfl rfl rfl hvalid (fun j hj hjv hsame => ?_) (h.data i hvalid)
    (fun _ _ => rfl) (fun _ => rfl) ?_
  · exact hj (h.unique j i hjv hvalid hsame)
  · show (c.entries i).dirty ∨ _
    by_contra hneither
    rw [not_or] at hneither
    obtain ⟨j, hjv, hjd, hjs⟩ := h.clean _ hneither.2
    obtain rfl := h.unique j i hjv hvalid hjs
    exact hneither.1 hjd

/-- An entry that was given to a sector nobody has cached, when it holds nothing the device lacks,
may be dropped again. -/
theorem Kept.drop (h : Kept c array) {e : BufEntry} {c' : BufCache} (hready : c.ready)
    (hentries : c'.entries = update c.entries i e) (hdisk : c'.disk = c.disk)
    (hkeep : c'.ready = c.ready) (hclean : (c.entries i).dirty = false) (hinvalid : e.valid = false)
    (hdropped : e.dirty = false) : Kept c' array := by
  have hself : c'.entries i = e := by rw [hentries, update_self]
  have hrest : ∀ j ≠ i, c'.entries j = c.entries j := fun j hj => by
    rw [hentries, update_of_ne hj]
  have hgone : ∀ j, (c'.entries j).valid → j ≠ i := by
    rintro j hjv rfl
    rw [hself, hinvalid] at hjv
    cases hjv
  refine ⟨fun hfresh => ?_, fun j hjd => ?_, fun j k hjv hkv => ?_, fun j hjv => ?_,
    fun sector hdiff => ?_⟩
  · rw [hkeep, hready] at hfresh
    cases hfresh
  · by_cases hj : j = i
    · rw [hj, hself, hdropped] at hjd
      cases hjd
    · rw [hrest j hj] at hjd ⊢
      exact h.dirty_valid j hjd
  · have hj := hgone j hjv
    have hk := hgone k hkv
    rw [hrest j hj] at hjv ⊢
    rw [hrest k hk] at hkv ⊢
    exact h.unique j k hjv hkv
  · have hj := hgone j hjv
    rw [hrest j hj] at hjv ⊢
    exact h.data j hjv
  · rw [hdisk] at hdiff
    obtain ⟨j, hjv, hjd, hjs⟩ := h.clean sector hdiff
    have hj : j ≠ i := by
      rintro rfl
      rw [hclean] at hjd
      cases hjd
    exact ⟨j, by rw [hrest j hj]; exact ⟨hjv, hjd, hjs⟩⟩

@[simp] theorem writeSector_healthy {d : Disk} (h : d.healthy sector)
    (data : Sector) : d.writeSector sector data =
      ({ d with content := update d.content sector data }, true) := by
  simp [Disk.writeSector, h]

def BufCache.written (c : BufCache) (i : Fin cacheSectors) : BufCache :=
  { c.set i { c.entries i with dirty := false } with
    disk := { c.disk with
      content := update c.disk.content (c.entries i).sector (c.entries i).data } }

theorem written_entries (c : BufCache) (i j : Fin cacheSectors) :
    ((c.written i).entries j).valid = (c.entries j).valid ∧
      ((c.written i).entries j).sector = (c.entries j).sector ∧
      ((c.written i).entries j).data = (c.entries j).data ∧
      ((c.written i).entries j).dirty = (decide (j ≠ i) && (c.entries j).dirty) := by
  by_cases hj : j = i <;> simp [BufCache.written, BufCache.set, hj]

theorem Kept.written (h : Kept c array) (hvalid : (c.entries i).valid) :
    Kept (c.written i) array := by
  refine ⟨fun hfresh j => ?_, fun j hdirty => ?_, fun j k hjv hkv hsame => ?_, fun j hjv => ?_,
    fun sector hdiff => ?_⟩
  · rw [(written_entries c i j).1]
    exact h.fresh hfresh j
  · rw [(written_entries c i j).2.2.2, Bool.and_eq_true] at hdirty
    rw [(written_entries c i j).1]
    exact h.dirty_valid j hdirty.2
  · rw [(written_entries c i j).1] at hjv
    rw [(written_entries c i k).1] at hkv
    rw [(written_entries c i j).2.1, (written_entries c i k).2.1] at hsame
    exact h.unique j k hjv hkv hsame
  · rw [(written_entries c i j).1] at hjv
    rw [(written_entries c i j).2.1, (written_entries c i j).2.2.1]
    exact h.data j hjv
  · have hsector : sector ≠ (c.entries i).sector := by
      rintro rfl
      refine hdiff ?_
      show update c.disk.content (c.entries i).sector (c.entries i).data _ = _
      rw [update_self]
      exact h.data i hvalid
    have hbefore : c.disk.content sector ≠ array sector := by
      have hcontent : (c.written i).disk.content sector = c.disk.content sector :=
        update_of_ne hsector _ _
      rwa [hcontent] at hdiff
    obtain ⟨j, hjv, hjd, hjs⟩ := h.clean sector hbefore
    have hj : j ≠ i := by
      rintro rfl
      exact hsector hjs.symm
    refine ⟨j, (written_entries c i j).1 ▸ hjv, ?_, (written_entries c i j).2.1 ▸ hjs⟩
    rw [(written_entries c i j).2.2.2]
    simp [hj, hjd]

theorem writeSector_status (d : Disk) (sector : Nat) (data : Sector) :
    (d.writeSector sector data).1.present = d.present ∧
      (d.writeSector sector data).1.healthy = d.healthy := by
  unfold Disk.writeSector
  split <;> exact ⟨rfl, rfl⟩

/-- The device answers as before: the same sectors fail. -/
def BufCache.SameDevice (c c' : BufCache) : Prop :=
  c'.disk.present = c.disk.present ∧ c'.disk.healthy = c.disk.healthy

theorem writeBack_device (c : BufCache) (i : Fin cacheSectors) : c.SameDevice (writeBack c i) := by
  unfold writeBack
  split
  · exact writeSector_status _ _ _
  · exact ⟨rfl, rfl⟩

theorem prepare_disk (c : BufCache) : c.prepare.disk = c.disk := by
  unfold BufCache.prepare
  split <;> rfl

theorem allocateEntry_device (c : BufCache) (sector : Nat) :
    c.SameDevice (allocateEntry c sector).1 := by
  unfold allocateEntry
  cases findUnused c with
  | some i => exact ⟨rfl, rfl⟩
  | none => exact writeBack_device c _

section

variable (h : Kept c array)
include h

theorem Kept.writeBack (hwrite : (c.entries i).dirty → c.disk.healthy (c.entries i).sector) :
    Kept (writeBack c i) array ∧ ((writeBack c i).entries i).dirty = false ∧
      (writeBack c i).ready = c.ready ∧
      ∀ j, ((writeBack c i).entries j).valid = (c.entries j).valid ∧
        ((writeBack c i).entries j).sector = (c.entries j).sector := by
  unfold Storage.writeBack
  split_ifs with hdirty
  · rw [writeSector_healthy (hwrite hdirty)]
    change Kept (c.written i) array ∧ ((c.written i).entries i).dirty = false ∧
      (c.written i).ready = c.ready ∧ ∀ j, ((c.written i).entries j).valid = (c.entries j).valid ∧
        ((c.written i).entries j).sector = (c.entries j).sector
    refine ⟨h.written (h.dirty_valid i hdirty), ?_, rfl, fun j => ?_⟩
    · rw [(written_entries c i i).2.2.2]
      simp
    · exact ⟨(written_entries c i j).1, (written_entries c i j).2.1⟩
  · exact ⟨h, by simpa using hdirty, rfl, fun _ => ⟨rfl, rfl⟩⟩

/-- The eviction that a request for a sector may need does not lose the victim. -/
def EvictionSucceeds (c : BufCache) (sector : Nat) : Prop :=
  findEntry c sector = none → findUnused c = none →
    (c.entries (findVictim c)).dirty = true →
      c.disk.healthy (c.entries (findVictim c)).sector = true

theorem Kept.allocateEntry (hmiss : findEntry c sector = none) (hevict : EvictionSucceeds c sector) :
    ∃ c₁ i, allocateEntry c sector = (claimEntry c₁ i sector, i) ∧ Kept c₁ array ∧
      c₁.ready = c.ready ∧ (c₁.entries i).dirty = false ∧
      ∀ j, (c₁.entries j).valid → (c₁.entries j).sector ≠ sector := by
  unfold Storage.allocateEntry
  cases hunused : findUnused c with
  | some i =>
    have hinvalid : (c.entries i).valid = false := by
      have hfound := List.find?_some hunused
      simpa using hfound
    refine ⟨c, i, rfl, h, rfl, ?_, findEntry_none hmiss⟩
    by_contra hdirty
    rw [h.dirty_valid i (by simpa using hdirty)] at hinvalid
    cases hinvalid
  | none =>
    obtain ⟨hback, hclean, hready, hsame⟩ := h.writeBack (hevict hmiss hunused)
    refine ⟨Storage.writeBack c (findVictim c), findVictim c, rfl, hback, hready, hclean,
      fun j hjv => ?_⟩
    rw [(hsame j).1] at hjv
    rw [(hsame j).2]
    exact findEntry_none hmiss j hjv

theorem Kept.uncached (hmiss : ∀ j, (c.entries j).valid → (c.entries j).sector ≠ sector) :
    c.disk.content sector = array sector := by
  by_contra hdiff
  obtain ⟨j, hjv, -, hjs⟩ := h.clean sector hdiff
  exact hmiss j hjv hjs

/-- A read returns what was written last, or nothing when there is no device or it fails. -/
theorem Kept.read (hevict : EvictionSucceeds c.prepare sector) :
    Kept (bufcacheRead c sector).1 array ∧
      ((bufcacheRead c sector).2 = some (array sector) ∨ (bufcacheRead c sector).2 = none ∧
        (c.disk.present = false ∨ c.disk.healthy sector = false)) := by
  obtain ⟨hprep, hready⟩ := h.prepare
  unfold bufcacheRead
  rw [← prepare_disk c]
  generalize c.prepare = p at hprep hready hevict
  by_cases hpresent : p.disk.present
  · simp only [hpresent, Bool.not_true, Bool.false_eq_true, if_false]
    rcases hfind : findEntry p sector with _ | i
    swap
    · obtain ⟨hvalid, hsector⟩ := findEntry_some hfind
      refine ⟨hprep.touch hready hvalid, .inl ?_⟩
      show some (p.entries i).data = some (array sector)
      rw [hprep.data i hvalid, hsector]
    obtain ⟨c₁, i, halloc, hkept, hkeep, hclean, hmiss⟩ := hprep.allocateEntry hfind hevict
    have hhealthy : c₁.disk.healthy = p.disk.healthy := by
      have hsame := (allocateEntry_device p sector).2
      rw [halloc] at hsame
      exact hsame
    simp only [halloc, fillEntry]
    by_cases hread : c₁.disk.healthy sector
    · have hdata : (claimEntry c₁ i sector).disk.readSector sector = some (array sector) := by
        show c₁.disk.readSector sector = some (array sector)
        rw [Disk.readSector, if_pos hread, hkept.uncached hmiss]
      simp only [hdata]
      refine ⟨?_, .inl trivial⟩
      refine hkept.set (i := i) (e := ⟨sector, true, false, c₁.nextTick, array sector⟩)
        (hkeep.trans hready) ?_ rfl rfl rfl (fun j _ hjv => hmiss j hjv) rfl (fun _ _ => rfl) ?_
        (.inr (hkept.uncached hmiss))
      · simp [BufCache.set, claimEntry]
      · simp [hclean]
    · have hdata : (claimEntry c₁ i sector).disk.readSector sector = none := by
        show c₁.disk.readSector sector = none
        rw [Disk.readSector, if_neg hread]
      simp only [hdata]
      refine ⟨?_, .inr ⟨trivial, .inr ?_⟩⟩
      · refine hkept.drop (i := i) (e := ⟨sector, false, false, c₁.nextTick, (c₁.entries i).data⟩)
          (hkeep.trans hready) ?_ rfl rfl hclean rfl rfl
        simp [BufCache.set, claimEntry]
      · rw [← hhealthy]
        simpa using hread
  · simp only [hpresent, Bool.not_false, if_true]
    exact ⟨hprep, .inr ⟨trivial, .inl trivial⟩⟩

theorem Kept.write (hpresent : c.disk.present) (hevict : EvictionSucceeds c.prepare sector)
    (data : Sector) : Kept (bufcacheWrite c sector data) (update array sector data) := by
  obtain ⟨hprep, hready⟩ := h.prepare
  rw [← prepare_disk c] at hpresent
  unfold bufcacheWrite
  generalize c.prepare = p at hprep hready hevict hpresent
  simp only [hpresent, Bool.not_true, Bool.false_eq_true, if_false]
  have hself : data = update array sector data sector := by rw [update_self]
  have harray : ∀ other, other ≠ sector →
      update array sector data other = array other :=
    fun other hother => update_of_ne hother _ _
  cases hfind : findEntry p sector with
  | some i =>
    obtain ⟨hvalid, hsector⟩ := findEntry_some hfind
    refine hprep.set (i := i) (e := ⟨sector, true, true, p.nextTick, data⟩) hready ?_ rfl rfl rfl
      (fun j hj hjv hjs => ?_) hself harray (fun _ => hsector) (.inl rfl)
    · simp [storeEntry, Storage.touch, BufCache.set, hsector, BufCache.nextTick]
    · exact hj (hprep.unique j i hjv hvalid (hjs.trans hsector.symm))
  | none =>
    obtain ⟨c₁, i, halloc, hkept, hkeep, hclean, hmiss⟩ := hprep.allocateEntry hfind hevict
    rw [halloc]
    refine hkept.set (i := i)
      (e := ⟨sector, true, true, (claimEntry c₁ i sector).nextTick, data⟩) (hkeep.trans hready) ?_
      rfl rfl rfl (fun j _ hjv => hmiss j hjv) hself harray ?_ (.inl rfl)
    · simp [storeEntry, Storage.touch, BufCache.set, claimEntry, BufCache.nextTick]
    · simp [hclean]

def FlushSucceeds (c : BufCache) : Prop :=
  ∀ i, (c.entries i).dirty = true → c.disk.healthy (c.entries i).sector = true

theorem flushEntry_eq (hflush : FlushSucceeds c) (i : Fin cacheSectors) :
    flushEntry c i = if (c.entries i).dirty then c.written i else c := by
  unfold flushEntry
  by_cases hdirty : (c.entries i).dirty
  · have hboth : ((c.entries i).valid && (c.entries i).dirty) := by
      rw [hdirty, h.dirty_valid i hdirty]
      rfl
    rw [if_pos hboth, if_pos hdirty, writeSector_healthy (hflush i hdirty)]
    rfl
  · simp [hdirty]

theorem Kept.flushEntry (hflush : FlushSucceeds c) (i : Fin cacheSectors) :
    Kept (flushEntry c i) array ∧ FlushSucceeds (flushEntry c i) ∧
      ((flushEntry c i).entries i).dirty = false ∧
      ∀ j, (c.entries j).dirty = false → ((flushEntry c i).entries j).dirty = false := by
  rw [flushEntry_eq h hflush]
  split_ifs with hdirty
  · refine ⟨h.written (h.dirty_valid i hdirty), fun j hj => ?_, ?_, fun j hj => ?_⟩
    · rw [(written_entries c i j).2.2.2, Bool.and_eq_true] at hj
      rw [(written_entries c i j).2.1]
      exact hflush j hj.2
    · simp [(written_entries c i i).2.2.2]
    · simp [(written_entries c i j).2.2.2, hj]
  · exact ⟨h, hflush, by simpa using hdirty, fun _ hj => hj⟩

end

theorem Kept.flush (is : List (Fin cacheSectors)) (h : Kept c array) (hflush : FlushSucceeds c) :
    Kept (is.foldl Storage.flushEntry c) array ∧
      ∀ j, j ∈ is ∨ (c.entries j).dirty = false →
        ((is.foldl Storage.flushEntry c).entries j).dirty = false := by
  induction is generalizing c with
  | nil => exact ⟨h, fun j hj => by simpa using hj⟩
  | cons i is ih =>
    obtain ⟨hkept, hstill, hclean, hrest⟩ := h.flushEntry hflush i
    have htail := ih hkept hstill
    refine ⟨htail.1, fun j hj => htail.2 j ?_⟩
    rcases hj with hmem | hj
    · rcases List.mem_cons.mp hmem with rfl | hmem
      · exact .inr hclean
      · exact .inl hmem
    · exact .inr (hrest j hj)

theorem Kept.sync (h : Kept c array) (hpresent : c.disk.present) (hflush : FlushSucceeds c) :
    Kept (bufcacheSync c) array ∧ (bufcacheSync c).disk.content = array := by
  unfold bufcacheSync
  by_cases hready : c.ready
  · simp only [hready, hpresent, Bool.not_true, Bool.or_self, Bool.false_eq_true, if_false]
    obtain ⟨hkept, hclean⟩ := h.flush (List.finRange cacheSectors) hflush
    refine ⟨hkept, funext fun sector => ?_⟩
    by_contra hdiff
    obtain ⟨j, -, hdirty, -⟩ := hkept.clean sector hdiff
    rw [hclean j (.inl (List.mem_finRange j))] at hdirty
    cases hdirty
  · simp only [Bool.not_eq_true] at hready
    simp only [hready, Bool.not_false, Bool.true_or, if_true]
    refine ⟨h, funext fun sector => ?_⟩
    by_contra hdiff
    obtain ⟨j, hvalid, -, -⟩ := h.clean sector hdiff
    rw [h.fresh hready j] at hvalid
    cases hvalid

/-! ## A device that works -/

theorem flush_device (is : List (Fin cacheSectors)) (c : BufCache) :
    c.SameDevice (is.foldl flushEntry c) := by
  induction is generalizing c with
  | nil => exact ⟨rfl, rfl⟩
  | cons i is ih =>
    have hone : c.SameDevice (flushEntry c i) := by
      have hstatus := writeSector_status c.disk (c.entries i).sector (c.entries i).data
      unfold flushEntry
      split
      · rcases hout : c.disk.writeSector (c.entries i).sector (c.entries i).data with ⟨disk, ok⟩
        rw [hout] at hstatus
        cases ok <;> exact hstatus
      · exact ⟨rfl, rfl⟩
    obtain ⟨hpresent, hhealthy⟩ := ih (flushEntry c i)
    exact ⟨hpresent.trans hone.1, hhealthy.trans hone.2⟩

theorem BufCache.SameDevice.trans {c c' c'' : BufCache} (h : c.SameDevice c')
    (h' : c'.SameDevice c'') : c.SameDevice c'' :=
  ⟨h'.1.trans h.1, h'.2.trans h.2⟩

theorem prepare_device (c : BufCache) : c.SameDevice c.prepare := by
  unfold BufCache.SameDevice
  rw [prepare_disk]
  exact ⟨rfl, rfl⟩

theorem bufcacheRead_device (c : BufCache) (sector : Nat) :
    c.SameDevice (bufcacheRead c sector).1 := by
  refine (prepare_device c).trans ?_
  have halloc := allocateEntry_device c.prepare sector
  unfold bufcacheRead
  generalize c.prepare = p at halloc ⊢
  dsimp only
  split
  · exact ⟨rfl, rfl⟩
  cases findEntry p sector with
  | some i => exact ⟨rfl, rfl⟩
  | none =>
    dsimp only [fillEntry]
    split <;> exact halloc

theorem bufcacheWrite_device (c : BufCache) (sector : Nat) (data : Sector) :
    c.SameDevice (bufcacheWrite c sector data) := by
  refine (prepare_device c).trans ?_
  have halloc := allocateEntry_device c.prepare sector
  unfold bufcacheWrite
  generalize c.prepare = p at halloc ⊢
  dsimp only
  split
  · exact ⟨rfl, rfl⟩
  cases findEntry p sector with
  | some i => exact ⟨rfl, rfl⟩
  | none => exact halloc

theorem bufcacheSync_device (c : BufCache) : c.SameDevice (bufcacheSync c) := by
  unfold bufcacheSync
  split
  · exact ⟨rfl, rfl⟩
  · exact flush_device (List.finRange cacheSectors) c

theorem serve_device (c : BufCache) (r : Request) : c.SameDevice (c.serve r).1 := by
  cases r with
  | read sector => exact bufcacheRead_device c sector
  | write sector data => exact bufcacheWrite_device c sector data
  | sync => exact bufcacheSync_device c

theorem Coherent.serve (h : Coherent c array) (r : Request) :
    Coherent (c.serve r).1 (serveFlat array r).1 ∧ (c.serve r).2 = (serveFlat array r).2 := by
  have hdevice := serve_device c r
  have hpresent : (c.serve r).1.disk.present := hdevice.1.trans h.present
  have hhealthy : ∀ sector, (c.serve r).1.disk.healthy sector := by
    intro sector
    rw [hdevice.2]
    exact h.healthy sector
  have hevict : ∀ sector, EvictionSucceeds c.prepare sector := by
    intro sector _ _ _
    rw [prepare_disk]
    exact h.healthy _
  cases r with
  | read sector =>
    obtain ⟨hkept, hdata⟩ := h.toKept.read (hevict sector)
    refine ⟨hkept.coherent hpresent hhealthy, ?_⟩
    rcases hdata with hdata | ⟨-, hfailed | hfailed⟩
    · exact hdata
    · simp [h.present] at hfailed
    · simp [h.healthy sector] at hfailed
  | write sector data =>
    exact ⟨(h.toKept.write h.present (hevict sector) data).coherent hpresent hhealthy, rfl⟩
  | sync =>
    have hsync := h.toKept.sync h.present fun i _ => h.healthy _
    exact ⟨hsync.1.coherent hpresent hhealthy, rfl⟩

theorem Coherent.run (h : Coherent c array) (requests : List Request) :
    Coherent (Machine.run (fun c r => (BufCache.serve c r).1) c requests)
        (Machine.run (fun a r => (serveFlat a r).1) array requests) ∧
      Machine.replies BufCache.serve c requests = Machine.replies serveFlat array requests := by
  induction requests generalizing c array with
  | nil => exact ⟨h, rfl⟩
  | cons r requests ih =>
    obtain ⟨hcoh, hsame⟩ := h.serve r
    obtain ⟨hrun, hrest⟩ := ih hcoh
    exact ⟨hrun, by rw [Machine.replies, Machine.replies, hsame, hrest]⟩

/-- Over a device whose transfers do not fail, the cache answers every sequence of requests as the
flat array that starts with the device's content; no sector ever has two valid entries; and a sync
brings the device to that array. -/
theorem bufcache_transparent (disk : Disk) (hpresent : disk.present = true)
    (hhealthy : ∀ sector, disk.healthy sector = true) (requests : List Request) :
    let c := Machine.run (fun c r => (BufCache.serve c r).1) (bootCache disk) requests
    let array := Machine.run (fun a r => (serveFlat a r).1) disk.content requests
    Machine.replies BufCache.serve (bootCache disk) requests =
      Machine.replies serveFlat disk.content requests ∧
    (∀ i j, (c.entries i).valid = true → (c.entries j).valid = true →
      (c.entries i).sector = (c.entries j).sector → i = j) ∧
    (bufcacheSync c).disk.content = array := by
  have hboot := (bootCache_kept disk).coherent hpresent hhealthy
  obtain ⟨hcoh, hanswers⟩ := hboot.run requests
  exact ⟨hanswers, hcoh.unique, (hcoh.toKept.sync hcoh.present fun i _ => hcoh.healthy _).2⟩

def blankDisk : Disk := ⟨true, fun _ => true, fun _ => Vector.replicate 512 0⟩

theorem bufcache_transparent_blank : Machine.replies BufCache.serve (bootCache blankDisk)
        [.write 3 (Vector.replicate 512 7), .sync, .read 3] =
      Machine.replies serveFlat blankDisk.content
        [.write 3 (Vector.replicate 512 7), .sync, .read 3] :=
  (bufcache_transparent blankDisk rfl (fun _ => rfl)
    [.write 3 (Vector.replicate 512 7), .sync, .read 3]).1

end XsCore.Storage
