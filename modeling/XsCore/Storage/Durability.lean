import XsCore.Storage.BufferCache

/-! # What a sync promises

The cache over a device whose transfers may fail, and the writes it acknowledged.  A write-back that
fails during an eviction, and one that fails during a sync, are not reported to anybody.
-/

namespace XsCore.Storage

open Machine

/-- A request together with the sectors the device can transfer while it is served.  No request
transfers a sector twice, so this gives every transfer an outcome of its own. -/
structure Attempt where
  request : Request
  healthy : Nat → Bool

/-- The cache and, for each sector, the data of the last acknowledged write to it.  A sector that
was never written counts with what the device held at boot. -/
structure Acknowledged where
  cache : BufCache
  written : Nat → Sector

def BufCache.withHealth (c : BufCache) (healthy : Nat → Bool) : BufCache :=
  { c with disk := { c.disk with healthy := healthy } }

/-- `xscore_bufcache_write` returns one whenever there is a device. -/
def BufCache.acknowledges (c : BufCache) : Bool := c.disk.present

/-- What `xscore_bufcache_sync` returns: it does not depend on any transfer. -/
def BufCache.syncReports (c : BufCache) : Bool := c.ready && c.disk.present

def Acknowledged.step (s : Acknowledged) (a : Attempt) : Acknowledged where
  cache := ((s.cache.withHealth a.healthy).serve a.request).1
  written :=
    match a.request with
    | .write sector data =>
      if s.cache.acknowledges then Function.update s.written sector data else s.written
    | _ => s.written

def Acknowledged.boot (disk : Disk) : Acknowledged := ⟨bootCache disk, disk.content⟩

/-- The write-backs of an attempt succeed: that of the victim when a sector has to be evicted, and
those of all dirty sectors in a sync. -/
def Acknowledged.WritesBack (s : Acknowledged) (a : Attempt) : Prop :=
  match a.request with
  | .read sector => EvictionSucceeds (s.cache.withHealth a.healthy).prepare sector
  | .write sector _ => EvictionSucceeds (s.cache.withHealth a.healthy).prepare sector
  | .sync => FlushSucceeds (s.cache.withHealth a.healthy)

variable {s : Acknowledged} {a : Attempt} {c : BufCache} {array : Nat → Sector}

theorem Kept.withHealth (h : Kept c array) (healthy : Nat → Bool) :
    Kept (c.withHealth healthy) array :=
  { h with }

theorem Kept.write_absent (h : Kept c array) (habsent : c.disk.present = false) (sector : Nat)
    (data : Sector) : Kept (bufcacheWrite c sector data) array := by
  rw [← prepare_disk c] at habsent
  unfold bufcacheWrite
  simp only [habsent, Bool.not_false, if_true]
  exact h.prepare.1

theorem Kept.step (h : Kept s.cache s.written) (hwrites : s.WritesBack a) :
    Kept (s.step a).cache (s.step a).written := by
  have hhealth := h.withHealth a.healthy
  obtain ⟨request, healthy⟩ := a
  cases request with
  | read sector => exact (hhealth.read hwrites).1
  | write sector data =>
    by_cases hpresent : s.cache.disk.present
    · have hwritten : (s.step ⟨.write sector data, healthy⟩).written =
          Function.update s.written sector data := if_pos hpresent
      rw [hwritten]
      exact hhealth.write hpresent hwrites data
    · have hwritten : (s.step ⟨.write sector data, healthy⟩).written = s.written :=
        if_neg hpresent
      rw [hwritten]
      exact hhealth.write_absent (Bool.eq_false_of_not_eq_true hpresent) sector data
  | sync =>
    by_cases hpresent : s.cache.disk.present
    · exact (hhealth.sync hpresent hwrites).1
    have hskip : bufcacheSync (s.cache.withHealth healthy) = s.cache.withHealth healthy := by
      have habsent : (s.cache.withHealth healthy).disk.present = false :=
        Bool.eq_false_of_not_eq_true hpresent
      unfold bufcacheSync
      rw [if_pos (by simp [habsent])]
    show Kept (bufcacheSync (s.cache.withHealth healthy)) s.written
    rw [hskip]
    exact hhealth

/-- The last acknowledged write to a sector is in the cache, or else on the device. -/
def Acknowledged.Retained (s : Acknowledged) (sector : Nat) : Prop :=
  (∃ i, (s.cache.entries i).valid = true ∧ (s.cache.entries i).sector = sector ∧
    (s.cache.entries i).data = s.written sector) ∨
  (∀ i, (s.cache.entries i).valid = true → (s.cache.entries i).sector ≠ sector) ∧
    s.cache.disk.content sector = s.written sector

theorem Kept.retained (h : Kept s.cache s.written) (sector : Nat) : s.Retained sector := by
  by_cases hcached : ∃ i, (s.cache.entries i).valid ∧ (s.cache.entries i).sector = sector
  · obtain ⟨i, hvalid, hsector⟩ := hcached
    refine .inl ⟨i, hvalid, hsector, ?_⟩
    rw [h.data i hvalid, hsector]
  · have hmiss : ∀ i, (s.cache.entries i).valid → (s.cache.entries i).sector ≠ sector :=
      fun i hvalid hsector => hcached ⟨i, hvalid, hsector⟩
    exact .inr ⟨hmiss, h.uncached hmiss⟩

/-- In every history whose write-backs succeed, the last acknowledged write to each sector is
retained, and a sync that reports success leaves it on the device. -/
theorem acknowledged_writes_durable (disk : Disk) (attempts : List Attempt)
    (hwrites : Guarded Acknowledged.step Acknowledged.WritesBack (.boot disk) attempts) :
    let s := run Acknowledged.step (.boot disk) attempts
    (∀ sector, s.Retained sector) ∧
    ∀ healthy, s.WritesBack ⟨.sync, healthy⟩ → s.cache.syncReports = true →
      ∀ sector, (s.step ⟨.sync, healthy⟩).cache.disk.content sector = s.written sector := by
  intro s
  have hkept : Kept s.cache s.written :=
    hwrites.invariant (fun s => Kept s.cache s.written) (fun _ _ hs ha => hs.step ha)
      (bootCache_kept disk)
  refine ⟨hkept.retained, fun healthy hsync hreports sector => ?_⟩
  have hpresent : s.cache.disk.present := by
    rw [BufCache.syncReports, Bool.and_eq_true] at hreports
    exact hreports.2
  exact congrFun ((hkept.withHealth healthy).sync hpresent hsync).2 sector

theorem guarded_of_healthy (s : Acknowledged) {attempts : List Attempt}
    (h : ∀ a ∈ attempts, ∀ sector, a.healthy sector) :
    Guarded Acknowledged.step Acknowledged.WritesBack s attempts := by
  induction attempts generalizing s with
  | nil => trivial
  | cons a attempts ih =>
    refine ⟨?_, ih _ fun b hb => h b (List.mem_cons_of_mem a hb)⟩
    have hhealthy := h a List.mem_cons_self
    unfold Acknowledged.WritesBack
    split
    · exact fun _ _ _ => by rw [prepare_disk]; exact hhealthy _
    · exact fun _ _ _ => by rw [prepare_disk]; exact hhealthy _
    · exact fun i _ => hhealthy _

/-- One sector more than the cache holds is written, and then all are synced. -/
def manyWrites : List Attempt :=
  (List.range (cacheSectors + 1)).map (fun k =>
    ⟨.write k (Vector.replicate 512 7), fun _ => true⟩) ++ [⟨.sync, fun _ => true⟩]

theorem acknowledged_writes_durable_many :
    (run Acknowledged.step (.boot blankDisk) manyWrites).Retained 0 := by
  refine (acknowledged_writes_durable blankDisk manyWrites (guarded_of_healthy _ ?_)).1 0
  intro a ha sector
  simp only [manyWrites, List.mem_append, List.mem_map, List.mem_singleton] at ha
  rcases ha with ⟨k, -, rfl⟩ | rfl <;> rfl

/-! ## A device that stops working -/

theorem flush_refused (is : List (Fin cacheSectors)) (h : ∀ sector, c.disk.healthy sector = false) :
    (is.foldl flushEntry c).disk = c.disk := by
  refine List.foldlRecOn (motive := (·.disk = c.disk)) is flushEntry rfl fun c' hsame i _ => ?_
  unfold flushEntry
  split
  · rw [Disk.writeSector, if_neg (by simp [hsame, h])]
    exact hsame
  · exact hsame

def oneWrite : List Attempt := [⟨.write 3 (Vector.replicate 512 7), fun _ => true⟩]

/-- The sync reports success although the only write it had to bring to the device failed. -/
theorem sync_reports_lost_write :
    let s := run Acknowledged.step (.boot blankDisk) oneWrite
    s.cache.syncReports = true ∧ s.written 3 = Vector.replicate 512 7 ∧
      (s.step ⟨.sync, fun _ => false⟩).cache.disk.content 3 = Vector.replicate 512 0 := by
  intro s
  have hready : s.cache.syncReports := rfl
  have hdisk : s.cache.disk.content 3 = Vector.replicate 512 0 := rfl
  have hwritten : s.written 3 = Vector.replicate 512 7 := rfl
  clear_value s
  refine ⟨hready, hwritten, ?_⟩
  show (bufcacheSync (s.cache.withHealth fun _ => false)).disk.content 3 = _
  unfold bufcacheSync
  split
  · exact hdisk
  · rw [flush_refused _ fun _ => rfl]
    exact hdisk

end XsCore.Storage
