import XsCore.Foundation.Bytes

/-! # The archive of the initial file system

`xscore_initramfs_mount_archive`: `memory` begins with the archive and goes on behind its end, and
`adds` is what the file system answers to each entry.  The size of the header and the table of
entries is a `size_t`, of 32 bits on three of the ports.
-/

namespace XsCore.Vfs.Initramfs

open Bytes List

def magic : List UInt8 := [65, 75, 65, 79, 83, 82, 65, 77]

structure Entry where
  path : List UInt8
  type : Nat
  mode : Nat
  size : Nat
  dataOffset : Nat

/-- A directory, or a file whose end is inside the archive by a sum of 64 bits. -/
abbrev Entry.Allowed (e : Entry) (archiveSize : Nat) : Prop :=
  e.type = 1 ∨ e.type = 2 ∧ (e.dataOffset + e.size) % 2 ^ 64 ≤ archiveSize

def entryStart (i : Nat) : Nat := 24 + i * 152

/-- The width of `size_t`. -/
inductive SizeT where
  | w32 | w64

abbrev SizeT.bits : SizeT → Nat
  | .w32 => 32
  | .w64 => 64

variable (memory : Nat → UInt8) (adds : Nat → Entry → Bool) (namespaces : Bool)

def field (address width : Nat) : Nat := leValue (load memory address width)

def readEntry (i : Nat) : Entry where
  path := load memory (entryStart i) 128
  type := field memory (entryStart i + 128) 4
  mode := field memory (entryStart i + 132) 4
  size := field memory (entryStart i + 136) 8
  dataOffset := field memory (entryStart i + 144) 8

def entryCount : Nat := field memory 12 4

/-- The entry is allowed and the file system takes it. -/
abbrev Taken (archiveSize i : Nat) : Prop :=
  (readEntry memory i).Allowed archiveSize ∧ adds i (readEntry memory i) = true

/-- The answer, and what is read for it: where, and how many bytes. -/
def mountLoop (archiveSize : Nat) : Nat → Nat → Bool × List (Nat × Nat)
  | 0, _ => (namespaces, [])
  | left + 1, i =>
    let rest := if Taken memory adds archiveSize i then
      mountLoop archiveSize left (i + 1) else (false, [])
    (rest.1, (entryStart i, 152) :: rest.2)

abbrev HeaderOk (w : SizeT) (archiveSize : Nat) : Prop :=
  load memory 0 8 = magic ∧ field memory 8 4 = 1 ∧
    entryStart (entryCount memory) % 2 ^ w.bits ≤ archiveSize

/-- `namespaces` tells whether `/dev` and `/proc` can be installed behind the entries. -/
def mountArchive (w : SizeT) (archiveSize : Nat) : Bool × List (Nat × Nat) :=
  if archiveSize < 24 then (false, [])
  else
    let rest := if HeaderOk memory w archiveSize then
      mountLoop memory adds namespaces archiveSize (entryCount memory) 0 else (false, [])
    (rest.1, (0, 24) :: rest.2)

/-- Nothing outside the archive is read, and an archive that is accepted, so that all its entries
are installed, holds their paths and the bytes of their files. -/
structure Bounded (archiveSize : Nat) (m : Bool × List (Nat × Nat)) : Prop where
  reads : ∀ r ∈ m.2, r.1 + r.2 ≤ archiveSize
  paths : m.1 = true → ∀ i < entryCount memory, entryStart i + 128 ≤ archiveSize
  files : m.1 = true → ∀ i < entryCount memory, (readEntry memory i).type = 2 →
    (readEntry memory i).dataOffset + (readEntry memory i).size ≤ archiveSize

/-- The size of the table is what it says, or the loop ends at an entry inside the archive. -/
def TableInside (w : SizeT) (archiveSize : Nat) : Prop :=
  entryStart (entryCount memory) < 2 ^ w.bits ∨
    ∃ i < entryCount memory, entryStart i + 152 ≤ archiveSize ∧ ¬ Taken memory adds archiveSize i

section

variable {memory adds} {archiveSize : Nat} {w : SizeT}

theorem mem_mountLoop_iff {left i : Nat} {r : Nat × Nat} :
    r ∈ (mountLoop memory adds namespaces archiveSize left i).2 ↔
      ∃ j < left, r = (entryStart (i + j), 152) ∧
        ∀ k < j, Taken memory adds archiveSize (i + k) := by
  induction left generalizing i with
  | zero => simp [mountLoop]
  | succ left ih =>
    rw [mountLoop, mem_cons, Nat.exists_lt_succ_left]
    refine or_congr (by simp) ?_
    split_ifs with htaken
    · rw [ih]
      refine exists_congr fun j => and_congr Iff.rfl ?_
      rw [Nat.forall_lt_succ_left]
      simp only [Nat.add_zero, Nat.add_right_comm i 1, ← Nat.add_assoc i]
      exact and_congr Iff.rfl (and_iff_right htaken).symm
    · refine iff_of_false (by simp) ?_
      rintro ⟨j, -, -, hall⟩
      exact htaken (hall 0 (Nat.succ_pos j))

theorem mountLoop_accepts {left i : Nat}
    (h : (mountLoop memory adds namespaces archiveSize left i).1) :
    ∀ j < left, Taken memory adds archiveSize (i + j) := by
  induction left generalizing i with
  | zero => simp
  | succ left ih =>
    rw [mountLoop] at h
    split_ifs at h with htaken
    rw [Nat.forall_lt_succ_left]
    refine ⟨htaken, fun j hj => ?_⟩
    rw [← Nat.add_assoc, Nat.add_right_comm]
    exact ih h j hj

/-- The loop stays inside the archive exactly when the table does. -/
theorem reads_inside_iff (hsize : 24 ≤ archiveSize) (hlt : archiveSize < 2 ^ w.bits)
    (hheader : HeaderOk memory w archiveSize) :
    (∀ r ∈ (mountLoop memory adds namespaces archiveSize (entryCount memory) 0).2,
      r.1 + r.2 ≤ archiveSize) ↔ TableInside memory adds w archiveSize := by
  have hstart : ∀ i, entryStart i = 24 + i * 152 := fun _ => rfl
  simp only [mem_mountLoop_iff, Nat.zero_add]
  constructor
  · intro hreads
    by_contra houtside
    rw [TableInside, not_or, not_exists] at houtside
    have hlast : ∃ j, archiveSize < entryStart j + 152 := ⟨archiveSize, by rw [hstart]; omega⟩
    -- the first entry that is not inside the archive
    have hfirst := Nat.find_spec hlast
    have hbefore : ∀ k < Nat.find hlast, entryStart k + 152 ≤ archiveSize :=
      fun k hk => not_lt.mp (Nat.find_min hlast hk)
    generalize Nat.find hlast = j at *
    have hj : j < entryCount memory := by
      by_contra hge
      have hend := houtside.1
      rcases hcount : entryCount memory with _ | count
      · rw [hcount, hstart] at hend
        omega
      · have hlastEntry := hbefore count (by omega)
        rw [hcount, hstart] at hend
        rw [hstart] at hlastEntry
        omega
    have hread := hreads _ ⟨j, hj, rfl, fun k hk => by
      by_contra hrefused
      exact houtside.2 k ⟨by omega, hbefore k hk, hrefused⟩⟩
    exact absurd hread (by simpa using hfirst)
  · rintro (hwhole | ⟨i, -, hinside, hrefused⟩) r ⟨j, hj, rfl, htaken⟩
    · have htable := hheader.2.2
      rw [Nat.mod_eq_of_lt hwhole, hstart] at htable
      rw [hstart]
      omega
    · have hle : j ≤ i := by
        by_contra hlt
        exact hrefused (htaken i (by omega))
      rw [hstart] at hinside ⊢
      omega

end

/-- One file of two bytes, the first of them before the archive. -/
def wrappedFile : List UInt8 :=
  magic ++ [1, 0, 0, 0, 1] ++ replicate 11 0 ++ [47, 97] ++ replicate 126 0 ++ [2] ++
    replicate 7 0 ++ [2] ++ replicate 7 0 ++ replicate 8 255

end XsCore.Vfs.Initramfs
