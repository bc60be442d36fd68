import XsCore.Foundation.Machine
import Mathlib.Algebra.Group.Nat.Defs

/-! # Reading a file held in memory

A memory-backed or generated file is a run of bytes in the kernel with a size and an offset.
`xscore_fd_seek` may leave the offset anywhere below 2⁶³; `fd_read_file` takes it from the size, as
64-bit words, to see how much is left to read.
-/

namespace XsCore.File

open Machine List

/-- A description with `FILE_MEMORY`, which is always readable.  `data` is the memory from the
pointer on, behind the end of the file as well. -/
structure MemoryFile where
  data : Nat → UInt8
  size : Nat
  offset : Nat
  size_lt : size < 2 ^ 64
  offset_lt : offset < 2 ^ 64

inductive Whence where
  | seekSet | seekCur | seekEnd | invalid

def int64Max : Nat := 2 ^ 63 - 1

inductive MemoryOp where
  | seek (offset : Int) (whence : Whence)
  | read (length : Nat)

namespace MemoryFile

def base (f : MemoryFile) : Whence → Option Nat
  | .seekSet => some 0
  | .seekCur => some (min f.offset int64Max)
  | .seekEnd => some (min f.size int64Max)
  | .invalid => none

def setOffset (f : MemoryFile) (n : Nat) : MemoryFile :=
  { f with offset := n % 2 ^ 64, offset_lt := Nat.mod_lt _ (by decide) }

/-- `xscore_fd_seek`, with the new offset or `none` for `EINVAL`. -/
def seek (f : MemoryFile) (offset : Int) (whence : Whence) : MemoryFile × Option Nat :=
  match f.base whence with
  | none => (f, none)
  | some base =>
    let next := base + offset
    if int64Max < next ∨ next < 0 then (f, none) else (f.setOffset next.toNat, some next.toNat)

/-- The branch of `fd_read_file`; `size - offset` is a difference of words. -/
def read (f : MemoryFile) (length : Nat) : MemoryFile × List UInt8 :=
  let count := min length ((2 ^ 64 + f.size - f.offset) % 2 ^ 64)
  (f.setOffset (f.offset + count), (range count).map fun i => f.data ((f.offset + i) % 2 ^ 64))

def step (f : MemoryFile) : MemoryOp → MemoryFile
  | .seek offset whence => (f.seek offset whence).1
  | .read length => (f.read length).1

def content (f : MemoryFile) : List UInt8 := (range f.size).map f.data

def BoundedRead (f : MemoryFile) (length : Nat) : Prop :=
  (f.read length).2 = (f.content.drop f.offset).take length

variable {f : MemoryFile} {length : Nat}

theorem boundedRead_iff : f.BoundedRead length ↔ length = 0 ∨ f.offset ≤ f.size := by
  have hsize := f.size_lt
  have hoffset := f.offset_lt
  have hread : (f.read length).2.length = min length ((2 ^ 64 + f.size - f.offset) % 2 ^ 64) := by
    rw [read, length_map, length_range]
  have hkept : ((f.content.drop f.offset).take length).length = min length (f.size - f.offset) := by
    simp [content]
  constructor
  · intro h
    rw [h, hkept] at hread
    omega
  · intro h
    refine ext_getElem (by omega) fun i hi _ => ?_
    have hbelow : f.offset + i < 2 ^ 64 := by omega
    simp only [read, content, getElem_map, getElem_range, getElem_take,
      getElem_drop, Nat.mod_eq_of_lt hbelow]

def Inside (f : MemoryFile) : MemoryOp → Prop
  | .seek offset whence => ∀ base ∈ f.base whence, base + offset ≤ int64Max →
    base + offset ≤ f.size
  | .read _ => True

theorem step_inside {op : MemoryOp} (h : f.offset ≤ f.size) (hop : f.Inside op) :
    (f.step op).offset ≤ (f.step op).size := by
  have hsize := f.size_lt
  cases op with
  | seek offset whence =>
    rw [step, seek]
    split
    · exact h
    next base hbase =>
    have hend := hop base hbase
    dsimp only
    split_ifs with hrange
    · exact h
    · have hinside := hend (by omega)
      exact Nat.le_trans (Nat.mod_le _ _) (show _ ≤ f.size by omega)
  | read length => exact Nat.le_trans (Nat.mod_le _ _) (show f.offset + _ ≤ f.size by omega)

/-- While no seek aims behind the end, reads are bounded in every state of a run. -/
theorem memory_reads_bounded {ops : List MemoryOp} (hopen : f.offset = 0)
    (h : Guarded step Inside f ops) (length : Nat) : (run step f ops).BoundedRead length := by
  have hkept := h.invariant (fun f => f.offset ≤ f.size) (fun f op => step_inside) (by omega)
  exact boundedRead_iff.mpr (.inr hkept)

def oneByte : MemoryFile := ⟨fun _ => 65, 1, 0, by decide, by decide⟩

theorem memory_reads_bounded_oneByte :
    (run step oneByte [.read 5, .seek (-1) .seekEnd]).BoundedRead 5 :=
  memory_reads_bounded rfl
    (by simp [Guarded, Inside, oneByte, base, step, read, setOffset, int64Max]) 5

/-- Behind the end, the difference of size and offset wraps round. -/
theorem read_behind_end : ¬ (run step oneByte [.seek 2 .seekSet]).BoundedRead 1 := by
  rw [boundedRead_iff]
  decide

end MemoryFile

end XsCore.File
