import Mathlib.Data.List.Basic
import Mathlib.Data.List.TakeWhile

/-! # Comparing two files

The reading of lines and the edit script of `userspace/bin/diff/main.c`, where `line_equal` is
equality.  Memory is found for every line and table.

The table of `build_lcs` only chooses between two valid steps: whatever it holds, the script that is
read off it turns the lines of the first file into those of the second (`editScript_aligns`).
-/

namespace XsCore.Tools

open List

abbrev Line := List UInt8

variable {i n fuel : Nat} {line file : List UInt8} {lines : List Line}

def maxLines : Nat := 512

def maxLineLen : Nat := 512

def cstring (buffer : List UInt8) : Line := buffer.takeWhile (· != 0)

def readLines (line : List UInt8) : List UInt8 → List Line
  | [] => if line = [] then [] else [cstring line]
  | byte :: file =>
    if byte = 10 then cstring line :: readLines [] file
    else if byte ≠ 13 ∧ line.length + 1 < maxLineLen then readLines (line ++ [byte]) file
    else readLines line file

def readFileLines (file : List UInt8) : List Line := (readLines [] file).take maxLines

def unlines (lines : List Line) : List UInt8 := lines.flatMap (· ++ [10])

/-! ## The lines read -/

structure Plain (limit : Nat) (line : Line) : Prop where
  newline : 10 ∉ line
  carriage : 13 ∉ line
  zero : 0 ∉ line
  short : line.length ≤ limit

theorem readLines_line {rest : List UInt8} (h : Plain 511 (line ++ rest)) :
    readLines line (rest ++ 10 :: file) = (line ++ rest) :: readLines [] file := by
  induction rest generalizing line with
  | nil =>
    have hall : cstring line = line := by
      apply takeWhile_eq_self_iff.mpr
      intro c hc
      have hne : c ≠ 0 := fun heq => h.zero (heq ▸ mem_append_left [] hc)
      simpa using hne
    rw [append_nil, nil_append, readLines, if_pos rfl, hall]
  | cons c rest ih =>
    have hmem : c ∈ line ++ c :: rest := by simp
    have hnewline : c ≠ 10 := fun heq => h.newline (heq ▸ hmem)
    have hcarriage : c ≠ 13 := fun heq => h.carriage (heq ▸ hmem)
    have hlen := h.short
    rw [length_append, length_cons] at hlen
    have hmore : line ++ c :: rest = line ++ [c] ++ rest := by simp
    rw [cons_append, readLines, if_neg hnewline,
      if_pos ⟨hcarriage, show line.length + 1 < 512 by omega⟩, hmore]
    rw [hmore] at h
    exact ih h

theorem readLines_unlines (h : ∀ line ∈ lines, Plain 511 line) :
    readLines [] (unlines lines) = lines := by
  induction lines with
  | nil => rfl
  | cons line lines ih =>
    have hline : readLines [] (line ++ 10 :: unlines lines) =
        line :: readLines [] (unlines lines) :=
      readLines_line (show Plain 511 ([] ++ line) from h line mem_cons_self)
    rw [unlines, flatMap_cons, append_assoc]
    exact hline.trans (by rw [ih fun other hmem => h other (mem_cons_of_mem _ hmem)])

theorem cstring_plain (hnewline : 10 ∉ line) (hcarriage : 13 ∉ line)
    (hshort : line.length ≤ 511) : Plain 511 (cstring line) := by
  have hsub := takeWhile_sublist (fun c : UInt8 => c != 0) (l := line)
  refine ⟨fun h => hnewline (hsub.subset h), fun h => hcarriage (hsub.subset h), fun h => ?_,
    hsub.length_le.trans hshort⟩
  exact absurd (mem_takeWhile_imp h) (by decide)

theorem readLines_plain (hnewline : 10 ∉ line) (hcarriage : 13 ∉ line)
    (hshort : line.length ≤ 511) : ∀ read ∈ readLines line file, Plain 511 read := by
  induction file generalizing line with
  | nil =>
    intro read hread
    rw [readLines] at hread
    split_ifs at hread
    · exact absurd hread not_mem_nil
    · rw [mem_singleton.mp hread]
      exact cstring_plain hnewline hcarriage hshort
  | cons c file ih =>
    rw [readLines]
    split_ifs with hc hkeep
    · intro read hread
      rcases mem_cons.mp hread with rfl | hread
      · exact cstring_plain hnewline hcarriage hshort
      · exact ih not_mem_nil not_mem_nil (Nat.zero_le _) read hread
    · apply ih
      · simp [hnewline, Ne.symm hc]
      · simp [hcarriage, Ne.symm hkeep.1]
      · have := hkeep.2
        rw [length_append, length_singleton]
        unfold maxLineLen at this
        omega
    · exact ih hnewline hcarriage hshort

/-! ## The edit script -/

inductive EditOp
  | keep (idx1 idx2 : Nat)
  | remove (idx1 : Nat)
  | add (idx2 : Nat)

open EditOp

namespace EditOp

def isKeep : EditOp → Bool
  | keep _ _ => true
  | _ => false

def idx1 : EditOp → Option Nat
  | keep i _ => some i
  | remove i => some i
  | add _ => none

def idx2 : EditOp → Option Nat
  | keep _ j => some j
  | remove _ => none
  | add j => some j

end EditOp

def lineAt (file : List Line) (k : Nat) : Line := file.getD k []

def lcsCells (line : Line) : List Nat → List Line → Nat → List Nat
  | diagonal :: above :: row, other :: file2, left =>
    let cell := if line = other then diagonal + 1 else if left ≤ above then above else left
    cell :: lcsCells line (above :: row) file2 cell
  | _, _, _ => []

def lcsTable (file1 file2 : List Line) : List (List Nat) :=
  file1.scanl (fun row line => 0 :: lcsCells line row file2 0) (replicate (file2.length + 1) 0)

def lcsAt (table : List (List Nat)) (i j : Nat) : Nat := (table.getD i []).getD j 0

def backtrack (file1 file2 : List Line) (table : List (List Nat)) :
    Nat → Nat → Nat → List EditOp → List EditOp
  | 0, _, _, script => script
  | fuel + 1, i, j, script =>
    if i = 0 ∧ j = 0 then script
    else if 0 < i ∧ 0 < j ∧ lineAt file1 (i - 1) = lineAt file2 (j - 1) then
      backtrack file1 file2 table fuel (i - 1) (j - 1) (.keep (i - 1) (j - 1) :: script)
    else if 0 < j ∧ (i = 0 ∨ lcsAt table (i - 1) j ≤ lcsAt table i (j - 1)) then
      backtrack file1 file2 table fuel i (j - 1) (.add (j - 1) :: script)
    else if 0 < i ∧ (j = 0 ∨ lcsAt table i (j - 1) < lcsAt table (i - 1) j) then
      backtrack file1 file2 table fuel (i - 1) j (.remove (i - 1) :: script)
    else backtrack file1 file2 table fuel i j script

def editScript (file1 file2 : List Line) : List EditOp :=
  backtrack file1 file2 (lcsTable file1 file2) (file1.length + file2.length) file1.length
    file2.length []

/-- The script walks through the lines from `i` and `j` on, each in order, and keeps equal ones. -/
structure Aligns (file1 file2 : List Line) (i j : Nat) (script : List EditOp) : Prop where
  old : script.filterMap EditOp.idx1 = range' i (file1.length - i)
  new : script.filterMap EditOp.idx2 = range' j (file2.length - j)
  same : ∀ a b, EditOp.keep a b ∈ script → lineAt file1 a = lineAt file2 b

theorem range'_pred (hpos : 0 < i) (hi : i ≤ n) :
    range' (i - 1) (n - (i - 1)) = (i - 1) :: range' i (n - i) := by
  have hlen : n - (i - 1) = (n - i) + 1 := by omega
  rw [hlen, range'_succ, Nat.sub_add_cancel hpos]

theorem backtrack_aligns {file1 file2 : List Line} {table : List (List Nat)} {j : Nat}
    {script : List EditOp} (hfuel : i + j ≤ fuel) (hi : i ≤ file1.length) (hj : j ≤ file2.length)
    (h : Aligns file1 file2 i j script) :
    Aligns file1 file2 0 0 (backtrack file1 file2 table fuel i j script) := by
  induction fuel generalizing i j script with
  | zero =>
    obtain ⟨rfl, rfl⟩ : i = 0 ∧ j = 0 := by omega
    exact h
  | succ fuel ih =>
    rw [backtrack]
    split_ifs with hdone hkeep hadd hremove
    · obtain ⟨rfl, rfl⟩ := hdone
      exact h
    · obtain ⟨hi0, hj0, hsame⟩ := hkeep
      apply ih (by omega) (by omega) (by omega)
      constructor
      · simp [idx1, h.old, range'_pred hi0 hi]
      · simp [idx2, h.new, range'_pred hj0 hj]
      · intro a b hmem
        rcases mem_cons.mp hmem with heq | hmem
        · obtain ⟨rfl, rfl⟩ := keep.inj heq
          exact hsame
        · exact h.same a b hmem
    · apply ih (by omega) hi (by omega)
      constructor
      · simp only [filterMap_cons, idx1, h.old]
      · simp [idx2, h.new, range'_pred hadd.1 hj]
      · intro a b hmem
        exact h.same a b (mem_of_ne_of_mem (by simp) hmem)
    · apply ih (by omega) (by omega) hj
      constructor
      · simp [idx1, h.old, range'_pred hremove.1 hi]
      · simp only [filterMap_cons, idx2, h.new]
      · intro a b hmem
        exact h.same a b (mem_of_ne_of_mem (by simp) hmem)
    · -- the last two tests exclude each other and leave nothing out
      omega

theorem editScript_aligns (file1 file2 : List Line) :
    Aligns file1 file2 0 0 (editScript file1 file2) :=
  backtrack_aligns le_rfl le_rfl le_rfl
    ⟨by simp, by simp, by simp⟩

theorem map_lineAt_range (lines : List Line) :
    (range' 0 (lines.length - 0)).map (lineAt lines) = lines := by
  apply ext_getElem
  · simp
  · intro k hk hk'
    simp [lineAt, hk']

/-- A script that only keeps lines is one between equal files. -/
theorem Aligns.eq_of_keep {file1 file2 : List Line} {script : List EditOp}
    (h : Aligns file1 file2 0 0 script) (hkeep : ∀ op ∈ script, op.isKeep) : file1 = file2 := by
  have hsame : (script.filterMap idx1).map (lineAt file1) =
      (script.filterMap idx2).map (lineAt file2) := by
    rw [map_filterMap, map_filterMap]
    apply filterMap_congr
    intro op hop
    cases op with
    | keep i j => exact congrArg some (h.same i j hop)
    | remove | add => exact absurd (hkeep _ hop) (by simp [isKeep])
  rwa [h.old, h.new, map_lineAt_range, map_lineAt_range] at hsame

end XsCore.Tools
