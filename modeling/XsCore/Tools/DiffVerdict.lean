import Mathlib.Data.List.Induction
import XsCore.Tools.Diff

/-! # The verdict of `diff`

With an option `line_equal` compares two lines in a normal form, so the script is that of the normal
forms.  No script between the lines that are read is shorter.  What is not read `diff` cannot see: a
file has to be the lines that are read from it, each with its newline.
-/

namespace XsCore.Tools

open List EditOp

/-- The options `-i`, `-w` and `-b`. -/
structure Ignore where
  case : Bool
  allSpace : Bool
  spaceChange : Bool
  deriving DecidableEq

def Ignore.nothing : Ignore := ⟨false, false, false⟩

/-- The loop of `line_equal`; a line that was read fits into its buffer. -/
def normalizeLoop (o : Ignore) : Bool → Line → Line
  | _, [] => []
  | inWs, c :: rest =>
    let c := if 65 ≤ c ∧ c ≤ 90 ∧ o.case then c + 32 else c
    if c = 32 ∨ c = 9 then
      if o.allSpace then normalizeLoop o inWs rest
      else if o.spaceChange then
        if inWs then normalizeLoop o inWs rest else 32 :: normalizeLoop o true rest
      else c :: normalizeLoop o inWs rest
    else c :: normalizeLoop o false rest

def normalize (o : Ignore) (line : Line) : Line :=
  if o = .nothing then line
  else
    let out := normalizeLoop o false line
    if o.spaceChange ∧ out.getLast? = some 32 then out.dropLast else out

def diffScript (o : Ignore) (file1 file2 : List UInt8) : List EditOp :=
  editScript ((readFileLines file1).map (normalize o)) ((readFileLines file2).map (normalize o))

/-! ## The shortest script -/

/-- The most lines that the first `i` lines of one file and `j` of the other share, in order. -/
def common (a b : List Line) : Nat → Nat → Nat
  | 0, _ => 0
  | _ + 1, 0 => 0
  | i + 1, j + 1 =>
    if lineAt a i = lineAt b j then common a b i j + 1
    else max (common a b (i + 1) j) (common a b i (j + 1))

section Common

variable (a b : List Line) (i j : Nat)

@[simp] theorem common_zero_left : common a b 0 j = 0 := by rw [common]

@[simp] theorem common_zero_right : common a b i 0 = 0 := by cases i <;> rw [common]

theorem common_succ : common a b (i + 1) (j + 1) = if lineAt a i = lineAt b j then common a b i j + 1
    else max (common a b (i + 1) j) (common a b i (j + 1)) := by rw [common]

/-- One more line on one side adds at most one. -/
theorem common_step :
    (common a b i j ≤ common a b (i + 1) j ∧ common a b (i + 1) j ≤ common a b i j + 1) ∧
      common a b i j ≤ common a b i (j + 1) ∧ common a b i (j + 1) ≤ common a b i j + 1 := by
  induction i generalizing j with
  | zero =>
    induction j with
    | zero => simp
    | succ j ih =>
      have hcell := common_succ a b 0 j
      simp only [common_zero_left] at ih hcell ⊢
      split_ifs at hcell <;> omega
  | succ i ihi =>
    have hup := ihi j
    induction j with
    | zero =>
      have hcell := common_succ a b i 0
      simp only [common_zero_right] at hup hcell ⊢
      split_ifs at hcell <;> omega
    | succ j ihj =>
      have hleft := ihj (ihi j)
      have hdown := common_succ a b (i + 1) j
      have hright := common_succ a b i (j + 1)
      split_ifs at hdown hright <;> omega

variable {a b i j} {script : List EditOp}

theorem lcsCells_eq (k : Nat) (hk : j + k = b.length) :
    lcsCells (lineAt a i) ((range' j (k + 1)).map (common a b i)) (b.drop j) (common a b (i + 1) j) =
      (range' (j + 1) k).map (common a b (i + 1)) := by
  induction k generalizing j with
  | zero => simp [lcsCells]
  | succ k ih =>
    have hj : j < b.length := by omega
    have hline : lineAt b j = b[j] := by simp [lineAt, hj]
    have hcell := common_succ a b i j
    rw [hline, Nat.max_def] at hcell
    rw [drop_eq_getElem_cons hj, range'_succ, range'_succ]
    simp only [map_cons, lcsCells, ← hcell]
    exact congrArg _ (ih (by omega))

theorem lcsTable_eq (hi : i ≤ a.length) :
    (lcsTable a b)[i]? = some ((range' 0 (b.length + 1)).map (common a b i)) := by
  induction i with
  | zero =>
    have hrow : (range' 0 (b.length + 1)).map (common a b 0) = replicate (b.length + 1) 0 :=
      eq_replicate_iff.mpr ⟨by simp, by simp⟩
    rw [hrow, lcsTable]
    exact getElem?_scanl_zero
  | succ i ih =>
    have hcells := lcsCells_eq (a := a) (i := i) b.length (Nat.zero_add _)
    have hline : a[i]? = some (lineAt a i) := by simp [lineAt, Nat.lt_of_succ_le hi]
    unfold lcsTable at ih ⊢
    simp only [common_zero_right, drop_zero] at hcells
    simp only [getElem?_succ_scanl, ih (by omega), hline, Option.bind_some, Option.map_some, hcells]
    rw [range'_succ, map_cons, common_zero_right]

theorem lcsAt_eq (hi : i ≤ a.length) (hj : j ≤ b.length) :
    lcsAt (lcsTable a b) i j = common a b i j := by
  simp [lcsAt, lcsTable_eq hi, Nat.lt_succ_of_le hj]

theorem backtrack_keeps {fuel : Nat} (hfuel : i + j ≤ fuel) (hi : i ≤ a.length) (hj : j ≤ b.length) :
    (backtrack a b (lcsTable a b) fuel i j script).countP isKeep =
      common a b i j + script.countP isKeep := by
  induction fuel generalizing i j script with
  | zero =>
    obtain ⟨rfl, rfl⟩ : i = 0 ∧ j = 0 := by omega
    simp [backtrack]
  | succ fuel ih =>
    rw [backtrack, lcsAt_eq (by omega) hj, lcsAt_eq hi (by omega)]
    have hcell := common_succ a b (i - 1) (j - 1)
    split_ifs with hdone hkeep hadd hremove
    · simp [hdone]
    · rw [Nat.sub_add_cancel hkeep.1, Nat.sub_add_cancel hkeep.2.1, if_pos hkeep.2.2] at hcell
      rw [ih (by omega) (by omega) (by omega), hcell, countP_cons_of_pos rfl, Nat.add_right_comm,
        Nat.add_assoc]
    · rw [ih (by omega) hi (by omega), countP_cons_of_neg Bool.false_ne_true]
      rcases Nat.eq_zero_or_pos i with rfl | hi0
      · simp
      rw [Nat.sub_add_cancel hi0, Nat.sub_add_cancel hadd.1,
        if_neg fun hsame => hkeep ⟨hi0, hadd.1, hsame⟩] at hcell
      omega
    · rw [ih (by omega) (by omega) hj, countP_cons_of_neg Bool.false_ne_true]
      rcases Nat.eq_zero_or_pos j with rfl | hj0
      · simp
      rw [Nat.sub_add_cancel hremove.1, Nat.sub_add_cancel hj0,
        if_neg fun hsame => hkeep ⟨hremove.1, hj0, hsame⟩] at hcell
      omega
    · omega

theorem range_of_append_singleton {l : List Nat} {k n : Nat} (h : l ++ [k] = range' 0 n) :
    n = k + 1 ∧ l = range' 0 k := by
  rcases n with _ | n
  · simp at h
  rw [range'_concat] at h
  obtain ⟨rfl, hlast⟩ := append_inj' h rfl
  simp at hlast
  simp [hlast]

/-- No script keeps more lines. -/
theorem kept_le_common (hold : script.filterMap idx1 = range' 0 i)
    (hnew : script.filterMap idx2 = range' 0 j)
    (hsame : ∀ k l, keep k l ∈ script → lineAt a k = lineAt b l) :
    script.countP isKeep ≤ common a b i j := by
  induction script using List.reverseRecOn generalizing i j with
  | nil => simp
  | append_singleton script op ih =>
    have hkept := fun k l h => hsame k l (mem_append_left _ h)
    rw [filterMap_append] at hold hnew
    cases op with
    | keep k l =>
      obtain ⟨rfl, hold'⟩ := range_of_append_singleton hold
      obtain ⟨rfl, hnew'⟩ := range_of_append_singleton hnew
      rw [common_succ, if_pos (hsame k l (by simp)), countP_append]
      exact Nat.add_le_add (ih hold' hnew' hkept) le_rfl
    | remove k =>
      obtain ⟨rfl, hold'⟩ := range_of_append_singleton hold
      have hle := ih hold' ((append_nil _).symm.trans hnew) hkept
      simpa [isKeep] using hle.trans (common_step a b k j).1.1
    | add l =>
      obtain ⟨rfl, hnew'⟩ := range_of_append_singleton hnew
      have hle := ih ((append_nil _).symm.trans hold) hnew' hkept
      simpa [isKeep] using hle.trans (common_step a b i l).2.1

end Common

def EditOp.isChange (op : EditOp) : Bool := !op.isKeep

structure Shortest (a b : List Line) (script : List EditOp) : Prop where
  aligns : Aligns a b 0 0 script
  least : ∀ other, Aligns a b 0 0 other →
    script.countP EditOp.isChange ≤ other.countP EditOp.isChange

theorem changes_eq (script : List EditOp) : script.countP isChange + 2 * script.countP isKeep =
      (script.filterMap idx1).length + (script.filterMap idx2).length := by
  induction script with
  | nil => rfl
  | cons op script ih =>
    cases op <;>
      simp only [countP_cons, filterMap_cons, isChange, isKeep, idx1, idx2] <;> simp <;> omega

section Script

variable (a b : List Line)

theorem editScript_shortest : Shortest a b (editScript a b) := by
  have halign := editScript_aligns a b
  refine ⟨halign, fun other hother => ?_⟩
  have hkeeps : (editScript a b).countP isKeep = _ := backtrack_keeps le_rfl le_rfl le_rfl
  have hmost := kept_le_common hother.old hother.new hother.same
  have hscript := changes_eq (editScript a b)
  have hchanges := changes_eq other
  rw [halign.old, halign.new, ← hother.old, ← hother.new] at hscript
  simp only [countP_nil, Nat.sub_zero] at hkeeps hmost
  omega

theorem editScript_all_keep : (editScript a b).all isKeep ↔ a = b := by
  have hshort := editScript_shortest a b
  constructor
  · intro hall
    exact hshort.aligns.eq_of_keep (all_eq_true.mp hall)
  · rintro rfl
    have hsame : Aligns a a 0 0 ((range' 0 a.length).map fun k => .keep k k) := by
      constructor
      · simp [filterMap_map, Function.comp_def, idx1]
      · simp [filterMap_map, Function.comp_def, idx2]
      · intro k l hmem
        obtain ⟨m, -, hm⟩ := mem_map.mp hmem
        obtain ⟨rfl, rfl⟩ := keep.inj hm
        rfl
    have hleast := hshort.least _ hsame
    simpa [countP_map, Function.comp_def, isChange, isKeep, countP_eq_zero] using hleast

end Script

/-! ## What `diff` cannot see -/

/-- The lines of a file; the last one need not end in a newline. -/
def textLines (line : Line) : List UInt8 → List Line
  | [] => if line = [] then [] else [line]
  | c :: file => if c = 10 then line :: textLines [] file else textLines (line ++ [c]) file

def Whole (file : List UInt8) : Prop := unlines (readFileLines file) = file

def Same (o : Ignore) (file1 file2 : List UInt8) : Prop :=
  if o = .nothing then file1 = file2
  else (textLines [] file1).map (normalize o) = (textLines [] file2).map (normalize o)

/-- No difference is reported for equal files, and the shortest script for others. -/
def Verdict (o : Ignore) (file1 file2 : List UInt8) : Prop :=
  ((diffScript o file1 file2).all EditOp.isKeep ↔ Same o file1 file2) ∧
    (¬ Same o file1 file2 → Shortest ((textLines [] file1).map (normalize o))
      ((textLines [] file2).map (normalize o)) (diffScript o file1 file2))

theorem textLines_line {line rest file : List UInt8} (h : 10 ∉ rest) :
    textLines line (rest ++ 10 :: file) = (line ++ rest) :: textLines [] file := by
  induction rest generalizing line with
  | nil => simp [textLines]
  | cons c rest ih =>
    rw [cons_append, textLines, if_neg fun heq => h (by simp [heq]),
      ih fun hmem => h (mem_cons_of_mem c hmem), append_assoc, singleton_append]

theorem textLines_unlines {lines : List Line} (h : ∀ line ∈ lines, 10 ∉ line) :
    textLines [] (unlines lines) = lines := by
  induction lines with
  | nil => rfl
  | cons line lines ih =>
    rw [unlines, flatMap_cons, append_assoc, singleton_append, textLines_line (h line mem_cons_self)]
    exact congrArg _ (ih fun other hmem => h other (mem_cons_of_mem _ hmem))

variable {file : List UInt8}

theorem readFileLines_plain : ∀ line ∈ readFileLines file, Plain 511 line :=
  fun line hline => readLines_plain not_mem_nil not_mem_nil (Nat.zero_le _) line
    (mem_of_mem_take hline)

theorem Whole.textLines_eq (h : Whole file) : textLines [] file = readFileLines file := by
  conv_lhs => rw [← h]
  exact textLines_unlines fun line hline => (readFileLines_plain line hline).newline

/-- `diff` is right about a file and every file that is read whole just when the first is, too. -/
theorem diff_verdict (file : List UInt8) :
    (∀ other, Whole other → ∀ o, Verdict o file other) ↔ Whole file := by
  constructor
  · intro h
    have hread : readFileLines (unlines (readFileLines file)) = readFileLines file := by
      conv_lhs => rw [readFileLines, readLines_unlines readFileLines_plain]
      exact take_of_length_le (length_take_le _ _)
    have hverdict := (h _ (congrArg unlines hread) .nothing).1
    rw [diffScript, hread, editScript_all_keep, Same, if_pos rfl] at hverdict
    exact (hverdict.mp rfl).symm
  · intro hfile other hother o
    have hscript : diffScript o file other = editScript ((textLines [] file).map (normalize o))
        ((textLines [] other).map (normalize o)) := by
      rw [diffScript, hfile.textLines_eq, hother.textLines_eq]
    refine ⟨?_, fun _ => hscript ▸ editScript_shortest _ _⟩
    rw [hscript, editScript_all_keep, Same]
    split_ifs with ho
    · subst ho
      have hlines : ∀ lines : List Line, lines.map (normalize .nothing) = lines := fun _ => map_id _
      rw [hlines, hlines, hfile.textLines_eq, hother.textLines_eq]
      exact ⟨fun heq => hfile.symm.trans ((congrArg unlines heq).trans hother), fun heq => by rw [heq]⟩
    · rfl

/-- A carriage return is not seen. -/
theorem diff_misses_carriage : ¬ Verdict .nothing [13, 10] [10] := by
  intro h
  have hsame := h.1.mp (by decide)
  simp [Same] at hsame

end XsCore.Tools
