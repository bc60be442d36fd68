import XsCore.Elf.Placement

/-! # What an image page holds

A page of an image is put together on its first access: zeros, the bytes of the segments that reach
into it, and then the relocations whose target is in it.  The abstract side is the image as a whole,
with every relocation applied where it points.  The two agree on well-formed files; the loader lets
others pass.
-/

namespace XsCore.Elf

open Alignment Memory List ProgramHeader

variable {i within : Nat} {rs : List Relocation}

/-! ## Putting a page together -/

/-- A byte of the image in kernel memory; `beyond` is what lies after the file. -/
def imageByte (file : File) (beyond : Nat → UInt8) (k : Nat) : UInt8 := file.getD k (beyond k)

def copyFileRange (file : File) (beyond : Nat → UInt8) (pageOffset : Nat) (page : Nat → UInt8)
    (s : ProgramHeader) : Nat → UInt8 :=
  let start := max s.vaddr pageOffset
  let stop := min ((s.vaddr + s.filesz) % 2 ^ 64) (pageOffset + pageSize)
  fun i =>
    if start ≤ pageOffset + i ∧ pageOffset + i < stop then
      imageByte file beyond (s.offset + (pageOffset + i - s.vaddr))
    else page i

/-- The segments that are copied, among them those the loader did not look at. -/
def ProgramHeader.copied (s : ProgramHeader) : Bool :=
  decide (s.type = ptLoad) && decide (s.filesz ≠ 0)

def copySegments (c : Class) (file : File) (beyond : Nat → UInt8) (pageOffset : Nat) :
    Nat → UInt8 :=
  ((programHeaders c file).filter ProgramHeader.copied).foldl
    (copyFileRange file beyond pageOffset) fun _ => 0

def Arch.relativeType : Arch → Nat
  | .x86_64 | .x86_32 => 8
  | .aarch64 => 1027
  | .arm32 => 23
  | .riscv64 | .riscv32 => 3

def Arch.relative (a : Arch) (info : Nat) : Bool := decide (info % 2 ^ 32 = a.relativeType)

/-- The word a relocation leaves in the place of `old`, before it is cut to its width. -/
def Relocation.value (r : Relocation) (base old : Nat) : Nat :=
  match r.addend with
  | some addend => base + addend
  | none => old + base

def Relocation.write (r : Relocation) (c : Class) (base : Nat) (memory : Nat → UInt8)
    (address : Nat) : Nat → UInt8 :=
  Bytes.store memory address
    (Bytes.leBytes c.width (r.value base (Bytes.leValue (Bytes.load memory address c.width))))

/-- One round of the loops of `process_apply_dynamic_relocations`; a word must end in its page. -/
def applyRelocation (a : Arch) (c : Class) (base pageOffset : Nat) (page : Nat → UInt8)
    (r : Relocation) : Option (Nat → UInt8) :=
  if alignDown pageSize r.target ≠ pageOffset ∨ a.relative r.info = false then some page
  else if pageSize < r.target - pageOffset + c.width then none
  else some (r.write c base page (r.target - pageOffset))

def applyRelocations (a : Arch) (c : Class) (base pageOffset : Nat) :
    List Relocation → (Nat → UInt8) → Option (Nat → UInt8)
  | [], page => some page
  | r :: rest, page =>
    match applyRelocation a c base pageOffset page r with
    | none => none
    | some page => applyRelocations a c base pageOffset rest page

def Loaded.hasRelocations (l : Loaded) (pageOffset : Nat) : Option Bool :=
  if !l.dynamic.enabled then some false
  else if imageLoadWindow ≤ pageOffset then none
  else some (l.relocated.contains (pageOffset / pageSize))

/-- The part of `process_load_image_page` that makes the bytes of a page. -/
def Loaded.contents (l : Loaded) (a : Arch) (beyond : Nat → UInt8) (pageOffset : Nat) :
    Option (Nat → UInt8) :=
  let page := copySegments l.kind l.file beyond pageOffset
  match l.hasRelocations pageOffset with
  | none => none
  | some false => some page
  | some true =>
    match relocations l.kind l.file l.dynamic with
    | none => none
    | some rs => applyRelocations a l.kind l.base pageOffset rs page

/-! ## The image as a whole -/

/-- The segment has the address, before relocation. -/
def ProgramHeader.holds (s : ProgramHeader) (x : Nat) : Prop :=
  s.vaddr ≤ x ∧ x < s.vaddr + s.memsz

instance (s : ProgramHeader) (x : Nat) : Decidable (s.holds x) :=
  inferInstanceAs (Decidable (_ ∧ _))

def ProgramHeader.byte (s : ProgramHeader) (file : File) (x : Nat) : UInt8 :=
  if x < s.vaddr + s.filesz then file.getD (s.offset + (x - s.vaddr)) 0 else 0

/-- Every byte of the image is one that a segment asks for. -/
def IsImage (c : Class) (file : File) (image : Nat → UInt8) : Prop :=
  ∀ x, (∃ s ∈ programHeaders c file, s.loadable = true ∧ s.holds x ∧ image x = s.byte file x) ∨
    (∀ s ∈ programHeaders c file, s.loadable = true → ¬ s.holds x) ∧ image x = 0

def relocateWord (a : Arch) (c : Class) (base : Nat) (image : Nat → UInt8) (r : Relocation) :
    Nat → UInt8 :=
  if a.relative r.info then r.write c base image r.target else image

def relocate (a : Arch) (c : Class) (base : Nat) (rs : List Relocation) (image : Nat → UInt8) :
    Nat → UInt8 :=
  rs.foldl (relocateWord a c base) image

def InPage (pageOffset x : Nat) : Prop := pageOffset ≤ x ∧ x < pageOffset + pageSize

/-- The bytes of a page are those of the relocated image, where it has what every segment of the
page asks for. -/
def HoldsPage (a : Arch) (c : Class) (file : File) (base pageOffset : Nat)
    (bytes : Nat → UInt8) : Prop :=
  ∃ image, IsImage c file image ∧
    (∀ s ∈ programHeaders c file, s.loadable = true → ∀ x, InPage pageOffset x → s.holds x →
      image x = s.byte file x) ∧
    ∀ i < pageSize, bytes i = relocate a c base (fileRelocations c file) image (pageOffset + i)

/-- Copying the file bytes of the header reaches the address. -/
def ProgramHeader.copies (s : ProgramHeader) (x : Nat) : Prop :=
  s.vaddr ≤ x ∧ x < (s.vaddr + s.filesz) % 2 ^ 64

/-- What the loader does not check of the contents of a page: a header of no memory has no bytes in
it, the segments agree, and no word is cut by its ends. -/
structure WellFormed (a : Arch) (c : Class) (file : File) (pageOffset : Nat) : Prop where
  bounded : ∀ s ∈ programHeaders c file, s.type = ptLoad → s.memsz = 0 →
    ∀ x, InPage pageOffset x → ¬ s.copies x
  agree : ∀ s ∈ programHeaders c file, s.loadable = true →
    ∀ s' ∈ programHeaders c file, s'.loadable = true →
      ∀ x, InPage pageOffset x → s.holds x → s'.holds x → s.byte file x = s'.byte file x
  words : ∀ r ∈ fileRelocations c file, a.relative r.info = true →
    r.target + c.width ≤ pageOffset ∨ pageOffset + pageSize ≤ r.target ∨
      (pageOffset ≤ r.target ∧ r.target + c.width ≤ pageOffset + pageSize)

/-! ## The bytes of the segments -/

variable {a : Arch} {c : Class} {file : File} {beyond : Nat → UInt8} {base pageOffset : Nat}
  {s : ProgramHeader} {page image : Nat → UInt8} {l : Loaded} {ready : Bool}

theorem copyFileRange_apply (file : File) (beyond : Nat → UInt8) (pageOffset : Nat)
    (page : Nat → UInt8) (s : ProgramHeader) (hi : i < pageSize) :
    (s.copies (pageOffset + i) → copyFileRange file beyond pageOffset page s i =
      imageByte file beyond (s.offset + (pageOffset + i - s.vaddr))) ∧
    (¬ s.copies (pageOffset + i) → copyFileRange file beyond pageOffset page s i = page i) := by
  unfold copies copyFileRange
  constructor
  · intro hcopies
    exact if_pos (by omega)
  · intro hcopies
    exact if_neg (by omega)

theorem copyFold_apply (file : File) (beyond : Nat → UInt8) (pageOffset : Nat)
    (segments : List ProgramHeader) (page : Nat → UInt8) (hi : i < pageSize) :
    (∃ s ∈ segments, s.copies (pageOffset + i) ∧
      segments.foldl (copyFileRange file beyond pageOffset) page i =
        imageByte file beyond (s.offset + (pageOffset + i - s.vaddr))) ∨
    (∀ s ∈ segments, ¬ s.copies (pageOffset + i)) ∧
      segments.foldl (copyFileRange file beyond pageOffset) page i = page i := by
  induction segments generalizing page with
  | nil => exact .inr ⟨by simp, rfl⟩
  | cons s rest ih =>
    have hstep := copyFileRange_apply file beyond pageOffset page s hi
    rw [foldl_cons]
    rcases ih (copyFileRange file beyond pageOffset page s) with
      ⟨s', hs', hcopies, hbyte⟩ | ⟨hnone, hkept⟩
    · exact .inl ⟨s', by simp [hs'], hcopies, hbyte⟩
    rw [hkept]
    by_cases hcopies : s.copies (pageOffset + i)
    · exact .inl ⟨s, by simp, hcopies, hstep.1 hcopies⟩
    right
    constructor
    · intro s' hs'
      rcases mem_cons.mp hs' with rfl | hs'
      · exact hcopies
      · exact hnone s' hs'
    · exact hstep.2 hcopies

/-- The limit of the loader is far from the end of the address space. -/
theorem limit_lt (a : Arch) : a.userCode + imageLoadWindow < 2 ^ 64 := by
  cases a <;> decide

/-- The file bytes of an accepted segment are in the file, and its addresses do not wrap. -/
theorem Extent.copyable {w : Window}
    (h : Extent a c (loadBase a c (c.header file)) file.length s w)
    (hs : s ∈ programHeaders c file) :
    s.vaddr + s.filesz < 2 ^ 64 ∧ s.filesz ≤ s.memsz ∧ s.offset + s.filesz ≤ file.length := by
  have hfits := h.fits
  have hinside := hfits.2
  simp only [rangeInside, decide_eq_true_eq] at hinside
  refine ⟨?_, hfits.1, by omega⟩
  cases c with
  | elf32 =>
    obtain ⟨k, rfl⟩ := mem_programHeaders hs
    have hvaddr : (Class.elf32.programHeader file k).vaddr < 2 ^ 32 := field_lt file (k + 8) 4
    have hfilesz : (Class.elf32.programHeader file k).filesz < 2 ^ 32 := field_lt file (k + 16) 4
    omega
  | elf64 =>
    obtain ⟨stop, hstop, -, hlimit⟩ := h.hi
    have hwhole : stop = s.vaddr + s.memsz := by
      unfold ProgramHeader.stop at hstop
      split_ifs at hstop
      exact (Option.some.inj hstop).symm
    have hend := limit_lt a
    split_ifs at hlimit <;> omega

/-- The memory the segments ask for; where they differ, the first one decides. -/
def segmentImage (c : Class) (file : File) (x : Nat) : UInt8 :=
  match (programHeaders c file).find? fun s => s.loadable && decide (s.holds x) with
  | some s => s.byte file x
  | none => 0

theorem segmentImage_isImage (c : Class) (file : File) : IsImage c file (segmentImage c file) := by
  intro x
  unfold segmentImage
  cases hfind : (programHeaders c file).find? fun s => s.loadable && decide (s.holds x) with
  | some s =>
    have hs := find?_some hfind
    rw [Bool.and_eq_true, decide_eq_true_eq] at hs
    exact .inl ⟨s, mem_of_find?_eq_some hfind, hs.1, hs.2, rfl⟩
  | none =>
    refine .inr ⟨fun s hs hloadable hholds => ?_, rfl⟩
    have hnot := find?_eq_none.mp hfind s hs
    exact hnot (by rw [hloadable, decide_eq_true hholds]; rfl)

theorem WellFormed.segmentImage_eq (hwell : WellFormed a c file pageOffset)
    (hs : s ∈ programHeaders c file) (hloadable : s.loadable) {x : Nat} (hx : InPage pageOffset x)
    (hholds : s.holds x) : segmentImage c file x = s.byte file x := by
  rcases segmentImage_isImage c file x with ⟨s', hs', hloadable', hholds', hbyte⟩ | ⟨hnone, -⟩
  · rw [hbyte]
    exact hwell.agree s' hs' hloadable' s hs hloadable x hx hholds' hholds
  · exact absurd hholds (hnone s hs hloadable)

def Shows (page image : Nat → UInt8) (pageOffset : Nat) : Prop :=
  ∀ i < pageSize, page i = image (pageOffset + i)

theorem WellFormed.shows (hwell : WellFormed a c file pageOffset)
    (haccepted : ∀ s ∈ programHeaders c file, s.loadable →
      ∃ w, s.extent a c (loadBase a c (c.header file)) file.length = some w)
    (beyond : Nat → UInt8) :
    Shows (copySegments c file beyond pageOffset) (segmentImage c file) pageOffset := by
  intro i hi
  have hx : InPage pageOffset (pageOffset + i) := ⟨Nat.le_add_right _ _, by omega⟩
  rcases copyFold_apply file beyond pageOffset ((programHeaders c file).filter copied)
    (fun _ => 0) hi with ⟨s, hs, hcopies, hvalue⟩ | ⟨hnone, hvalue⟩
  · obtain ⟨hs, hcopied⟩ := mem_filter.mp hs
    simp only [ProgramHeader.copied, Bool.and_eq_true, decide_eq_true_eq] at hcopied
    have hmemsz : s.memsz ≠ 0 := fun hzero => hwell.bounded s hs hcopied.1 hzero _ hx hcopies
    have hloadable : s.loadable := by simp [loadable, hcopied.1, hmemsz]
    obtain ⟨w, hw⟩ := haccepted s hs hloadable
    obtain ⟨hsum, hbounded, hinside⟩ := (extent_spec hw).copyable hs
    obtain ⟨hlow, hhigh⟩ := hcopies
    rw [Nat.mod_eq_of_lt hsum] at hhigh
    have hbound : s.offset + (pageOffset + i - s.vaddr) < file.length := by omega
    rw [copySegments, hvalue,
      hwell.segmentImage_eq hs hloadable hx ⟨hlow, by omega⟩, byte, if_pos hhigh, imageByte]
    simp [List.getD, hbound]
  · rw [copySegments, hvalue]
    rcases segmentImage_isImage c file (pageOffset + i) with
      ⟨s, hs, hloadable, hholds, hbyte⟩ | ⟨-, hzero⟩
    · rw [hbyte, byte, if_neg]
      intro hfile
      obtain ⟨w, hw⟩ := haccepted s hs hloadable
      have hsum := ((extent_spec hw).copyable hs).1
      have hfirst := hholds.1
      apply hnone s (mem_filter.mpr ⟨hs, ?_⟩) ⟨hfirst, by rwa [Nat.mod_eq_of_lt hsum]⟩
      simp only [loadable, ProgramHeader.copied, Bool.and_eq_true, decide_eq_true_eq]
        at hloadable ⊢
      omega
    · exact hzero.symm

/-! ## The relocated words -/

section

variable (h : Shows page image pageOffset)
include h

theorem Shows.load {width : Nat} (hend : within + width ≤ pageSize) :
    Bytes.load page within width = Bytes.load image (pageOffset + within) width := by
  apply map_congr_left
  intro i hi
  rw [mem_range] at hi
  rw [h (within + i) (by omega), Nat.add_assoc]

theorem Shows.write (base : Nat) (r : Relocation) (hend : within + c.width ≤ pageSize) :
    Shows (r.write c base page within) (r.write c base image (pageOffset + within)) pageOffset := by
  unfold Relocation.write
  rw [h.load hend]
  intro i hi
  unfold Bytes.store
  have hsub : pageOffset + i - (pageOffset + within) = i - within := by omega
  rw [hsub, h i hi]
  by_cases hword : within ≤ i ∧ i < within + c.width
  · rw [if_pos (by simpa using hword), if_pos (by rw [Bytes.leBytes_length]; omega)]
  · rw [if_neg (by simpa using hword), if_neg (by rw [Bytes.leBytes_length]; omega)]

theorem Shows.other (r : Relocation)
    (hother : r.target + c.width ≤ pageOffset ∨ pageOffset + pageSize ≤ r.target) :
    Shows page (r.write c base image r.target) pageOffset := by
  intro i hi
  rw [h i hi]
  unfold Relocation.write
  rw [Bytes.store_outside]
  rw [Bytes.leBytes_length]
  omega

end

theorem alignDown_eq_iff (hpage : pageSize ∣ pageOffset) (x : Nat) :
    alignDown pageSize x = pageOffset ↔ InPage pageOffset x := by
  have hlow := alignDown_le pageSize x
  have hhigh := lt_alignDown_add pageSize_pos x
  constructor
  · rintro rfl
    exact ⟨hlow, hhigh⟩
  · rintro ⟨hfirst, hlast⟩
    rcases Nat.lt_trichotomy (alignDown pageSize x) pageOffset with hlt | heq | hgt
    · have hroom := add_le_of_lt (dvd_alignDown pageSize x) hpage hlt
      omega
    · exact heq
    · have hroom := add_le_of_lt hpage (dvd_alignDown pageSize x) hgt
      omega

theorem applyRelocations_shows (base : Nat) (rs : List Relocation) (hpage : pageSize ∣ pageOffset)
    (hwords : ∀ r ∈ rs, a.relative r.info → r.target + c.width ≤ pageOffset ∨
      pageOffset + pageSize ≤ r.target ∨
      (pageOffset ≤ r.target ∧ r.target + c.width ≤ pageOffset + pageSize))
    (h : Shows page image pageOffset) :
    ∃ page', applyRelocations a c base pageOffset rs page = some page' ∧
      Shows page' (relocate a c base rs image) pageOffset := by
  have hwidth : 0 < c.width := by cases c <;> decide
  induction rs generalizing page image with
  | nil => exact ⟨page, rfl, h⟩
  | cons r rest ih =>
    have hrest := fun r' hr' => hwords r' (mem_cons_of_mem r hr')
    have hhere := alignDown_eq_iff hpage r.target
    unfold InPage at hhere
    unfold applyRelocations
    rw [relocate, foldl_cons]
    by_cases hrelative : a.relative r.info
    · have hword := hwords r (by simp) hrelative
      unfold applyRelocation relocateWord
      rw [if_pos hrelative]
      by_cases hinside : pageOffset ≤ r.target ∧ r.target < pageOffset + pageSize
      · have htarget : pageOffset + (r.target - pageOffset) = r.target := by omega
        rw [if_neg (by simp [hhere.mpr hinside, hrelative]), if_neg (by omega)]
        have hwrite := h.write base r (show r.target - pageOffset + c.width ≤ pageSize by omega)
        rw [htarget] at hwrite
        exact ih hrest hwrite
      · rw [if_pos (.inl fun heq => hinside (hhere.mp heq))]
        exact ih hrest (h.other r (by omega))
    · unfold applyRelocation relocateWord
      rw [if_pos (.inr (by simpa using hrelative)), if_neg hrelative]
      exact ih hrest h

theorem applyRelocations_other (rs : List Relocation)
    (hother : ∀ r ∈ rs, alignDown pageSize r.target ≠ pageOffset) :
    applyRelocations a c base pageOffset rs page = some page := by
  induction rs with
  | nil => rfl
  | cons r rest ih =>
    unfold applyRelocations applyRelocation
    rw [if_pos (.inl (hother r (by simp)))]
    exact ih fun r' hr' => hother r' (mem_cons_of_mem r hr')

/-! ## Whole pages -/

theorem Accepts.base_eq (h : Accepts a file l) (henabled : l.dynamic.enabled) :
    l.base = a.userCode := by
  rcases h.pie with hdynamic | hnone
  · have hfixed : (l.kind.header file).fixed l.kind = false := by
      generalize l.kind.header file = header at hdynamic
      unfold Header.fixed
      cases l.kind <;> simp [hdynamic]
    rw [h.base, loadBase, hfixed]
    rfl
  · rw [hnone] at henabled
    cases henabled

theorem Accepts.contents_eq (h : Accepts a file l)
    (hrs : relocations l.kind file l.dynamic = some rs) (beyond : Nat → UInt8)
    (hwindow : l.base = a.userCode → pageOffset < imageLoadWindow) :
    l.contents a beyond pageOffset =
      applyRelocations a l.kind l.base pageOffset rs
        (copySegments l.kind file beyond pageOffset) := by
  unfold Loaded.contents Loaded.hasRelocations
  rw [h.source]
  rcases henabled : l.dynamic.enabled with _ | _
  · have hempty : rs = [] := by
      simp only [relocations, henabled, Bool.not_false, if_true, Option.some.injEq] at hrs
      exact hrs.symm
    rw [hempty]
    rfl
  have hlt := hwindow (h.base_eq henabled)
  rw [if_neg (by simp), if_neg (by omega)]
  rcases hmarked : l.relocated.contains (pageOffset / pageSize) with _ | _
  swap
  · simp only [hrs]
  rw [applyRelocations_other]
  intro r hr hhere
  have hbuilt := h.relocated
  rw [buildRelocationPages, hrs] at hbuilt
  dsimp only at hbuilt
  split_ifs at hbuilt
  rw [← Option.some.inj hbuilt, contains_eq_mem, decide_eq_false_iff_not] at hmarked
  apply hmarked
  rw [mem_map]
  refine ⟨r, hr, ?_⟩
  rw [← hhere, alignDown, Nat.mul_div_cancel _ pageSize_pos]

theorem contents_spec (hload : loadElfImage a file ready = some l)
    (hwell : WellFormed a l.kind file pageOffset) (beyond : Nat → UInt8)
    (hpage : pageSize ∣ pageOffset) (hwindow : l.base = a.userCode → pageOffset < imageLoadWindow) :
    ∃ bytes, l.contents a beyond pageOffset = some bytes ∧
      HoldsPage a l.kind file l.base pageOffset bytes := by
  have hspec := loadElfImage_spec hload
  have hshows := hwell.shows hspec.segments.accepted beyond
  rcases hrs : relocations l.kind file l.dynamic with _ | rs
  · have hbuild := hspec.relocated
    simp [buildRelocationPages, hrs] at hbuild
  have hfile : fileRelocations l.kind file = rs := by
    rw [fileRelocations, ← hspec.dynamic, hrs]
    rfl
  have hwords := hwell.words
  rw [hfile] at hwords
  rw [hspec.contents_eq hrs beyond hwindow]
  obtain ⟨page', happly, hpage'⟩ := applyRelocations_shows l.base rs hpage hwords hshows
  refine ⟨page', happly, _, segmentImage_isImage l.kind file, ?_, by rw [hfile]; exact hpage'⟩
  exact fun s hs hloadable x hx hholds => hwell.segmentImage_eq hs hloadable hx hholds

end XsCore.Elf
