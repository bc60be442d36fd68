import XsCore.Elf.Loader

/-! # Where images go

The loader bounds the end of a segment by the image window and keeps segments off the signal
trampoline.  Nothing keeps them off the stack, the heap and the mappings, fixed images are not
bounded from below, and the end of a segment of the narrow class may wrap around.  A file that is
accepted is placed safely exactly when its segments avoid all of that by themselves.
-/

namespace XsCore.Elf

open Alignment Memory List

variable {page i : Nat} {headers : List ProgramHeader} {h : Header}

/-! ## What the loader reserves -/

variable {a : Arch} {c : Class} {file : File} {base size : Nat} {flags : PageFlags}
  {mapped mapped' : List MappedPage} {s : ProgramHeader} {st st' : LoadState} {w : Window}
  {ready : Bool}

def pagesOf (mapped : List MappedPage) : List Nat := mapped.map MappedPage.page

/-- A page is recorded in the place of its old record or behind the others. -/
theorem reserveImagePage_spec (h : reserveImagePage mapped page flags = some mapped') :
    (∃ i slot, findSlot (·.page = page) mapped = some (i, slot) ∧ slot.page = page ∧
      mapped' = mapped.set i (slot.merge flags)) ∨
    (∀ s ∈ mapped, s.page ≠ page) ∧ mapped' = mapped ++ [trackedPage page none flags] := by
  unfold reserveImagePage trackPage at h
  rcases hfind : findSlot (fun s => decide (s.page = page)) mapped with _ | ⟨i, slot⟩
  · simp only [hfind] at h
    split_ifs at h
    exact .inr ⟨fun s hs => of_decide_eq_false (findSlot_none hfind s hs), (Option.some.inj h).symm⟩
  · simp only [hfind, Option.some.injEq] at h
    exact .inl ⟨i, slot, hfind, of_decide_eq_true (findSlot_some hfind).2, h.symm⟩

theorem mem_pagesOf_reserve (h : reserveImagePage mapped page flags = some mapped') (q : Nat) :
    q ∈ pagesOf mapped' ↔ q ∈ pagesOf mapped ∨ q = page := by
  rcases reserveImagePage_spec h with ⟨i, slot, hfind, hpage, rfl⟩ | ⟨-, rfl⟩
  · have hslot := (findSlot_some hfind).1
    obtain ⟨hlt, hget⟩ := List.getElem?_eq_some_iff.mp hslot
    have hsame : pagesOf (mapped.set i (slot.merge flags)) = pagesOf mapped := by
      rw [pagesOf, map_set]
      have hmap : i < (mapped.map MappedPage.page).length := by simpa using hlt
      have hkept : (slot.merge flags).page = (mapped.map MappedPage.page)[i] := by
        rw [getElem_map, hget]
        rfl
      rw [hkept, set_getElem_self]
      rfl
    have hmem : page ∈ pagesOf mapped := hpage ▸ mem_map_of_mem (mem_of_getElem? hslot)
    rw [hsame]
    exact ⟨.inl, fun hq => hq.elim id fun heq => heq ▸ hmem⟩
  · simp [pagesOf, trackedPage]

theorem reservePages_succ {n offset : Nat}
    (h : reservePages base flags (n + 1) offset mapped = some mapped') :
    ∃ next, reserveImagePage mapped ((base + offset) / pageSize) flags = some next ∧
      reservePages base flags n (offset + pageSize) next = some mapped' := by
  rw [reservePages] at h
  split_ifs at h
  split at h
  · cases h
  · next hone => exact ⟨_, hone, h⟩

theorem mem_pagesOf_reservePages {n offset : Nat}
    (h : reservePages base flags n offset mapped = some mapped') (q : Nat) : q ∈ pagesOf mapped' ↔
      q ∈ pagesOf mapped ∨ ∃ i < n, q = (base + (offset + i * pageSize)) / pageSize := by
  induction n generalizing offset mapped with
  | zero =>
    rw [← Option.some.inj h]
    simp
  | succ n ih =>
    obtain ⟨next, hone, h⟩ := reservePages_succ h
    rw [ih h, mem_pagesOf_reserve hone, or_assoc]
    refine or_congr Iff.rfl ⟨fun hq => ?_, fun hq => ?_⟩
    · rcases hq with hq | ⟨i, hi, hq⟩
      · exact ⟨0, by omega, by simpa using hq⟩
      · refine ⟨i + 1, by omega, ?_⟩
        rw [hq, Nat.succ_mul, Nat.add_assoc offset, Nat.add_comm pageSize]
    · obtain ⟨i, hi, hq⟩ := hq
      cases i with
      | zero => exact .inl (by simpa using hq)
      | succ i =>
        refine .inr ⟨i, by omega, ?_⟩
        rw [hq, Nat.succ_mul, Nat.add_assoc offset, Nat.add_comm pageSize]

def Window.hasPage (w : Window) (base page : Nat) : Prop :=
  base + w.lo ≤ page * pageSize ∧ page * pageSize < base + w.hi

theorem Window.hasPage_iff (hbase : pageSize ∣ base) (hlo : pageSize ∣ w.lo) (hhi : pageSize ∣ w.hi)
    (q : Nat) : (∃ i < (w.hi - w.lo) / pageSize, q = (base + (w.lo + i * pageSize)) / pageSize) ↔
      w.hasPage base q := by
  obtain ⟨lo, hi⟩ := w
  obtain ⟨b, rfl⟩ := hbase
  obtain ⟨l, rfl⟩ := hlo
  obtain ⟨h, rfl⟩ := hhi
  have hpos : 0 < pageSize := by decide
  have hcount : (pageSize * h - pageSize * l) / pageSize = h - l := by
    rw [← Nat.mul_sub, Nat.mul_div_cancel_left _ hpos]
  have hpage : ∀ i, (pageSize * b + (pageSize * l + i * pageSize)) / pageSize = b + (l + i) := by
    intro i
    rw [Nat.mul_comm i, ← Nat.mul_add, ← Nat.mul_add, Nat.mul_div_cancel_left _ hpos]
  have hlow : pageSize * b + pageSize * l ≤ q * pageSize ↔ b + l ≤ q := by
    rw [← Nat.mul_add, Nat.mul_comm q]
    exact Nat.mul_le_mul_left_iff hpos
  have hhigh : q * pageSize < pageSize * b + pageSize * h ↔ q < b + h := by
    rw [← Nat.mul_add, Nat.mul_comm q]
    exact Nat.mul_lt_mul_left hpos
  unfold Window.hasPage
  simp only [hcount, hpage, hlow, hhigh]
  constructor
  · rintro ⟨i, hi, rfl⟩
    omega
  · rintro ⟨hle, hlt⟩
    exact ⟨q - (b + l), by omega, by omega⟩

/-- What the checks of a segment leave: its pages, from the one of its first byte up to its end,
within the limit and off the trampoline. -/
structure Extent (a : Arch) (c : Class) (base size : Nat) (s : ProgramHeader) (w : Window) : Prop
    where
  fits : s.filesz ≤ s.memsz ∧ rangeInside s.offset s.filesz size = true
  lo : w.lo = alignDown pageSize s.vaddr
  hi : ∃ stop, s.stop c = some stop ∧ w.hi = alignUp pageSize stop ∧
    stop ≤ if base ≠ 0 then imageLoadWindow else a.userCode + imageLoadWindow
  signal : ¬ (w.lo ≤ (if base ≠ 0 then a.trampolineOffset else a.userCode + a.trampolineOffset) ∧
    (if base ≠ 0 then a.trampolineOffset else a.userCode + a.trampolineOffset) < w.hi)

theorem ProgramHeader.extent_spec (h : s.extent a c base size = some w) :
    Extent a c base size s w := by
  unfold ProgramHeader.extent at h
  obtain ⟨hfits, h⟩ := Option.ite_none_left_eq_some.mp h
  rw [not_or] at hfits
  rcases hstop : s.stop c with _ | stop
  · simp [hstop] at h
  simp only [hstop, Option.ite_none_left_eq_some] at h
  obtain ⟨hlimit, hsignal, h⟩ := h
  rw [← Option.some.inj h]
  exact ⟨⟨by omega, by simpa using hfits.2⟩, rfl, ⟨stop, hstop, rfl, by omega⟩, hsignal⟩

/-- The records after the segments of a list were loaded. -/
structure Reserves (a : Arch) (c : Class) (file : File) (headers : List ProgramHeader)
    (mapped mapped' : List MappedPage) : Prop where
  accepted : ∀ s ∈ headers, s.loadable = true →
    ∃ w, s.extent a c (loadBase a c (c.header file)) file.length = some w
  pages : ∀ q, q ∈ pagesOf mapped' ↔ q ∈ pagesOf mapped ∨
    ∃ s ∈ headers, s.loadable = true ∧ ∃ w,
      s.extent a c (loadBase a c (c.header file)) file.length = some w ∧
      w.hasPage (loadBase a c (c.header file)) q

theorem dvd_userCode (a : Arch) : pageSize ∣ a.userCode := by
  cases a <;> decide

theorem dvd_loadBase (a : Arch) (c : Class) (h : Header) : pageSize ∣ loadBase a c h := by
  unfold loadBase
  split
  · exact Nat.dvd_zero _
  · exact dvd_userCode a

theorem Extent.dvd (h : Extent a c base size s w) : pageSize ∣ w.lo ∧ pageSize ∣ w.hi := by
  obtain ⟨stop, -, hhi, -⟩ := h.hi
  rw [h.lo, hhi]
  exact ⟨dvd_alignDown _ _, dvd_alignUp _ _⟩

/-- What one round does: it takes in a dynamic segment, reserves the pages of a segment that
occupies memory, or passes over the header. -/
theorem loadSegment_cases (h : loadSegment a c file st s = some st') :
    (s.type = ptDynamic ∧ (c.header file).dynamic ∧
      ∃ d, parseDynamicSegment c file s st.dynamic = some d ∧ st' = { st with dynamic := d }) ∨
    (s.type ≠ ptDynamic ∧ s.loadable ∧ st'.dynamic = st.dynamic ∧
      ∃ w, s.extent a c (loadBase a c (c.header file)) file.length = some w ∧
        reservePages (loadBase a c (c.header file)) s.pageFlags ((w.hi - w.lo) / pageSize) w.lo
          st.mapped = some st'.mapped ∧
        (st'.entryPage = st.entryPage ∨ w.lo ≤ alignDown pageSize (c.header file).entry ∧
          alignDown pageSize (c.header file).entry < w.hi)) ∨
    (s.type ≠ ptDynamic ∧ s.loadable = false ∧ st' = st) := by
  unfold loadSegment at h
  split at h
  · cases h
  dsimp only at h
  split_ifs at h with hdynamic hheader hloadable
  · obtain ⟨d, hparse, hst⟩ := Option.map_eq_some_iff.mp h
    exact .inl ⟨hdynamic, hheader, d, hparse, hst.symm⟩
  · split at h
    · cases h
    rename_i w hextent
    split at h
    · cases h
    rename_i next hpages
    rw [← Option.some.inj h]
    refine .inr (.inl ⟨hdynamic, hloadable, rfl, w, hextent, hpages, ?_⟩)
    dsimp only
    split_ifs with hentry
    · exact .inr hentry
    · exact .inl rfl
  · exact .inr (.inr ⟨hdynamic, by simpa using hloadable, (Option.some.inj h).symm⟩)

theorem loadSegments_cons {rest : List ProgramHeader}
    (h : loadSegments a c file (s :: rest) st = some st') :
    ∃ next, loadSegment a c file st s = some next ∧
      loadSegments a c file rest next = some st' := by
  unfold loadSegments at h
  split at h
  · cases h
  rename_i next hone
  exact ⟨next, hone, h⟩

theorem loadSegment_mapped (h : loadSegment a c file st s = some st') :
    (s.loadable = false ∧ st'.mapped = st.mapped) ∨
    (s.loadable ∧ ∃ w, s.extent a c (loadBase a c (c.header file)) file.length = some w ∧
      reservePages (loadBase a c (c.header file)) s.pageFlags ((w.hi - w.lo) / pageSize) w.lo
        st.mapped = some st'.mapped) := by
  rcases loadSegment_cases h with ⟨htype, -, d, -, rfl⟩ | ⟨-, hloadable, -, w, hw, hpages, -⟩ |
    ⟨-, hnot, rfl⟩
  · exact .inl ⟨by simp [ProgramHeader.loadable, htype, ptDynamic, ptLoad], rfl⟩
  · exact .inr ⟨hloadable, w, hw, hpages⟩
  · exact .inl ⟨hnot, rfl⟩

theorem Reserves.skip (hnot : s.loadable = false) : Reserves a c file [s] mapped mapped := by
  have habsurd : ∀ s' ∈ [s], ¬ s'.loadable := by
    intro s' hs'
    rw [mem_singleton.mp hs', hnot]
    exact Bool.false_ne_true
  constructor
  · intro s' hs' hloadable
    exact absurd hloadable (habsurd s' hs')
  · intro q
    constructor
    · exact .inl
    · rintro (hq | ⟨s', hs', hloadable, -⟩)
      · exact hq
      · exact absurd hloadable (habsurd s' hs')

theorem loadSegment_reserves (h : loadSegment a c file st s = some st') :
    Reserves a c file [s] st.mapped st'.mapped := by
  rcases loadSegment_mapped h with ⟨hnot, hsame⟩ | ⟨hloadable, w, hextent, hpages⟩
  · rw [hsame]
    exact Reserves.skip hnot
  have hdvd := (ProgramHeader.extent_spec hextent).dvd
  constructor
  · intro s' hs' _
    rw [mem_singleton.mp hs']
    exact ⟨w, hextent⟩
  · intro q
    rw [mem_pagesOf_reservePages hpages, Window.hasPage_iff (dvd_loadBase a c _) hdvd.1 hdvd.2]
    simp [hloadable, hextent]

theorem loadSegments_reserves (h : loadSegments a c file headers st = some st') :
    Reserves a c file headers st.mapped st'.mapped := by
  induction headers generalizing st with
  | nil =>
    rw [← Option.some.inj h]
    exact ⟨by simp, by simp⟩
  | cons s rest ih =>
    obtain ⟨next, hone, h⟩ := loadSegments_cons h
    have hfirst := loadSegment_reserves hone
    have hrest := ih h
    constructor
    · intro s' hs' hloadable
      rcases mem_cons.mp hs' with rfl | hs'
      · exact hfirst.accepted s' (by simp) hloadable
      · exact hrest.accepted s' hs' hloadable
    · intro q
      rw [hrest.pages, hfirst.pages, or_assoc]
      simp

/-- The dynamic section that is gathered is that of the file, and only position-independent files
have one. -/
theorem loadSegments_dynamic (h : loadSegments a c file headers st = some st') :
    st'.dynamic = gatherDynamic c file headers st.dynamic ∧
    ((c.header file).dynamic ∨ st'.dynamic = st.dynamic) := by
  induction headers generalizing st with
  | nil =>
    rw [← Option.some.inj h]
    exact ⟨rfl, .inr rfl⟩
  | cons s rest ih =>
    obtain ⟨next, hone, h⟩ := loadSegments_cons h
    have hrest := ih h
    unfold gatherDynamic at hrest ⊢
    rcases loadSegment_cases hone with ⟨htype, hheader, d, hparse, rfl⟩ |
      ⟨htype, -, hsame, -⟩ | ⟨htype, -, rfl⟩
    · rw [filter_cons_of_pos (by simpa using htype), foldl_cons, hparse]
      exact ⟨hrest.1, .inl hheader⟩
    · rw [filter_cons_of_neg (by simpa using htype), ← hsame]
      exact hrest
    · rw [filter_cons_of_neg (by simpa using htype)]
      exact hrest

theorem loadSegments_entry (h : loadSegments a c file headers st = some st') :
    st'.entryPage = st.entryPage ∨
    ∃ s ∈ headers, s.loadable ∧
      ∃ w, s.extent a c (loadBase a c (c.header file)) file.length = some w ∧
        w.lo ≤ alignDown pageSize (c.header file).entry ∧
        alignDown pageSize (c.header file).entry < w.hi := by
  induction headers generalizing st with
  | nil =>
    rw [← Option.some.inj h]
    exact .inl rfl
  | cons s rest ih =>
    obtain ⟨next, hone, h⟩ := loadSegments_cons h
    rcases ih h with hsame | ⟨s', hs', hfound⟩
    · rw [hsame]
      rcases loadSegment_cases hone with ⟨-, -, d, -, rfl⟩ |
        ⟨-, hloadable, -, w, hextent, -, hkept | hentry⟩ | ⟨-, -, rfl⟩
      · exact .inl rfl
      · exact .inl hkept
      · exact .inr ⟨s, by simp, hloadable, w, hextent, hentry⟩
      · exact .inl rfl
    · exact .inr ⟨s', mem_cons_of_mem s hs', hfound⟩

/-- What an accepted file has gone through. -/
structure Accepts (a : Arch) (file : File) (image : Loaded) : Prop where
  kind : classOf file = some image.kind
  base : image.base = loadBase a image.kind (image.kind.header file)
  loaded : ∃ st, loadSegments a image.kind file (programHeaders image.kind file)
    ⟨[], .none, false, 0⟩ = some st ∧ st.mapped = image.reserved
  segments : Reserves a image.kind file (programHeaders image.kind file) [] image.reserved
  entry : ∃ s ∈ programHeaders image.kind file, s.loadable = true ∧
    ∃ w, s.extent a image.kind (loadBase a image.kind (image.kind.header file)) file.length =
        some w ∧
      w.lo ≤ alignDown pageSize (image.kind.header file).entry ∧
      alignDown pageSize (image.kind.header file).entry < w.hi
  dynamic : image.dynamic = fileDynamic image.kind file
  pie : (image.kind.header file).dynamic = true ∨ image.dynamic = Dynamic.none
  relocated : buildRelocationPages image.kind file image.dynamic = some image.relocated
  source : image.file = file

theorem loadElfImage_spec {image : Loaded} (h : loadElfImage a file ready = some image) :
    Accepts a file image := by
  unfold loadElfImage at h
  split at h
  · cases h
  rename_i c hclass
  obtain ⟨-, h⟩ := Option.ite_none_left_eq_some.mp h
  split at h
  · cases h
  rename_i st hload
  obtain ⟨hfound, h⟩ := Option.ite_none_left_eq_some.mp h
  split at h
  · cases h
  rename_i relocated hbitmap
  split_ifs at h
  rw [← Option.some.inj h]
  have hdynamic := loadSegments_dynamic hload
  have hentry := (loadSegments_entry hload).resolve_left fun hzero => hfound (.inr hzero)
  exact ⟨hclass, rfl, ⟨st, hload, rfl⟩, loadSegments_reserves hload, hentry, hdynamic.1,
    hdynamic.2, hbitmap, rfl⟩

/-! ## Safe places -/

def Window.avoids (w : Window) (lo hi : Nat) : Prop := hi ≤ w.lo ∨ w.hi ≤ lo

instance (w : Window) (lo hi : Nat) : Decidable (w.avoids lo hi) :=
  inferInstanceAs (Decidable (_ ∨ _))

/-- The windows that an image has to keep off, besides the trampoline. -/
def Arch.reservedWindows (a : Arch) : List Window := [a.stack, a.heap, a.mmap]

structure Placed (a : Arch) (page : Nat) : Prop where
  lo : a.imageWindow.lo ≤ page * pageSize
  hi : page * pageSize + pageSize ≤ a.imageWindow.hi
  trampoline : a.trampoline.avoids (page * pageSize) (page * pageSize + pageSize)
  others : ∀ w ∈ a.reservedWindows, w.avoids (page * pageSize) (page * pageSize + pageSize)

def ProgramHeader.covers (s : ProgramHeader) (base page : Nat) : Prop :=
  base + s.vaddr < page * pageSize + pageSize ∧ page * pageSize < base + s.vaddr + s.memsz

/-- An accepted file has all its pages in safe places: the reserved ones, and those that its
segments ask for. -/
def PlacementSafe (a : Arch) (file : File) (ready : Bool) : Prop :=
  ∀ image, loadElfImage a file ready = some image →
    (∀ slot ∈ image.reserved, Placed a slot.page) ∧
    ∀ s ∈ programHeaders image.kind file, s.loadable = true →
      ∀ page, s.covers image.base page → Placed a page

/-- What the loader does not check of a segment. -/
structure ProgramHeader.Clear (s : ProgramHeader) (a : Arch) (c : Class) (base : Nat) : Prop where
  whole : s.stop c = some (s.vaddr + s.memsz)
  lo : a.imageWindow.lo ≤ base + s.vaddr
  others : ∀ w ∈ a.reservedWindows, w.avoids (base + s.vaddr) (base + s.vaddr + s.memsz)

def Harmless (a : Arch) (file : File) : Prop :=
  ∀ c, classOf file = some c → ∀ s ∈ programHeaders c file, s.loadable = true →
    s.Clear a c (loadBase a c (c.header file))

theorem pageSize_pos : 0 < pageSize := by decide

theorem dvd_page (page : Nat) : pageSize ∣ page * pageSize := Nat.dvd_mul_left pageSize page

theorem dvd_imageWindow (a : Arch) : pageSize ∣ a.imageWindow.lo ∧ pageSize ∣ a.imageWindow.hi := by
  cases a <;> decide

theorem dvd_trampoline (a : Arch) : pageSize ∣ a.trampoline.lo := by
  cases a <;> decide

theorem dvd_reservedWindows (a : Arch) : ∀ w ∈ a.reservedWindows,
    pageSize ∣ w.lo ∧ pageSize ∣ w.hi ∧ w.lo < w.hi := by
  cases a <;> decide

theorem ProgramHeader.covers_of_byte {x : Nat} (hlo : base + s.vaddr ≤ x)
    (hhi : x < base + s.vaddr + s.memsz) : s.covers base (x / pageSize) := by
  have hdown := alignDown_le pageSize x
  have hnext := lt_alignDown_add pageSize_pos x
  unfold alignDown at hdown hnext
  constructor <;> omega

theorem Extent.covers_iff (h : Extent a c base size s w) (hbase : pageSize ∣ base)
    (hwhole : s.stop c = some (s.vaddr + s.memsz)) (page : Nat) :
    s.covers base page ↔ w.hasPage base page := by
  obtain ⟨stop, hstop, hhi, -⟩ := h.hi
  rw [hwhole] at hstop
  rw [← Option.some.inj hstop] at hhi
  have hdown := alignDown_le pageSize s.vaddr
  have hdownNext := lt_alignDown_add pageSize_pos s.vaddr
  have hup := le_alignUp pageSize_pos (s.vaddr + s.memsz)
  have hupPrev := alignUp_lt_add pageSize_pos (s.vaddr + s.memsz)
  rw [← h.lo] at hdown hdownNext
  have hlo : pageSize ∣ base + w.lo := Nat.dvd_add hbase h.dvd.1
  have hhigh : pageSize ∣ base + w.hi := Nat.dvd_add hbase h.dvd.2
  constructor
  · rintro ⟨hfirst, hlast⟩
    constructor
    · by_contra hlt
      have hroom := add_le_of_lt (dvd_page page) hlo (by omega)
      omega
    · omega
  · rintro ⟨hfirst, hlast⟩
    have hroom := add_le_of_lt (dvd_page page) hhigh hlast
    constructor <;> omega

theorem userCode_add (a : Arch) (c : Class) (h : Header) (offset : Nat) : a.userCode + offset =
    loadBase a c h + (if loadBase a c h ≠ 0 then offset else a.userCode + offset) := by
  unfold loadBase
  cases h.fixed c with
  | true => simp
  | false =>
    have hpos : a.userCode ≠ 0 := by cases a <;> decide
    simp [hpos]

theorem trampoline_eq (a : Arch) (c : Class) (h : Header) : a.trampoline.lo =
    loadBase a c h + (if loadBase a c h ≠ 0 then a.trampolineOffset
      else a.userCode + a.trampolineOffset) := userCode_add a c h _

theorem limit_eq (a : Arch) (c : Class) (h : Header) : a.imageWindow.hi =
    loadBase a c h + (if loadBase a c h ≠ 0 then imageLoadWindow
      else a.userCode + imageLoadWindow) := userCode_add a c h _

/-- The limit and the trampoline are the two checks of the loader. -/
theorem Extent.inside (hextent : Extent a c (loadBase a c h) size s w)
    (hwhole : s.stop c = some (s.vaddr + s.memsz)) (hcovers : s.covers (loadBase a c h) page) :
    page * pageSize + pageSize ≤ a.imageWindow.hi ∧
      a.trampoline.avoids (page * pageSize) (page * pageSize + pageSize) := by
  have hpage := (hextent.covers_iff (dvd_loadBase a c h) hwhole page).mp hcovers
  obtain ⟨hfirst, hlast⟩ := hcovers
  constructor
  · obtain ⟨stop, hstop, -, hlimit⟩ := hextent.hi
    rw [hwhole] at hstop
    rw [← Option.some.inj hstop] at hlimit
    have hwindow := limit_eq a c h
    exact add_le_of_lt (dvd_page page) (dvd_imageWindow a).2 (by omega)
  · by_contra hmeets
    have hplace := trampoline_eq a c h
    have htop : a.trampoline.hi = a.trampoline.lo + pageSize := rfl
    unfold Window.avoids at hmeets
    have heq : page * pageSize = a.trampoline.lo := by
      rcases Nat.lt_trichotomy (page * pageSize) a.trampoline.lo with hlt | heq | hgt
      · have hroom := add_le_of_lt (dvd_page page) (dvd_trampoline a) hlt
        omega
      · exact heq
      · have hroom := add_le_of_lt (dvd_trampoline a) (dvd_page page) hgt
        omega
    apply hextent.signal
    obtain ⟨hlo, hhi⟩ := hpage
    constructor <;> omega

theorem ProgramHeader.Clear.placed (hclear : s.Clear a c (loadBase a c h))
    (hextent : Extent a c (loadBase a c h) size s w) (hcovers : s.covers (loadBase a c h) page) :
    Placed a page := by
  obtain ⟨hhi, htrampoline⟩ := hextent.inside hclear.whole hcovers
  obtain ⟨hfirst, hlast⟩ := hcovers
  refine ⟨?_, hhi, htrampoline, fun w' hw' => ?_⟩
  · by_contra hlt
    have hroom := add_le_of_lt (dvd_page page) (dvd_imageWindow a).1 (by omega)
    have hlo := hclear.lo
    omega
  · have haligned := dvd_reservedWindows a w' hw'
    rcases hclear.others w' hw' with hbelow | habove
    · left
      exact add_le_of_lt (dvd_page page) haligned.1 (by omega)
    right
    by_contra hlt
    have hroom := add_le_of_lt (dvd_page page) haligned.2.1 (by omega)
    omega

theorem field_lt (file : File) (offset width : Nat) : field file offset width < 256 ^ width :=
  calc field file offset width < 256 ^ ((file.drop offset).take width).length :=
        Bytes.leValue_lt _
    _ ≤ 256 ^ width := Nat.pow_le_pow_right (by decide) (length_take_le _ _)

/-- Nothing in the image window is out of reach of a sum of 32 bits, on the ports where a segment
of the narrow class can get there. -/
theorem window_reach (a : Arch) : a.imageWindow.hi < 2 ^ 32 ∨ 2 ^ 32 ≤ a.imageWindow.lo := by
  cases a <;> decide

theorem imageLoadWindow_lt : imageLoadWindow < 2 ^ 32 := by decide

theorem narrow_lt (hs : s = Class.elf32.programHeader file i)
    (hlo : a.imageWindow.lo ≤ loadBase a .elf32 h + s.vaddr)
    (hhi : loadBase a .elf32 h + s.vaddr + s.memsz ≤ a.imageWindow.hi) :
    s.vaddr + s.memsz < 2 ^ 32 := by
  have hhigh : a.imageWindow.hi = a.userCode + imageLoadWindow := rfl
  have hwidth := imageLoadWindow_lt
  have hvaddr : s.vaddr < 2 ^ 32 := by
    rw [hs]
    exact field_lt file (i + 8) 4
  unfold loadBase at hlo hhi
  cases hfixed : h.fixed .elf32 with
  | false =>
    simp only [hfixed, Bool.false_eq_true, if_false] at hlo hhi
    omega
  | true =>
    simp only [hfixed, if_true] at hlo hhi
    rcases window_reach a with hreach | hreach <;> omega

theorem clear_of_placed (hs : s = c.programHeader file i) (hloadable : s.loadable)
    (hextent : Extent a c (loadBase a c (c.header file)) size s w)
    (hplaced : ∀ page, s.covers (loadBase a c (c.header file)) page → Placed a page) :
    s.Clear a c (loadBase a c (c.header file)) := by
  generalize hbase : loadBase a c (c.header file) = base at *
  have hsome : 0 < s.memsz := by
    simp only [ProgramHeader.loadable, Bool.and_eq_true, decide_eq_true_eq] at hloadable
    omega
  have hbyte : ∀ x, base + s.vaddr ≤ x → x < base + s.vaddr + s.memsz →
      Placed a (x / pageSize) := fun x hlo hhi => hplaced _ (ProgramHeader.covers_of_byte hlo hhi)
  have hdown : ∀ x, x / pageSize * pageSize ≤ x := fun x => Nat.div_mul_le_self x pageSize
  have hnext : ∀ x, x < x / pageSize * pageSize + pageSize := lt_alignDown_add pageSize_pos
  have hlo : a.imageWindow.lo ≤ base + s.vaddr := by
    have hfirst := (hbyte (base + s.vaddr) (by omega) (by omega)).lo
    have hround := hdown (base + s.vaddr)
    omega
  constructor
  · obtain ⟨stop, hstop, -, -⟩ := hextent.hi
    cases c with
    | elf64 =>
      unfold ProgramHeader.stop at hstop ⊢
      split_ifs at hstop ⊢
      rfl
    | elf32 =>
      have hlast := (hbyte (base + s.vaddr + s.memsz - 1) (by omega) (by omega)).hi
      have hround := hnext (base + s.vaddr + s.memsz - 1)
      rw [← hbase] at hlo hlast hround
      have hlt := narrow_lt hs hlo (by omega)
      unfold ProgramHeader.stop
      rw [Nat.mod_eq_of_lt hlt]
  · exact hlo
  · intro w' hw'
    have hwindow := (dvd_reservedWindows a w' hw').2.2
    by_contra hmeets
    unfold Window.avoids at hmeets
    -- the first byte that the segment and the window share
    have hshared := (hbyte (max (base + s.vaddr) w'.lo) (by omega) (by omega)).others w' hw'
    have hround := hdown (max (base + s.vaddr) w'.lo)
    have hend := hnext (max (base + s.vaddr) w'.lo)
    unfold Window.avoids at hshared
    omega

theorem mem_programHeaders (h : s ∈ programHeaders c file) : ∃ i, s = c.programHeader file i := by
  simp only [programHeaders, mem_map] at h
  obtain ⟨i, -, hi⟩ := h
  exact ⟨_, hi.symm⟩

/-- Images go to safe places exactly when the file is rejected or its segments are clear. -/
theorem image_placement (a : Arch) (file : File) (ready : Bool) :
    PlacementSafe a file ready ↔ ((loadElfImage a file ready).isSome = true → Harmless a file) := by
  constructor
  · intro hsafe haccepted c hclass s hs hloadable
    obtain ⟨image, himage⟩ := Option.isSome_iff_exists.mp haccepted
    have hspec := loadElfImage_spec himage
    have hkind : image.kind = c := Option.some.inj (hspec.kind.symm.trans hclass)
    have hplaced := (hsafe image himage).2
    have hreserves := hspec.segments
    rw [hspec.base, hkind] at hplaced
    rw [hkind] at hreserves
    obtain ⟨w, hextent⟩ := hreserves.accepted s hs hloadable
    obtain ⟨i, hi⟩ := mem_programHeaders hs
    exact clear_of_placed hi hloadable (ProgramHeader.extent_spec hextent)
      (hplaced s hs hloadable)
  · intro hharmless image himage
    have hspec := loadElfImage_spec himage
    have hclear := hharmless (by rw [himage]; rfl) image.kind hspec.kind
    have hextents := hspec.segments.accepted
    constructor
    · intro slot hslot
      have hpage : slot.page ∈ pagesOf image.reserved := mem_map_of_mem hslot
      rcases (hspec.segments.pages slot.page).mp hpage with hnone | ⟨s, hs, hloadable, w, hw, hq⟩
      · exact absurd hnone (by simp [pagesOf])
      have hclear := hclear s hs hloadable
      have hextent := ProgramHeader.extent_spec hw
      have hcovers :=
        (hextent.covers_iff (dvd_loadBase a image.kind _) hclear.whole slot.page).mpr hq
      exact hclear.placed hextent hcovers
    · intro s hs hloadable page hcovers
      rw [hspec.base] at hcovers
      obtain ⟨w, hw⟩ := hextents s hs hloadable
      exact (hclear s hs hloadable).placed (ProgramHeader.extent_spec hw) hcovers

/-- A position-independent file of one segment, whose address is that of the heap. -/
def heapFile : File :=
  [0x7f, 0x45, 0x4c, 0x46, 2] ++ List.replicate 11 0 ++ Bytes.leWords 2 [3, 0x3E] ++
    Bytes.leWords 4 [1] ++ Bytes.leWords 8 [0x400000, 64, 0] ++ Bytes.leWords 4 [0] ++
    Bytes.leWords 2 [64, 56, 1, 0, 0, 0] ++ Bytes.leWords 4 [1, 6] ++
    Bytes.leWords 8 [0, 0x400000, 0x400000, 0, 16, 4096]

/-- It is accepted, with a page in the heap. -/
theorem heapFile_reserved : ¬ PlacementSafe .x86_64 heapFile true := by
  intro hsafe
  have hload : (loadElfImage .x86_64 heapFile true).map (fun image => pagesOf image.reserved) =
      some [0x8000400] := by decide +kernel
  obtain ⟨image, himage, hpages⟩ := Option.map_eq_some_iff.mp hload
  have hmem : 0x8000400 ∈ pagesOf image.reserved := by rw [hpages]; simp
  obtain ⟨slot, hslot, hpage⟩ := mem_map.mp hmem
  have hheap := ((hsafe image himage).1 slot hslot).others Arch.x86_64.heap (by decide)
  rw [hpage] at hheap
  exact absurd hheap (by decide)

end XsCore.Elf
