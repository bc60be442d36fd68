import XsCore.Elf.Contents
import XsCore.Memory.Boot
import XsCore.Memory.Program
import XsCore.Memory.Supply

/-! # First access to an image page

A loaded file as the memory manager knows it, and what a process finds in a page of its image when
it touches the page for the first time.
-/

namespace XsCore.Elf

open Alignment Memory List ProgramHeader

variable {n offset vaddr : Nat} {headers : List ProgramHeader} {slot : MappedPage}

/-! ## The image as the memory manager knows it -/

def Loaded.pageOffset (l : Loaded) (offset : Nat) : Nat :=
  (userCodePage + offset) * pageSize - l.base

/-- The image that the file stands for; `source` is the address of its bytes in the kernel. -/
def Loaded.image (l : Loaded) (source : Nat) (beyond : Nat → UInt8) : Image where
  source := source
  relocated offset := l.hasRelocations (l.pageOffset offset)
  contents offset := l.contents .x86_64 beyond (l.pageOffset offset)

variable {c : Class} {file : File} {base size : Nat} {flags : PageFlags}
  {mapped mapped' : List MappedPage} {s : ProgramHeader} {st st' : LoadState} {w : Window}
  {l : Loaded} {h : Header}

variable {ready : Bool} {source : Nat} {beyond : Nat → UInt8} {m m₀ m₁ : Mem} {p p₁ : Process}
  {space : Space} {next page : Nat} {arguments : Option (Nat → UInt8)}

/-! ## The records of image pages -/

/-- Reserving a page takes no permission away and gives those that are asked for. -/
theorem reserveImagePage_grants {page : Nat}
    (h : reserveImagePage mapped page flags = some mapped') :
    (∀ q, Grants mapped q → Grants mapped' q) ∧ (flags.writable → Grants mapped' page) := by
  rcases reserveImagePage_spec h with ⟨i, slot, hfind, hpage, rfl⟩ | ⟨hnone, rfl⟩
  · have hhere : flagsAt (mapped.set i (slot.merge flags)) page = some (slot.merge flags).flags :=
      flagsAt_set_found hfind hpage
    constructor
    · rintro q ⟨fl, hflags, hwritable⟩
      by_cases hq : q = page
      · rw [hq] at hflags ⊢
        obtain ⟨j, slot', hfind', -, hfl⟩ := findSlot_of_flagsAt hflags
        rw [hfind] at hfind'
        have hsame : slot = slot' := congrArg Prod.snd (Option.some.inj hfind')
        refine ⟨_, hhere, ?_⟩
        rw [← hfl, ← hsame] at hwritable
        simp [MappedPage.merge, hwritable]
      · refine ⟨fl, ?_, hwritable⟩
        rwa [flagsAt_set (findSlot_some hfind).1 (by rfl) fun heq =>
          absurd (heq.symm.trans hpage) hq]
    · intro hwritable
      exact ⟨_, hhere, by simp [MappedPage.merge, hwritable]⟩
  · constructor
    · rintro q ⟨fl, hflags, hwritable⟩
      exact ⟨fl, flagsAt_append _ hflags, hwritable⟩
    · exact fun hwritable => ⟨flags, flagsAt_append_new hnone rfl, hwritable⟩

theorem reservePages_grants (h : reservePages base flags n offset mapped = some mapped') :
    (∀ q, Grants mapped q → Grants mapped' q) ∧
    (flags.writable → ∀ i < n, Grants mapped' ((base + (offset + i * pageSize)) / pageSize)) := by
  induction n generalizing offset mapped with
  | zero =>
    cases h
    exact ⟨fun q hq => hq, fun _ i hi => absurd hi (by omega)⟩
  | succ n ih =>
    obtain ⟨next, hone, h⟩ := reservePages_succ h
    have hfirst := reserveImagePage_grants hone
    have hrest := ih h
    constructor
    · exact fun q hq => hrest.1 q (hfirst.1 q hq)
    · intro hwritable i hi
      cases i with
      | zero => simpa using hrest.1 _ (hfirst.2 hwritable)
      | succ i =>
        have hnext := hrest.2 hwritable i (by omega)
        rwa [Nat.succ_mul, Nat.add_comm _ pageSize, ← Nat.add_assoc offset]

theorem loadSegments_grants (h : loadSegments .x86_64 c file headers st = some st') :
    (∀ q, Grants st.mapped q → Grants st'.mapped q) ∧
    ∀ s ∈ headers, s.loadable → s.pageFlags.writable → ∀ w,
      s.extent .x86_64 c (loadBase .x86_64 c (c.header file)) file.length = some w →
      ∀ q, w.hasPage (loadBase .x86_64 c (c.header file)) q → Grants st'.mapped q := by
  induction headers generalizing st with
  | nil =>
    cases h
    exact ⟨fun q hq => hq, by simp⟩
  | cons s rest ih =>
    obtain ⟨next, hone, h⟩ := loadSegments_cons h
    have hrest := ih h
    rcases loadSegment_mapped hone with ⟨hnot, hsame⟩ | ⟨hloadable, w, hw, hpages⟩
    · rw [← hsame]
      refine ⟨hrest.1, fun s' hs' hloadable => ?_⟩
      rcases mem_cons.mp hs' with rfl | hs'
      · rw [hnot] at hloadable
        cases hloadable
      · exact hrest.2 s' hs' hloadable
    have hfirst := reservePages_grants hpages
    have hdvd := (extent_spec hw).dvd
    constructor
    · exact fun q hq => hrest.1 q (hfirst.1 q hq)
    · intro s' hs' hloadable' hwritable w' hw' q hq
      rcases mem_cons.mp hs' with rfl | hs'
      · rw [hw] at hw'
        rw [← Option.some.inj hw'] at hq
        rcases (Window.hasPage_iff (dvd_loadBase .x86_64 c _) hdvd.1 hdvd.2 q).mpr hq with
          ⟨i, hi, heq⟩
        rw [heq]
        exact hrest.1 _ (hfirst.2 hwritable i hi)
      · exact hrest.2 s' hs' hloadable' hwritable w' hw' q hq

/-! ## Running the image -/

structure Executes (file : File) (source : Nat) (beyond : Nat → UInt8) (l : Loaded) (p : Process) :
    Prop where
  accepted : loadElfImage .x86_64 file true = some l
  started : ∃ m₀ m₁ space arguments p₁,
    startImage m₀ { blankProcess space with mapped := l.reserved } (l.image source beyond)
      arguments = (m₁, p₁, true) ∧ Later p₁ p

/-- The process touches a page of a segment that its table does not show, in a way the segments
allow, and there is memory for the page and its tables. -/
structure FirstAccess (file : File) (l : Loaded) (m : Mem) (p : Process) (page : Nat)
    (write : Bool) : Prop where
  ok : ProcessOk p
  covered : ∃ s ∈ programHeaders l.kind file, s.loadable = true ∧ s.covers l.base page
  allowed : write = true → ∃ s ∈ programHeaders l.kind file, s.loadable = true ∧
    s.covers l.base page ∧ s.pageFlags.writable = true
  absent : p.space.entries page = none
  room : Available m 4

def Served (file : File) (l : Loaded) (m : Mem) (p : Process) (address : Nat) (write : Bool) :
    Prop :=
  ∃ m' p' frame flags, handlePageFault m p address write false = (m', p', true) ∧
    p'.space.entries (address / pageSize) = some ⟨frame, flags⟩ ∧
    HoldsPage .x86_64 l.kind file l.base (address / pageSize * pageSize - l.base) (m'.ram frame)

/-- What the loader and the fault handler take for granted of a page of a file: it is above the
start of the user range and not one of the stack's, the segments that cover it end where they say,
and its contents are well formed. -/
structure PageOk (c : Class) (file : File) (page : Nat) : Prop where
  user : userCodePage ≤ page
  stack : ¬ InStack page
  whole : ∀ s ∈ programHeaders c file, s.loadable = true →
    s.covers (loadBase .x86_64 c (c.header file)) page → s.stop c = some (s.vaddr + s.memsz)
  contents : WellFormed .x86_64 c file
    (page * pageSize - loadBase .x86_64 c (c.header file))

/-- A cached page of the image has the bytes that would be made for it, if it may be taken from the
cache at all: no segment may write to it, and it has no relocations. -/
def Coherent (file : File) (l : Loaded) (m : Mem) (image : Image) (page : Nat) : Prop :=
  (∀ s ∈ programHeaders l.kind file, s.loadable = true → s.covers l.base page →
    s.pageFlags.writable = false) → image.relocated (page - userCodePage) = some false →
  ∀ frame bytes, cacheLookup m.cache image.source (page - userCodePage) = some frame →
    image.contents (page - userCodePage) = some bytes → m.ram frame = bytes

theorem loadStack_process (m : Mem) (p : Process) (arguments : Option (Nat → UInt8)) :
    (loadStack m p arguments).2.1 = (mapNewPage m p stackPage stackFlags).2.1 := by
  unfold loadStack
  rcases mapNewPage m p stackPage stackFlags with ⟨m', p', _ | frame⟩
  · rfl
  cases arguments <;> rfl

theorem loadTrampoline_process (m : Mem) (p : Process) :
    (loadTrampoline m p).2.1 = (mapNewPage m p trampolinePage trampolineFlags).2.1 := by
  unfold loadTrampoline
  rcases mapNewPage m p trampolinePage trampolineFlags with ⟨m', p', _ | frame⟩ <;> rfl

theorem Executes.facts (h : Executes file source beyond l p) :
    p.image = some (l.image source beyond) ∧ p.running ∧ p.stackBottom ≠ 0 ∧
    ∀ page flags, ¬ InStack page → page ≠ trampolinePage → flagsAt l.reserved page = some flags →
      flagsAt p.mapped page = some flags := by
  obtain ⟨m₀, m₁, space, arguments, p₁, hstart, hlater⟩ := h.started
  unfold startImage at hstart
  generalize hblank : { blankProcess space with mapped := l.reserved } = blank at hstart
  have hrunning : blank.running := by rw [← hblank]; rfl
  have hmapped : blank.mapped = l.reserved := by rw [← hblank]
  have hstack := loadStack_process m₀ blank arguments
  generalize loadStack m₀ blank arguments = out at hstack hstart
  rcases out with ⟨m₂, p₂, _ | _⟩
  · simp at hstart
  dsimp only at hstack hstart
  have htrampoline := loadTrampoline_process m₂ p₂
  generalize loadTrampoline m₂ p₂ = out at htrampoline hstart
  rcases out with ⟨m₃, p₃, _ | _⟩
  · simp at hstart
  dsimp only at htrampoline hstart
  have hp₁ := congrArg (·.2.1) hstart
  dsimp only at hp₁
  have hrun₃ : p₃.running := by
    rw [htrampoline, mapNewPage_same.2.1, hstack, mapNewPage_same.2.1, hrunning]
  refine ⟨?_, ?_, ?_, ?_⟩
  · rw [hlater.image, ← hp₁]
  · rw [hlater.running, ← hp₁]
    exact hrun₃
  · apply hlater.stack
    rw [← hp₁]
    show stackPage ≠ 0
    decide
  · intro page flags hout hne hflags
    apply hlater.records page flags hout
    rw [← hp₁, htrampoline]
    apply mapNewPage_flagsAt hne
    rw [hstack]
    apply mapNewPage_flagsAt
    · rintro rfl
      exact hout (by unfold InStack; decide)
    · rw [hmapped]
      exact hflags

/-- The place of an image page, for the fault handler. -/
structure ImagePlace (page : Nat) : Prop where
  first : userCodePage ≤ page
  canonical : isCanonical page = true
  stack : ¬ InStack page
  trampoline : page ≠ trampolinePage
  mmaps : page < mmapStartPage

theorem ImagePlace.of_inside {page : Nat} (hfirst : userCodePage ≤ page) (hstack : ¬ InStack page)
    (hhi : page * pageSize + pageSize ≤ Arch.x86_64.imageWindow.hi)
    (htrampoline : Arch.x86_64.trampoline.avoids (page * pageSize)
      (page * pageSize + pageSize)) : ImagePlace page := by
  have hwindow : page * pageSize + pageSize ≤ userCodePage * pageSize + imageLoadWindow := hhi
  simp only [userCodePage, pageSize, imageLoadWindow] at hwindow
  have hmmaps : mmapStartPage = 0x8003000 := by decide
  refine ⟨hfirst, ?_, hstack, ?_, by omega⟩
  · have hsmall : page / 2 ^ 36 = 0 ∧ ¬ page / 2 ^ 35 % 2 = 1 := by omega
    unfold isCanonical
    rw [if_neg hsmall.2, hsmall.1]
    rfl
  · rintro rfl
    exact absurd htrampoline (by decide)

/-- No page record is copied on write before its page is in the table. -/
theorem cowFault_absent (hok : ProcessOk p) (hplace : page < mmapStartPage)
    (hentry : p.space.entries page = none) : cowFault m p page = none := by
  unfold cowFault
  cases hmapped : findSlot (fun s => decide (s.page = page ∧ s.cow)) p.mapped with
  | some hit =>
    obtain ⟨i, slot⟩ := hit
    have hslot := findSlot_some hmapped
    have hcow : slot.page = page ∧ slot.cow := of_decide_eq_true hslot.2
    have hshown := hok.mapped slot (mem_of_getElem? hslot.1) (slot.cow_resident hcow.2)
    exact absurd (hcow.1 ▸ hentry) hshown
  | none =>
    have hheap : (heapSlot p page).filter (fun hit => hit.2.cow) = none := by
      rw [Option.filter_eq_none_iff]
      rintro ⟨i, slot⟩ hfind hcow
      obtain ⟨hpage, hget⟩ := heapSlot_some hfind
      exact hok.heap i slot hget (slot.cow_resident hcow) (hpage ▸ hentry)
    rw [hheap]
    cases hmmap : findSlot (fun s => decide (s.page = page ∧ s.cow)) p.mmaps with
    | some hit =>
      have hslot := findSlot_some hmmap
      have hpage : hit.2.page = page ∧ hit.2.cow := of_decide_eq_true hslot.2
      have hhigh := hok.mmaps hit.2 (mem_of_getElem? hslot.1)
      omega
    | none => rfl

theorem cacheInsert_ram (m : Mem) (image offset frame : Nat) :
    (cacheInsert m image offset frame).ram = m.ram := by
  unfold cacheInsert
  split
  · split <;> rfl
  split
  · rfl
  · split <;> rfl

theorem loadImagePage_served {image : Image} (i : Nat) {relocated : Bool}
    {bytes : Nat → UInt8} (himage : p.image = some image)
    (hrelocated : image.relocated (slot.page - userCodePage) = some relocated)
    (hcontents : image.contents (slot.page - userCodePage) = some bytes)
    (hcoherent : slot.flags.writable = false → relocated = false → ∀ frame,
      cacheLookup m.cache image.source (slot.page - userCodePage) = some frame →
      m.ram frame = bytes) (hplace : ImagePlace slot.page)
    (hentry : p.space.entries slot.page = none) (hroom : Available m 4) :
    ∃ m' p' frame flags, loadImagePage m p i slot = (m', p', true) ∧
      p'.space.entries slot.page = some ⟨frame, flags⟩ ∧ m'.ram frame = bytes := by
  have hpage : slot.page ≠ 0 := by
    have hfirst := hplace.first
    have hcode : 0 < userCodePage := by decide
    omega
  unfold loadImagePage
  simp only [himage, hrelocated]
  cases hcache : (if (!slot.flags.writable && !relocated) then
      cacheLookup m.cache image.source (slot.page - userCodePage) else none) with
  | some frame =>
    obtain ⟨hreadonly, hhit⟩ := Option.ite_none_right_eq_some.mp hcache
    rw [Bool.and_eq_true, Bool.not_eq_true', Bool.not_eq_true'] at hreadonly
    rcases (hroom.inc frame).mapPageIn hpage hplace.canonical hentry ⟨frame, slot.flags⟩ with
      ⟨pmm, s', hmap, -, hentries⟩
    simp only [loadCachedImagePage, hmap]
    exact ⟨_, _, frame, slot.flags, rfl, hentries, hcoherent hreadonly.1 hreadonly.2 frame hhit⟩
  | none =>
    rcases hroom.installFresh hpage hplace.canonical hentry slot.flags bytes with
      ⟨m', s', frame, hfresh, -, hentries, hram⟩
    simp only [loadFreshImagePage, hcontents, hfresh]
    cases !slot.flags.writable && !relocated with
    | true => exact ⟨_, _, frame, slot.flags, rfl, hentries, by rw [cacheInsert_ram]; exact hram⟩
    | false => exact ⟨_, _, frame, slot.flags, rfl, hentries, hram⟩

/-- A first access to an image page comes down to loading it. -/
theorem handlePageFault_image (m : Mem) {address i : Nat} {write : Bool} (hrunning : p.running)
    (hstack : p.stackBottom ≠ 0) (hok : ProcessOk p) (hplace : ImagePlace (address / pageSize))
    (hentry : p.space.entries (address / pageSize) = none)
    (hfind : findSlot (·.page = address / pageSize) p.mapped = some (i, slot))
    (hframe : slot.frame = none) (hallowed : write → slot.flags.writable) :
    handlePageFault m p address write false = loadImagePage m p i slot := by
  unfold handlePageFault
  rw [if_neg (by simp [hrunning, hstack]), cowFault_absent hok hplace.mmaps hentry, ite_self]
  have habsent : absentFault m p address write = some (imageFault m p i slot write) := by
    have hstackRange := hplace.stack
    unfold InStack at hstackRange
    unfold absentFault
    rw [if_neg hstackRange]
    simp only [hfind]
  simp only [Bool.false_eq_true, if_false, habsent]
  unfold imageFault
  rw [hframe]
  rw [if_neg]
  rintro ⟨hwrite, hreadonly⟩
  rw [hallowed hwrite] at hreadonly
  cases hreadonly

section

variable (hwell : PageOk l.kind file page)
include hwell

theorem PageOk.covered (hspec : Accepts .x86_64 file l) (hs : s ∈ programHeaders l.kind file)
    (hloadable : s.loadable) (hcovers : s.covers l.base page) :
    (page * pageSize + pageSize ≤ Arch.x86_64.imageWindow.hi ∧
      Arch.x86_64.trampoline.avoids (page * pageSize) (page * pageSize + pageSize)) ∧
    ∃ w, s.extent .x86_64 l.kind (loadBase .x86_64 l.kind (l.kind.header file)) file.length =
        some w ∧
      w.hasPage (loadBase .x86_64 l.kind (l.kind.header file)) page := by
  rw [hspec.base] at hcovers
  obtain ⟨w, hw⟩ := hspec.segments.accepted s hs hloadable
  have hwhole := hwell.whole s hs hloadable hcovers
  have hextent := extent_spec hw
  exact ⟨hextent.inside hwhole hcovers, w, hw,
    (hextent.covers_iff (dvd_loadBase _ _ _) hwhole page).mp hcovers⟩

/-- A page of a segment is reserved, and writable if one of its segments is. -/
theorem PageOk.reserved (hspec : Accepts .x86_64 file l) (hs : s ∈ programHeaders l.kind file)
    (hloadable : s.loadable)
    (hcovers : s.covers l.base page) : ∃ flags, flagsAt l.reserved page = some flags ∧
      ∀ s' ∈ programHeaders l.kind file, s'.loadable → s'.covers l.base page →
        s'.pageFlags.writable → flags.writable := by
  obtain ⟨-, w, hw, hwpage⟩ := hwell.covered hspec hs hloadable hcovers
  have hmem : page ∈ pagesOf l.reserved :=
    (hspec.segments.pages page).mpr (.inr ⟨s, hs, hloadable, w, hw, hwpage⟩)
  obtain ⟨slot, hslot, rfl⟩ := mem_map.mp hmem
  obtain ⟨flags, hflags⟩ := flagsAt_of_mem hslot
  refine ⟨flags, hflags, fun s' hs' hloadable' hcovers' hwritable => ?_⟩
  obtain ⟨-, w', hw', hwpage'⟩ := hwell.covered hspec hs' hloadable' hcovers'
  obtain ⟨st, hst, hmapped⟩ := hspec.loaded
  rcases (loadSegments_grants hst).2 s' hs' hloadable' hwritable w' hw' _ hwpage' with
    ⟨flags', hflags', hgrant⟩
  rw [hmapped, hflags] at hflags'
  rw [Option.some.inj hflags']
  exact hgrant

theorem PageOk.bytes (hload : loadElfImage .x86_64 file true = some l)
    (hhi : page * pageSize + pageSize ≤ Arch.x86_64.imageWindow.hi) :
    ∃ relocated bytes, (l.image source beyond).relocated (page - userCodePage) = some relocated ∧
      (l.image source beyond).contents (page - userCodePage) = some bytes ∧
      HoldsPage .x86_64 l.kind file l.base (page * pageSize - l.base) bytes := by
  have hspec := loadElfImage_spec hload
  have hoffset : l.pageOffset (page - userCodePage) = page * pageSize - l.base := by
    rw [Loaded.pageOffset, Nat.add_sub_cancel' hwell.user]
  have haligned : pageSize ∣ page * pageSize - l.base := by
    rw [hspec.base]
    exact Nat.dvd_sub (dvd_page page) (dvd_loadBase _ _ _)
  have hcontents := hwell.contents
  rw [← hspec.base] at hcontents
  have hlt (hbase : l.base = Arch.x86_64.userCode) :
      page * pageSize - l.base < imageLoadWindow := by
    have hwindow : Arch.x86_64.imageWindow.hi = Arch.x86_64.userCode + imageLoadWindow := rfl
    have hpos : 0 < pageSize ∧ 0 < imageLoadWindow := by decide
    omega
  rcases contents_spec hload hcontents beyond haligned hlt with ⟨bytes, hbytes, hholds⟩
  simp only [Loaded.image, hoffset]
  cases hmarked : l.hasRelocations (page * pageSize - l.base) with
  | none => simp [Loaded.contents, hmarked] at hbytes
  | some relocated => exact ⟨relocated, bytes, rfl, hbytes, hholds⟩

end

/-- A position-independent file of one segment, which has all its bytes, at an address. -/
def oneSegmentFile (vaddr : Nat) : File :=
  [0x7f, 0x45, 0x4c, 0x46, 2] ++ List.replicate 11 0 ++ Bytes.leWords 2 [3, 0x3E] ++
    Bytes.leWords 4 [1] ++ Bytes.leWords 8 [vaddr, 64, 0] ++ Bytes.leWords 4 [0] ++
    Bytes.leWords 2 [64, 56, 1, 0, 0, 0] ++ Bytes.leWords 4 [1, 7] ++
    Bytes.leWords 8 [0, vaddr, vaddr, 120, 4096, 4096]

def oneSegment (vaddr : Nat) : Loaded :=
  (loadElfImage .x86_64 (oneSegmentFile vaddr) true).getD ⟨[], .elf64, 0, [], Dynamic.none, []⟩

def rootSpace : Space := ⟨256, [], fun _ => none, by simp⟩

def oneSegmentStart (vaddr : Nat) : Mem × Process × Bool :=
  startImage (bootMem (smallPmm 512)).allocate.1
    { blankProcess rootSpace with mapped := (oneSegment vaddr).reserved }
    ((oneSegment vaddr).image 0 fun _ => 0) (some fun _ => 0)

theorem available_of_frames (hzero : m.pmm.used 0)
    (hfree : ∀ f ∈ [300, 301, 302, 303], m.pmm.used f = false) : Available m 4 := by
  refine ⟨hzero, ?_⟩
  have hsubset : ([300, 301, 302, 303] : List Nat).toFinset ⊆ m.pmm.free := by
    intro f hf
    rw [mem_toFinset] at hf
    rw [Pmm.free, Finset.mem_filter, Finset.mem_range]
    refine ⟨?_, hfree f hf⟩
    have hsmall : f < 304 := by
      simp only [mem_cons, not_mem_nil, or_false] at hf
      omega
    exact hsmall.trans (by decide)
  exact Finset.card_le_card hsubset

theorem oneSegment_executes (haccepted : (loadElfImage .x86_64 (oneSegmentFile vaddr) true).isSome)
    (hstarted : (oneSegmentStart vaddr).2.2) :
    Executes (oneSegmentFile vaddr) 0 (fun _ => 0) (oneSegment vaddr)
      (oneSegmentStart vaddr).2.1 where
  accepted := by
    obtain ⟨l, hl⟩ := Option.isSome_iff_exists.mp haccepted
    rw [oneSegment, hl]
    rfl
  started := by
    refine ⟨(bootMem (smallPmm 512)).allocate.1, (oneSegmentStart vaddr).1, rootSpace,
      some fun _ => 0, (oneSegmentStart vaddr).2.1, ?_, Later.refl _⟩
    show oneSegmentStart vaddr = _
    rw [← hstarted]

theorem oneSegment_read : ∀ vaddr ∈ [0x1000, 0x1c1000], (oneSegment vaddr).kind = .elf64 ∧
    (oneSegment vaddr).base = Arch.x86_64.userCode ∧
    programHeaders .elf64 (oneSegmentFile vaddr) = [⟨1, 7, 0, vaddr, 120, 4096⟩] ∧
    fileRelocations .elf64 (oneSegmentFile vaddr) = [] := by decide +kernel

theorem oneSegment_pageOk : PageOk .elf64 (oneSegmentFile 0x1000) (userCodePage + 1) := by
  obtain ⟨-, -, hheaders, hrelocations⟩ := oneSegment_read 0x1000 (by simp)
  refine ⟨by decide, by unfold InStack; decide, ?_, ?_, ?_, ?_⟩
  · rw [hheaders]
    intro s hs _ _
    rw [mem_singleton.mp hs]
    decide
  · rw [hheaders]
    intro s hs _ hmemsz
    rw [mem_singleton.mp hs] at hmemsz
    exact absurd hmemsz (by decide)
  · rw [hheaders]
    intro s hs _ s' hs' _ x _ _ _
    rw [mem_singleton.mp hs, mem_singleton.mp hs']
  · rw [hrelocations]
    simp

def firstByte (out : Mem × Process × Bool) (page : Nat) : Option UInt8 :=
  (out.2.1.space.entries page).map fun pte => out.1.ram pte.frame 0

end XsCore.Elf
