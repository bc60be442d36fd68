import XsCore.Memory.Tables

/-! # Page faults

`xscore_process_handle_page_fault` and what it calls.  Pages become resident on their first access;
a page that a fork made common to two processes is copied on the first store.
-/

namespace XsCore.Memory

variable (m : Mem) (p : Process)

def findSlot {α : Type} (q : α → Bool) : List α → Option (Nat × α)
  | [] => none
  | a :: rows => if q a then some (0, a) else (findSlot q rows).map fun hit => (hit.1 + 1, hit.2)

/-- Allocate a frame, fill it and map it; a frame that cannot be mapped is returned. -/
def installFresh (s : Space) (page : Nat) (flags : PageFlags) (bytes : Nat → UInt8) :
    Mem × Space × Option Nat :=
  match m.allocate with
  | (m, none) => (m, s, none)
  | (m, some frame) =>
    match mapPageIn (m.fill frame bytes) s page ⟨frame, flags⟩ with
    | (m, s, true) => (m, s, some frame)
    | (m, s, false) => (m.free frame, s, none)

def stackFlags : PageFlags := ⟨true, true⟩

def trackedPage (page : Nat) (frame : Option Nat) (flags : PageFlags) : MappedPage :=
  ⟨page, frame, flags, false, by simp, by simp⟩

/-- `process_track_page`: overwrite the record of a page, or append one. -/
def trackPage (mapped : List MappedPage) (page : Nat) (frame : Option Nat) (flags : PageFlags) :
    Option (List MappedPage) :=
  match findSlot (fun s => s.page = page) mapped with
  | some (i, _) => some (mapped.set i (trackedPage page frame flags))
  | none =>
    if trackedPageCapacity ≤ mapped.length then none
    else some (mapped ++ [trackedPage page frame flags])

/-- `process_map_new_page`: a fresh page that is mapped and recorded, or neither. -/
def mapNewPage (page : Nat) (flags : PageFlags) : Mem × Process × Option Nat :=
  match installFresh m p.space page flags fun _ => 0 with
  | (m, s, none) => (m, { p with space := s }, none)
  | (m, s, some frame) =>
    match trackPage p.mapped page (some frame) flags with
    | none => (m.free frame, { p with space := (unmapPageIn s page).1 }, none)
    | some mapped => (m, { p with space := s, mapped := mapped }, some frame)

/-! ## Image pages -/

def cacheLookup (cache : List CachedPage) (image offset : Nat) : Option Nat :=
  (cache.find? fun c => c.image = image ∧ c.offset = offset).map CachedPage.frame

/-- `xscore_page_cache_insert`: replace the entry of the same key, else take an empty entry, else
drop the oldest. -/
def cacheInsert (image offset frame : Nat) : Mem :=
  match findSlot (fun c => c.image = image ∧ c.offset = offset) m.cache with
  | some (i, c) =>
    if c.frame = frame then m
    else { m.dec c.frame with cache := m.cache.set i ⟨image, offset, frame⟩ }
  | none =>
    if m.cache.length < pageCacheCapacity then
      { m with cache := m.cache ++ [⟨image, offset, frame⟩] }
    else
      match m.cache with
      | [] => m
      | c :: rest => { m.dec c.frame with cache := rest ++ [⟨image, offset, frame⟩] }

def MappedPage.withFrame (s : MappedPage) (frame : Nat) : MappedPage :=
  { s with frame := some frame, cow_resident := by simp }

def MmapPage.withFrame (s : MmapPage) (frame : Nat) : MmapPage :=
  { s with frame := some frame, cow_resident := by simp }

/-- The part of `process_load_image_page` after the cache was asked in vain. -/
def loadFreshImagePage (i : Nat) (slot : MappedPage) (image : Image)
    (offset : Nat) (readonly : Bool) : Mem × Process × Bool :=
  match image.contents offset with
  | none =>
    match m.allocate with
    | (m, some frame) => (m.free frame, p, false)
    | (m, none) => (m, p, false)
  | some bytes =>
    match installFresh m p.space slot.page slot.flags bytes with
    | (m, s, none) => (m, { p with space := s }, false)
    | (m, s, some frame) =>
      let p := { p with space := s, mapped := p.mapped.set i (slot.withFrame frame) }
      if readonly then (cacheInsert (m.inc frame) image.source offset frame, p, true)
      else (m, p, true)

def loadCachedImagePage (i : Nat) (slot : MappedPage) (frame : Nat) : Mem × Process × Bool :=
  match mapPageIn (m.inc frame) p.space slot.page ⟨frame, slot.flags⟩ with
  | (m, s, true) =>
    (m, { p with space := s, mapped := p.mapped.set i (slot.withFrame frame) }, true)
  | (m, s, false) => (m.dec frame, { p with space := s }, false)

def loadImagePage (i : Nat) (slot : MappedPage) : Mem × Process × Bool :=
  match p.image with
  | none => (m, p, false)
  | some image =>
    let offset := slot.page - userCodePage
    match image.relocated offset with
    | none => (m, p, false)
    | some relocated =>
      -- Read-only pages without fixups are the same in every process.
      let readonly := !slot.flags.writable && !relocated
      match if readonly then cacheLookup m.cache image.source offset else none with
      | some frame => loadCachedImagePage m p i slot frame
      | none => loadFreshImagePage m p i slot image offset readonly

/-! ## Copy on write -/

/-- `process_resolve_cow`: the frame the page has afterwards, with its copy-on-write mark cleared. -/
def resolveCow (s : Space) (page old : Nat) (flags : PageFlags) : Mem × Space × Option Nat :=
  let writable := { flags with writable := true }
  if refcountGet m.pmm old = 1 then
    match remapPage m s page old writable with
    | (m, s, true) => (m, s, some old)
    | (m, s, false) => (m, s, none)
  else
    match m.allocate with
    | (m, none) => (m, s, none)
    | (m, some new) =>
      match remapPage (m.fill new (m.ram old)) s page new writable with
      | (m, s, true) => (m.dec old, s, some new)
      | (m, s, false) => (m.free new, s, none)

def MappedPage.resolved (s : MappedPage) (frame : Nat) : MappedPage :=
  { s with frame := some frame, cow := false, cow_writable := by simp, cow_resident := by simp }

def MmapPage.resolved (s : MmapPage) (frame : Nat) : MmapPage :=
  { s with frame := some frame, cow := false, cow_resident := by simp }

def resolveMapped (i : Nat) (slot : MappedPage) : Mem × Process × Bool :=
  match slot.frame with
  | none => (m, p, false)
  | some old =>
    match resolveCow m p.space slot.page old slot.flags with
    | (m, s, none) => (m, { p with space := s }, false)
    | (m, s, some frame) =>
      (m, { p with space := s, mapped := p.mapped.set i (slot.resolved frame) }, true)

def heapFlags : PageFlags := ⟨true, true⟩

def resolveHeap (i : Nat) (slot : HeapPage) : Mem × Process × Bool :=
  match slot.frame with
  | none => (m, p, false)
  | some old =>
    match resolveCow m p.space (heapStartPage + i) old { heapFlags with writable := false } with
    | (m, s, none) => (m, { p with space := s }, false)
    | (m, s, some frame) =>
      (m, { p with space := s, heap := p.heap.set i (.own frame) }, true)

def resolveMmap (i : Nat) (slot : MmapPage) : Mem × Process × Bool :=
  if slot.protection.write = false then (m, p, false)
  else
    match slot.frame with
    | none => (m, p, false)
    | some old =>
      match resolveCow m p.space slot.page old slot.flags with
      | (m, s, none) => (m, { p with space := s }, false)
      | (m, s, some frame) =>
        (m, { p with space := s, mmaps := p.mmaps.set i (slot.resolved frame) }, true)

def heapSlot (page : Nat) : Option (Nat × HeapPage) :=
  if heapStartPage ≤ page then
    (p.heap[page - heapStartPage]?).map fun slot => (page - heapStartPage, slot)
  else none

def cowFault (page : Nat) : Option (Mem × Process × Bool) :=
  match findSlot (fun s => s.page = page ∧ s.cow) p.mapped with
  | some (i, slot) => some (resolveMapped m p i slot)
  | none =>
    match (heapSlot p page).filter fun hit => hit.2.cow with
    | some (i, slot) => some (resolveHeap m p i slot)
    | none =>
      match findSlot (fun s => s.page = page ∧ s.cow) p.mmaps with
      | some (i, slot) => some (resolveMmap m p i slot)
      | none => none

/-! ## Pages that are not in the table -/

def restorePage (page frame : Nat) (flags : PageFlags) : Mem × Process × Bool :=
  let (m, s, ok) := mapPageIn m p.space page ⟨frame, flags⟩
  (m, { p with space := s }, ok)

def Process.withStackBottom (bottom : Nat) (h : bottom ≤ p.stackBottom) : Process :=
  { p with stackBottom := bottom, stack_le := h.trans p.stack_le }

def stackFault (page : Nat) : Mem × Process × Bool :=
  match findSlot (fun s => s.page = page) p.mapped with
  | some (i, slot) =>
    match slot.frame with
    | some frame => restorePage m p page frame slot.flags
    | none =>
      match installFresh m p.space page slot.flags fun _ => 0 with
      | (m, s, none) => (m, { p with space := s }, false)
      | (m, s, some frame) =>
        (m, { p with space := s, mapped := p.mapped.set i (slot.withFrame frame) }, true)
  | none =>
    match mapNewPage m p page stackFlags with
    | (m, p, none) => (m, p, false)
    | (m, p, some _) => (m, p.withStackBottom (min page p.stackBottom) (Nat.min_le_right _ _), true)

def imageFault (i : Nat) (slot : MappedPage) (write : Bool) : Mem × Process × Bool :=
  match slot.frame with
  | some frame => restorePage m p slot.page frame slot.flags
  | none =>
    if write = true ∧ slot.flags.writable = false then (m, p, false)
    else loadImagePage m p i slot

def Snapshot.page (b : Snapshot) (offset : Nat) (byte : Nat) : UInt8 :=
  if offset * pageSize + byte < b.length then b.data (offset * pageSize + byte) else 0

def privateFault (i : Nat) (slot : MmapPage) (bytes : Nat → UInt8) : Mem × Process × Bool :=
  match m.allocate with
  | (m, none) => (m, p, false)
  | (m, some frame) =>
    match mapPageIn (m.fill frame bytes) p.space slot.page ⟨frame, slot.flags⟩ with
    | (m, s, true) =>
      (m, { p with space := s, mmaps := p.mmaps.set i (slot.withFrame frame) }, true)
    | (m, s, false) => (m.dec frame, { p with space := s }, false)

def Mem.setBackingPage (id : Nat) (b : SharedBacking) (offset : Nat) (frame : Option Nat) : Mem :=
  { m with backings := m.backings.set id ⟨b.pages.set offset frame⟩ }

def sharedFault (i : Nat) (slot : MmapPage) (id : Nat) : Mem × Process × Bool :=
  match m.backings[id]? with
  | none => (m, p, false)
  | some b =>
    match (b.pages[slot.offset]?).join with
    | some frame =>
      match mapPageIn m p.space slot.page ⟨frame, slot.flags⟩ with
      | (m, s, true) =>
        (m.inc frame, { p with space := s, mmaps := p.mmaps.set i (slot.withFrame frame) }, true)
      | (m, s, false) => (m, { p with space := s }, false)
    | none =>
      match m.allocate with
      | (m, none) => (m, p, false)
      | (m, some frame) =>
        let m := (m.zero frame).setBackingPage id b slot.offset (some frame)
        match mapPageIn m p.space slot.page ⟨frame, slot.flags⟩ with
        | (m, s, true) =>
          (m.inc frame, { p with space := s, mmaps := p.mmaps.set i (slot.withFrame frame) }, true)
        | (m, s, false) =>
          ((m.setBackingPage id b slot.offset none).dec frame, { p with space := s }, false)

def mmapFault (i : Nat) (slot : MmapPage) (write : Bool) : Mem × Process × Bool :=
  match slot.frame with
  -- The protection is not looked at when the page is resident.
  | some frame => restorePage m p slot.page frame slot.flags
  | none =>
    if slot.protection = .none ∨ (write = true ∧ slot.protection.write = false) then (m, p, false)
    else
      match slot.backing with
      | some (.shared id) => sharedFault m p i slot id
      | some (.snapshot id) =>
        match m.snapshots[id]? with
        | none => (m, p, false)
        | some b => privateFault m p i slot (b.page slot.offset)
      | none => privateFault m p i slot fun _ => 0

def heapFault (page : Nat) : Mem × Process × Bool :=
  match heapSlot p page with
  | some (i, ⟨none, _, _⟩) =>
    match installFresh m p.space page heapFlags fun _ => 0 with
    | (m, s, none) => (m, { p with space := s }, false)
    | (m, s, some frame) =>
      (m, { p with space := s, heap := p.heap.set i (.own frame) }, true)
  | _ => (m, p, false)

def absentFault (address : Nat) (write : Bool) : Option (Mem × Process × Bool) :=
  let page := address / pageSize
  if stackTopPage - maxStackPages ≤ page ∧ page < stackTopPage then some (stackFault m p page)
  else
    match findSlot (fun s => s.page = page) p.mapped with
    | some (i, slot) => some (imageFault m p i slot write)
    | none =>
      match findSlot (fun s => s.page = page) p.mmaps with
      | some (i, slot) => some (mmapFault m p i slot write)
      | none =>
        if heapStartPage * pageSize ≤ address ∧ address < p.heapBreak then some (heapFault m p page)
        else none

def growStack : Nat → Mem → Process → Mem × Process × Bool
  | 0, m, p => (m, p, true)
  | n + 1, m, p =>
    match mapNewPage m p (p.stackBottom - 1) stackFlags with
    | (m, p, none) => (m, p, false)
    | (m, p, some _) => growStack n m (p.withStackBottom (p.stackBottom - 1) (Nat.sub_le _ _))

/-- What is left when no page record explains the fault. -/
def stackGrowth (page : Nat) : Mem × Process × Bool :=
  if stackTopPage - maxStackPages ≤ page ∧ page < p.stackBottom ∧
      p.stackBottom - page ≤ maxStackPages then growStack (p.stackBottom - page) m p
  else (m, p, false)

def handlePageFault (address : Nat) (write present : Bool) : Mem × Process × Bool :=
  let page := address / pageSize
  if p.running = false ∨ p.stackBottom = 0 then (m, p, false)
  else
    match if write then cowFault m p page else none with
    | some out => out
    | none =>
      match if present then none else absentFault m p address write with
      | some out => out
      | none => stackGrowth m p page

/-! ## Searching the page records, and fresh pages -/

variable {p} {α : Type} {q : α → Bool} {rows : List α} {i page : Nat}

theorem findSlot_some {a : α} (h : findSlot q rows = some (i, a)) : rows[i]? = some a ∧ q a := by
  induction rows generalizing i with
  | nil => simp [findSlot] at h
  | cons b rows ih =>
    rw [findSlot] at h
    split_ifs at h with hq
    · cases h
      exact ⟨rfl, hq⟩
    obtain ⟨⟨j, b'⟩, hhit, heq⟩ := Option.map_eq_some_iff.mp h
    cases heq
    obtain ⟨hget, hqa⟩ := ih hhit
    exact ⟨by simpa using hget, hqa⟩

theorem findSlot_snd : (findSlot q rows).map Prod.snd = rows.find? q := by
  induction rows with
  | nil => rfl
  | cons b rows ih =>
    rw [findSlot, List.find?_cons]
    cases q b with
    | true => rfl
    | false => simpa [Function.comp_def] using ih

theorem findSlot_none (h : findSlot q rows = none) : ∀ a ∈ rows, q a = false := by
  have hnone := @findSlot_snd _ q rows
  rw [h] at hnone
  simpa using hnone.symm

theorem heapSlot_some {slot : HeapPage} (h : heapSlot p page = some (i, slot)) :
    page = heapStartPage + i ∧ p.heap[i]? = some slot := by
  unfold heapSlot at h
  split at h
  · obtain ⟨slot', hget, heq⟩ := Option.map_eq_some_iff.mp h
    obtain ⟨rfl, rfl⟩ := Prod.mk.inj heq
    exact ⟨by omega, hget⟩
  · cases h

end XsCore.Memory
