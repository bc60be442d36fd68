import XsCore.Libc.HeapSafety

/-! # Programs at work on the heap

Over whole runs of a program: its blocks are apart and inside the memory the kernel gave, and every
pointer it holds can be given back and resized, while the heap grows only at its end and `realloc`
is not asked for more than an over-aligned pointer has.  Both conditions matter: a mapping away from
the end of the heap is joined with blocks it is not next to, or out of reach of `free`.
-/

namespace XsCore.Libc

open Bytes List Machine

/-- The size of the block that a call may have to ask the kernel for, with the kernel's answer. -/
def HeapOp.request : HeapOp → Option (Nat × Grant)
  | .malloc size grant => some (align size, grant)
  | .calloc count size grant => some (align (count * size), grant)
  | .realloc _ size grant => some (align size, grant)
  | .alignedAlloc boundary size grant => some (align (alignedLength boundary size), grant)
  | .posixMemalign boundary size _ grant =>
    some (align (alignedLength boundary (padded boundary size)), grant)
  | .free _ => none
  | .write _ _ _ => none

/-- Memory that the kernel gives continues the heap where it ends, and the offset of an over-aligned
pointer does no harm when `realloc` is called with it. -/
structure Contiguous (s : Arena) (op : HeapOp) : Prop where
  grows : ∀ size grant, op.request = some (size, grant) → Grows s.heap size grant
  fits : ∀ p size grant, op = .realloc p size grant → OffsetFits s.heap p size

/-- Every pointer the program holds is the user pointer of a block with room for its size. -/
structure ArenaOk (s : Arena) : Prop where
  heap : HeapOk s.heap
  live : ∀ entry ∈ s.live, ∃ b ∈ s.heap.blocks, b.free = false ∧ b.user = entry.1 ∧
    entry.1 + entry.2 ≤ b.stop
  distinct : (s.live.map Prod.fst).Nodup

variable {s : Arena} {h' : Heap} {p q size : Nat} {grant : Grant} {b : Block}

section

variable (hs : ArenaOk s)
include hs

theorem ArenaOk.spares (hspares : Spares s.heap h') : ArenaOk { s with heap := h' } where
  heap := hspares.ok
  live entry hentry := by
    obtain ⟨b, hb, hused, huser, hroom⟩ := hs.live entry hentry
    exact ⟨b, hspares.stays b hb hused, hused, huser, hroom⟩
  distinct := hs.distinct

theorem ArenaOk.serves {out : Heap × Reply} (hout : Serves s.heap size out) :
    ArenaOk (s.receive size out) := by
  obtain ⟨h', reply⟩ := out
  rcases hout with ⟨p, hp, hhands⟩ | ⟨e, he, hspares⟩
  · cases hp
    have hrest := hs.spares hhands.toSpares
    refine ⟨hrest.heap, fun entry hentry => ?_, ?_⟩
    · rcases mem_cons.mp hentry with rfl | hentry
      · exact hhands.block
      · exact hrest.live entry hentry
    · refine nodup_cons.mpr ⟨fun hmem => ?_, hs.distinct⟩
      obtain ⟨entry, hentry, hsame⟩ := mem_map.mp hmem
      obtain ⟨b, hb, hused, huser, -⟩ := hs.live entry hentry
      exact hhands.fresh b hb hused (huser.trans hsame)
  · cases he
    exact hs.spares hspares

theorem ArenaOk.drop_live (hb : b ∈ s.heap.blocks) (hused : b.free = false)
    (hstays : ∀ c ∈ s.heap.blocks, c.free = false → c ≠ b → c ∈ h'.blocks) :
    ∀ entry ∈ (s.drop b.user).live, ∃ c ∈ h'.blocks, c.free = false ∧ c.user = entry.1 ∧
      entry.1 + entry.2 ≤ c.stop := by
  intro entry hentry
  obtain ⟨hmem, hne⟩ := mem_filter.mp hentry
  obtain ⟨c, hc, hcused, huser, hroom⟩ := hs.live entry hmem
  have hcb : c ≠ b := by
    rintro rfl
    simp [huser] at hne
  exact ⟨c, hstays c hc hcused hcb, hcused, huser, hroom⟩

theorem ArenaOk.drop_distinct (p : Nat) : ((s.drop p).live.map Prod.fst).Nodup :=
  hs.distinct.sublist (filter_sublist.map _)

theorem ArenaOk.returns (hb : b ∈ s.heap.blocks) (hused : b.free = false)
    (hreturns : Returns s.heap h' b) : ArenaOk { s.drop b.user with heap := h' } where
  heap := hreturns.ok
  live := hs.drop_live hb hused hreturns.stays
  distinct := hs.drop_distinct b.user

theorem ArenaOk.resizes (hb : b ∈ s.heap.blocks) (hused : b.free = false)
    (hresizes : Resizes s.heap h' b q size) : ArenaOk ⟨h', (q, size) :: (s.drop b.user).live⟩ where
  heap := hresizes.ok
  live entry hentry := by
    rcases mem_cons.mp hentry with rfl | hentry
    · exact hresizes.block
    · exact hs.drop_live hb hused (fun c hc hcused hne => (hresizes.stays c hc hcused hne).1) entry
        hentry
  distinct := by
    refine nodup_cons.mpr ⟨fun hmem => ?_, hs.drop_distinct b.user⟩
    obtain ⟨entry, hentry, hsame⟩ := mem_map.mp hmem
    obtain ⟨hin, hne⟩ := mem_filter.mp hentry
    obtain ⟨c, hc, hcused, huser, -⟩ := hs.live entry hin
    have hcb : c ≠ b := by
      rintro rfl
      simp [huser] at hne
    exact (hresizes.stays c hc hcused hcb).2 (huser.trans hsame)

theorem ArenaOk.block (hp : p ∈ s.live.map Prod.fst) :
    ∃ b ∈ s.heap.blocks, b.free = false ∧ b.user = p ∧ p ≠ 0 := by
  obtain ⟨entry, hentry, rfl⟩ := mem_map.mp hp
  obtain ⟨b, hb, hused, huser, -⟩ := hs.live entry hentry
  have hinside := (hs.heap.each b hb).inside hused
  have hheader : headerSize = 64 := rfl
  exact ⟨b, hb, hused, huser, by omega⟩

theorem ArenaOk.free (hp : p ∈ s.live.map Prod.fst) :
    ArenaOk { s.drop p with heap := s.heap.free p } := by
  obtain ⟨b, hb, hused, rfl, hne⟩ := hs.block hp
  have hfree : s.heap.free b.user = s.heap.freeLocked b.user := if_neg hne
  rw [hfree]
  exact hs.returns hb hused (hs.heap.freeLocked hb hused)

theorem ArenaOk.realloc_null (hgrant : Grows s.heap (align size) grant) :
    ArenaOk (s.realloc 0 size grant) := by
  have hout := hs.heap.malloc hgrant
  have hsame : s.heap.realloc 0 size grant = s.heap.malloc size grant := if_pos rfl
  have hdrop : s.drop 0 = s := by
    have hkeep : s.live.filter (·.1 ≠ 0) = s.live := by
      rw [filter_eq_self]
      intro entry hentry
      obtain ⟨b, -, -, -, hne⟩ := hs.block (mem_map_of_mem hentry)
      simpa using hne
    unfold Arena.drop
    rw [hkeep]
  have hserves := hs.serves hout
  unfold Arena.realloc
  rw [hsame, hdrop]
  generalize s.heap.malloc size grant = out at hout hserves ⊢
  obtain ⟨h', reply⟩ := out
  cases reply with
  | pointer p => exact hserves
  | null e =>
    rw [ite_self]
    exact hserves
  | fault => exact hs

theorem ArenaOk.realloc (hp : p ∈ s.live.map Prod.fst) (hgrant : Grows s.heap (align size) grant)
    (hfits : OffsetFits s.heap p size) : ArenaOk (s.realloc p size grant) := by
  obtain ⟨b, hb, hused, rfl, hne⟩ := hs.block hp
  unfold Arena.realloc
  by_cases hzero : size = 0
  · have hout : s.heap.realloc b.user size grant = (s.heap.free b.user, .null none) := by
      unfold Heap.realloc
      rw [if_neg hne, if_pos hzero]
    rw [hout]
    rw [if_pos hzero]
    exact hs.free hp
  · rcases hs.heap.realloc hb hused (by omega) hgrant hfits with ⟨q, hq, hresizes⟩ | ⟨hnull, -⟩
    · generalize s.heap.realloc b.user size grant = out at hq hresizes ⊢
      obtain ⟨h', _⟩ := out
      cases hq
      exact hs.resizes hb hused hresizes
    · rw [hnull]
      rw [if_neg hzero]
      exact hs

theorem ArenaOk.step (op : HeapOp) (hop : Contiguous s op) : ArenaOk (s.step op) := by
  cases op with
  | malloc size grant => exact hs.serves (hs.heap.malloc (hop.grows _ _ rfl))
  | calloc count size grant => exact hs.serves (hs.heap.calloc (hop.grows _ _ rfl))
  | realloc p size grant =>
    show ArenaOk (if p = 0 ∨ p ∈ s.live.map Prod.fst then s.realloc p size grant else s)
    split_ifs with hp
    · rcases hp with rfl | hp
      · exact hs.realloc_null (hop.grows _ _ rfl)
      · exact hs.realloc hp (hop.grows _ _ rfl) (hop.fits _ _ _ rfl)
    · exact hs
  | alignedAlloc boundary size grant => exact hs.serves (hs.heap.alignedAlloc (hop.grows _ _ rfl))
  | posixMemalign boundary size errno grant =>
    exact hs.serves (hs.heap.posixMemalign (hop.grows _ _ rfl))
  | free p =>
    show ArenaOk (if p ∈ s.live.map Prod.fst then { s.drop p with heap := s.heap.free p } else s)
    split_ifs with hp
    · exact hs.free hp
    · exact hs
  | write p offset bytes =>
    show ArenaOk (if ∃ entry ∈ s.live, entry.1 = p ∧ offset + bytes.length ≤ entry.2 then
      { s with heap := { s.heap with memory := store s.heap.memory (p + offset) bytes } } else s)
    split_ifs with hp
    · obtain ⟨entry, hentry, rfl, hlength⟩ := hp
      obtain ⟨b, hb, hused, huser, hroom⟩ := hs.live entry hentry
      exact ⟨hs.heap.write hb hused (by omega) (by omega), hs.live, hs.distinct⟩
    · exact hs

end

theorem boot_ok (memory : Nat → UInt8) : ArenaOk (Arena.boot memory) where
  heap :=
    { tiled := ⟨16, 16, by omega, ⟨1, rfl⟩, by omega, rfl, rfl⟩
      regions := fun _ hr => absurd hr not_mem_nil
      each := fun _ hb => absurd hb not_mem_nil
      listed := rfl }
  live _ hentry := absurd hentry not_mem_nil
  distinct := .nil

/-- In every run in which the heap grows only at its end: the program's blocks are apart and inside
the memory the kernel gave, and so are the blocks of the heap, free ones included. -/
theorem heap_safety (memory : Nat → UInt8) (ops : List HeapOp)
    (hrun : Guarded Arena.step Contiguous (Arena.boot memory) ops) :
    let s := run Arena.step (Arena.boot memory) ops
    (s.live.Pairwise fun x y => x.1 + x.2 ≤ y.1 ∨ y.1 + y.2 ≤ x.1) ∧
    (∀ entry ∈ s.live, ∀ a, entry.1 ≤ a → a < entry.1 + entry.2 → s.heap.holds a = true) ∧
    (s.heap.blocks.Pairwise fun x y => x.stop ≤ y.addr) ∧
    ∀ b ∈ s.heap.blocks, ∀ a, b.addr ≤ a → a < b.stop → s.heap.holds a = true := by
  intro s
  have hs : ArenaOk s := hrun.invariant ArenaOk (fun _ op hs hop => hs.step op hop) (boot_ok memory)
  have hheader : headerSize = 64 := rfl
  refine ⟨?_, fun entry hentry a hlow hhigh => ?_, ?_, fun b hb a => hs.heap.holds hb⟩
  · have hdistinct := pairwise_map.mp hs.distinct
    refine hdistinct.imp_of_mem fun {x y} hx hy hne => ?_
    obtain ⟨b, hb, hused, huser, hroom⟩ := hs.live x hx
    obtain ⟨c, hc, hcused, hcuser, hcroom⟩ := hs.live y hy
    have hbin := (hs.heap.each b hb).inside hused
    have hcin := (hs.heap.each c hc).inside hcused
    by_contra hoverlap
    -- the later of the two pointers is inside both blocks
    have hsame : b = c := by
      rcases Nat.le_total x.1 y.1 with hle | hle
      · exact hs.heap.eq_of_overlap hb hc (a := y.1) ⟨by omega, by omega⟩ ⟨by omega, by omega⟩
      · exact hs.heap.eq_of_overlap hb hc (a := x.1) ⟨by omega, by omega⟩ ⟨by omega, by omega⟩
    rw [hsame, hcuser] at huser
    exact hne huser.symm
  · obtain ⟨b, hb, hused, huser, hroom⟩ := hs.live entry hentry
    have hbin := (hs.heap.each b hb).inside hused
    exact hs.heap.holds hb (by omega) (by omega)
  · obtain ⟨lo, hi, -, -, -, htiles, -⟩ := hs.heap.tiled
    exact htiles.ordered

/-- Two allocations from one piece of memory, the second with an alignment of its own; a byte is
written to it, it is resized where it is, and the first moves. -/
def twoBlocks : List HeapOp :=
  [.malloc 100 ⟨some 65536, none⟩, .alignedAlloc 64 128 ⟨none, none⟩, .write 65792 0 [7],
    .realloc 65792 180 ⟨none, none⟩, .realloc 65600 1000 ⟨none, none⟩]

theorem Contiguous.of_refused {s : Arena} {op : HeapOp} (hrefused : ∀ size grant,
    op.request = some (size, grant) → grant = ⟨none, none⟩)
    (hfits : ∀ p size grant, op = .realloc p size grant → OffsetFits s.heap p size) :
    Contiguous s op where
  grows size grant hrequest region hregion := by
    rw [hrefused size grant hrequest] at hregion
    cases hregion
  fits := hfits

theorem twoBlocks_contiguous : Guarded Arena.step Contiguous (Arena.boot fun _ => 0) twoBlocks := by
  refine ⟨⟨?_, nofun⟩, .of_refused ?_ nofun, .of_refused nofun nofun, .of_refused ?_ ?_,
    .of_refused ?_ ?_, trivial⟩
  · intro size grant hrequest region hregion
    cases hrequest
    cases hregion
    exact ⟨by decide, by decide, by decide, nofun⟩
  all_goals
    intros
    rename_i h
    cases h
    first | rfl | decide +kernel

theorem twoBlocks_live : (run Arena.step (Arena.boot fun _ => 0) twoBlocks).live =
    [(66048, 1000), (65792, 180)] := by
  decide +kernel

theorem heap_safety_two :
    let s := run Arena.step (Arena.boot fun _ => 0) twoBlocks
    s.live = [(66048, 1000), (65792, 180)] ∧
      (∀ entry ∈ s.live, ∀ a, entry.1 ≤ a → a < entry.1 + entry.2 → s.heap.holds a = true) :=
  ⟨twoBlocks_live, (heap_safety (fun _ => 0) twoBlocks twoBlocks_contiguous).2.1⟩

/-- A mapping away from the end of the heap: both blocks given back become one that spans the gap,
and the next allocation hands the gap out. -/
theorem free_joins_across_gap :
    let s := run Arena.step (Arena.boot fun _ => 0)
      [.malloc 4000 ⟨some 65536, none⟩, .malloc 4000 ⟨none, some 131072⟩, .free 65600, .free 131136,
        .malloc 8000 ⟨none, none⟩]
    s.live = [(65600, 8000)] ∧ s.heap.holds 69632 = false := by
  decide +kernel

/-- In every run in which the heap grows only at its end: `free` puts the block of every pointer the
program holds into a free block of the list, and `realloc` finds a block with room for the new size
that begins with the old bytes, unless the size is out of range or the kernel refuses memory. -/
theorem heap_release_resize (memory : Nat → UInt8) (ops : List HeapOp)
    (hrun : Guarded Arena.step Contiguous (Arena.boot memory) ops) :
    let s := run Arena.step (Arena.boot memory) ops
    ∀ entry ∈ s.live, ∃ b ∈ s.heap.blocks, b.free = false ∧ b.user = entry.1 ∧
      entry.1 + entry.2 ≤ b.stop ∧
      (∃ f ∈ (s.heap.free entry.1).blocks, f.free = true ∧
        f.addr ∈ (s.heap.free entry.1).freeList ∧ f.addr ≤ b.addr ∧ b.stop ≤ f.stop) ∧
      ∀ size grant, 0 < size → Contiguous s (.realloc entry.1 size grant) →
        let out := s.heap.realloc entry.1 size grant
        let n := min (b.stop - entry.1) size
        (∃ q, out.2 = .pointer q ∧
          (∃ b' ∈ out.1.blocks, b'.free = false ∧ b'.user = q ∧ q + size ≤ b'.stop) ∧
          load out.1.memory q n = load s.heap.memory entry.1 n) ∨
        out = (s.heap, .null (some .noMemory)) ∧
          (intptrMax < align size + headerSize ∨ grant.region (align size) = none) := by
  intro s entry hentry
  have hs : ArenaOk s := hrun.invariant ArenaOk (fun _ op hs hop => hs.step op hop) (boot_ok memory)
  obtain ⟨b, hb, hused, huser, hroom⟩ := hs.live entry hentry
  obtain ⟨-, -, -, -, hne⟩ := hs.block (mem_map_of_mem hentry)
  refine ⟨b, hb, hused, huser, hroom, ?_, fun size grant hpos hop => ?_⟩
  · have hfree : s.heap.free entry.1 = s.heap.freeLocked b.user := by
      rw [huser]
      exact if_neg hne
    rw [hfree]
    exact (hs.heap.freeLocked hb hused).released
  · have hfits : OffsetFits s.heap b.user size := huser ▸ hop.fits _ _ _ rfl
    rw [← huser]
    rcases hs.heap.realloc hb hused hpos (hop.grows _ _ rfl) hfits with ⟨q, hq, hresizes⟩ | hnull
    · exact .inl ⟨q, hq, hresizes.block, hresizes.contents⟩
    · exact .inr hnull

theorem heap_release_resize_two :
    let s := run Arena.step (Arena.boot fun _ => 0) twoBlocks
    let out := s.heap.realloc 65792 190 ⟨none, none⟩
    (∃ f ∈ (s.heap.free 65792).blocks, f.free = true ∧ f.addr ∈ (s.heap.free 65792).freeList ∧
      f.addr ≤ 65712 ∧ 65712 + headerSize + 208 ≤ f.stop) ∧
    ∃ q, out.2 = .pointer q ∧
      ∃ b ∈ out.1.blocks, b.free = false ∧ b.user = q ∧ q + 190 ≤ b.stop := by
  have hblocks : ∀ b ∈ (run Arena.step (Arena.boot fun _ => 0) twoBlocks).heap.blocks,
      b.user = 65792 → b.addr = 65712 ∧ b.stop = 65712 + headerSize + 208 := by
    decide +kernel
  have hserved : ((run Arena.step (Arena.boot fun _ => 0) twoBlocks).heap.realloc 65792 190
      ⟨none, none⟩).2 ≠ .null (some .noMemory) := by
    decide +kernel
  have hmem : (65792, 180) ∈ (run Arena.step (Arena.boot fun _ => 0) twoBlocks).live := by
    rw [twoBlocks_live]
    simp
  obtain ⟨b, hb, -, huser, -, ⟨f, hf, hfree, hlisted, hlow, hhigh⟩, hresize⟩ :=
    heap_release_resize (fun _ => 0) twoBlocks twoBlocks_contiguous (65792, 180) hmem
  obtain ⟨haddr, hstop⟩ := hblocks b hb huser
  refine ⟨⟨f, hf, hfree, hlisted, haddr ▸ hlow, hstop ▸ hhigh⟩, ?_⟩
  have hop : Contiguous (run Arena.step (Arena.boot fun _ => 0) twoBlocks)
      (.realloc 65792 190 ⟨none, none⟩) := by
    refine .of_refused (fun size grant h => ?_) (fun p size grant h => ?_)
    · cases h
      rfl
    · cases h
      decide +kernel
  rcases hresize 190 ⟨none, none⟩ (by decide) hop with ⟨q, hq, hblock, -⟩ | ⟨hnull, -⟩
  · exact ⟨q, hq, hblock⟩
  · exact absurd (congrArg Prod.snd hnull) hserved

/-- A mapping below the heap is out of reach of `free` and `realloc`; and an over-aligned pointer is
resized to 144 bytes where its block has eighty left. -/
theorem mapping_lost_and_short_resize :
    (let s := run Arena.step (Arena.boot fun _ => 0)
      [.malloc 4000 ⟨some 131072, none⟩, .malloc 4000 ⟨none, some 65536⟩]
    s.live = [(65600, 4000), (131136, 4000)] ∧ (s.heap.free 65600).freeList = [] ∧
      (s.heap.realloc 65600 5000 ⟨none, none⟩).2 = .null (some .invalid)) ∧
    let s := run Arena.step (Arena.boot fun _ => 0) [.alignedAlloc 64 64 ⟨some 65536, none⟩]
    s.live = [(65664, 64)] ∧ (s.heap.realloc 65664 144 ⟨none, none⟩).2 = .pointer 65664 ∧
      ∀ b ∈ (s.heap.realloc 65664 144 ⟨none, none⟩).1.blocks, b.user = 65664 →
        b.stop = 65664 + 80 := by
  decide +kernel

end XsCore.Libc
