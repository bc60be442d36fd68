import XsCore.Foundation.Machine
import XsCore.Foundation.Tiling
import Mathlib.Data.List.Chain
import Mathlib.Algebra.BigOperators.Group.List.Basic
import Mathlib.Algebra.GroupWithZero.Nat

/-! # The kernel heap

The first-fit allocator of `memory/heap.c`.  Its blocks are a list in the order of the `next`
pointers; each block is a 24-byte header and the payload behind it.  The list tiles the mapped
range after every sequence of calls.
-/

namespace XsCore.Memory.KernelHeap

open List Machine

def heapBase : Nat := 0xffff800000000000

def headerSize : Nat := 24

def heapGrowthPages : Nat := 16

def heapInitialPages : Nat := 256

structure Block where
  address : Nat
  size : Nat
  free : Bool
  deriving DecidableEq

def Block.payload (b : Block) : Nat := b.address + headerSize

def Block.stop (b : Block) : Nat := b.address + headerSize + b.size

structure Heap where
  blocks : List Block
  mappedBytes : Nat
  allocatedBytes : Nat
  allocationCount : Nat

def align16 (size : Nat) : Nat := (size + 15) % 2 ^ 64 / 16 * 16

/-- Link the new range in: into a free tail it borders on, else as a block of its own. -/
def appendGrowth (start bytes : Nat) : List Block → List Block
  | [] => [⟨start, bytes - headerSize, true⟩]
  | [tail] =>
    if tail.free && tail.stop == start then [{ tail with size := tail.size + bytes }]
    else [tail, ⟨start, bytes - headerSize, true⟩]
  | b :: next :: rest => b :: appendGrowth start bytes (next :: rest)

def growthPages (minimumPayload : Nat) : Nat :=
  max (((minimumPayload + headerSize) % 2 ^ 64 + 4096 - 1) % 2 ^ 64 / 4096) heapGrowthPages

/-- `grow_heap`; `supply` is the number of pages that can be allocated and mapped.  A growth that
runs out of them is rolled back. -/
def growHeap (h : Heap) (minimumPayload supply : Nat) : Option (Heap × Nat) :=
  let pages := growthPages minimumPayload
  if supply < pages then none
  else some ({ h with
    blocks := appendGrowth (heapBase + h.mappedBytes) (pages * 4096) h.blocks
    mappedBytes := h.mappedBytes + pages * 4096 }, supply - pages)

def heapInitialize (supply : Nat) : Heap :=
  ((growHeap ⟨[], 0, 0, 0⟩ (heapInitialPages * 4096 - headerSize) supply).map Prod.fst).getD
    ⟨[], 0, 0, 0⟩

/-- Take the first free block that is large enough, splitting off what is worth a block. -/
def takeFit (size : Nat) : List Block → Option (List Block × Block)
  | [] => none
  | b :: rest =>
    if b.free && decide (size ≤ b.size) then
      if headerSize + 16 ≤ b.size - size then
        let taken : Block := ⟨b.address, size, false⟩
        some (taken :: ⟨taken.stop, b.size - size - headerSize, true⟩ :: rest, taken)
      else
        let taken : Block := { b with free := false }
        some (taken :: rest, taken)
    else (takeFit size rest).map fun r => (b :: r.1, r.2)

/-- The search, repeated after each growth.  Every growth uses up pages, so the loop ends within
`supply + 1` rounds. -/
def allocateLoop (size : Nat) : Nat → Heap → Nat → Heap × Nat
  | 0, h, _ => (h, 0)
  | rounds + 1, h, supply =>
    match takeFit size h.blocks with
    | some (blocks, taken) =>
      ({ h with
          blocks := blocks
          allocatedBytes := h.allocatedBytes + taken.size
          allocationCount := h.allocationCount + 1 }, taken.payload)
    | none =>
      match growHeap h size supply with
      | none => (h, 0)
      | some (h', supply') => allocateLoop size rounds h' supply'

def heapAllocate (h : Heap) (requested supply : Nat) : Heap × Nat :=
  if requested = 0 ∨ align16 requested < requested then (h, 0)
  else allocateLoop (align16 requested) (supply + 1) h supply

def markFree (pointer : Nat) (blocks : List Block) : List Block :=
  blocks.map fun b => if b.payload = pointer then { b with free := true } else b

def coalesce : List Block → List Block
  | [] => []
  | [b] => [b]
  | b :: next :: rest =>
    if b.free && next.free && b.stop == next.address then
      coalesce ({ b with size := b.size + headerSize + next.size } :: rest)
    else b :: coalesce (next :: rest)
termination_by blocks => blocks.length

/-- `xscore_heap_free`.  A pointer into the heap that is not a block's payload has no header before
it. -/
def heapFree (h : Heap) (pointer : Nat) : Heap × Bool :=
  if pointer < heapBase + headerSize ∨ heapBase + h.mappedBytes ≤ pointer then (h, false)
  else
    match h.blocks.find? fun b => b.payload == pointer with
    | none => (h, false)
    | some b =>
      if b.free then (h, false)
      else ({ h with
        blocks := coalesce (markFree pointer h.blocks)
        allocatedBytes := h.allocatedBytes - b.size
        allocationCount := h.allocationCount - 1 }, true)

/-! ## Calls and their clients -/

inductive Call where
  | allocate (requested supply : Nat)
  | free (pointer : Nat)

/-- The heap together with the allocations its clients hold: the pointer and the size asked for. -/
structure Session where
  heap : Heap
  live : List (Nat × Nat)

def Session.step (s : Session) : Call → Session
  | .allocate requested supply =>
    { heap := (heapAllocate s.heap requested supply).1
      live :=
        if (heapAllocate s.heap requested supply).2 = 0 then s.live
        else ((heapAllocate s.heap requested supply).2, requested) :: s.live }
  | .free pointer =>
    { heap := (heapFree s.heap pointer).1
      live := if (heapFree s.heap pointer).2 then s.live.filter (·.1 ≠ pointer) else s.live }

/-- A client frees what an allocation gave it, freed already or not, or something that is not in
the heap at all.  Of other pointers the code believes the bytes in front of them, which are not
modelled. -/
def Session.Names (s : Session) : Call → Prop
  | .allocate _ _ => True
  | .free pointer => pointer < heapBase + headerSize ∨ heapBase + s.heap.mappedBytes ≤ pointer ∨
      ∃ b ∈ s.heap.blocks, b.payload = pointer

/-! ## Tiling -/

/-- The blocks cover the addresses from `start` to `stop`, each beginning where the last ends. -/
def Tiles (start : Nat) : List Block → Nat → Prop
  | [], stop => start = stop
  | b :: rest, stop => b.address = start ∧ Tiles b.stop rest stop

def Separated (blocks : List Block) : Prop :=
  blocks.IsChain fun a b => ¬ (a.free = true ∧ b.free = true)

def allocated (blocks : List Block) : List Block := blocks.filter fun b => !b.free

variable {blocks blocks' : List Block} {stop size : Nat} {b taken : Block}

theorem tiles_iff {start : Nat} : Tiles start blocks stop ↔
    Tiling.Tiles Block.address (headerSize + ·.size) start blocks stop := by
  induction blocks generalizing start with
  | nil => rfl
  | cons b rest ih =>
    refine and_congr_right fun haddress => ?_
    rw [ih, Block.stop, haddress, Nat.add_assoc]

theorem Tiles.ordered {start : Nat} (h : Tiles start blocks stop) :
    blocks.Pairwise fun a b => a.stop ≤ b.address := by
  refine (tiles_iff.mp h).ordered.imp fun hle => ?_
  rwa [Block.stop, Nat.add_assoc]

theorem Tiles.append_iff {start : Nat} {front back : List Block} :
    Tiles start (front ++ back) stop ↔ ∃ mid, Tiles start front mid ∧ Tiles mid back stop := by
  simp only [tiles_iff, Tiling.tiles_append]

@[simp] theorem allocated_append (front back : List Block) :
    allocated (front ++ back) = allocated front ++ allocated back := by
  simp [allocated]

theorem allocated_cons_free (h : b.free) (rest : List Block) :
    allocated (b :: rest) = allocated rest := by
  simp [allocated, h]

theorem allocated_cons_taken (h : b.free = false) (rest : List Block) :
    allocated (b :: rest) = b :: allocated rest := by
  simp [allocated, h]

theorem mem_allocated : b ∈ allocated blocks ↔ b ∈ blocks ∧ b.free = false := by
  simp [allocated]

/-! ## Growing -/

/-- The new pages extend a free block that ends where they begin, or become a block. -/
theorem appendGrowth_spec (start bytes : Nat) (blocks : List Block) :
    (appendGrowth start bytes blocks = blocks ++ [⟨start, bytes - headerSize, true⟩] ∧
      ∀ b ∈ blocks.getLast?, ¬ (b.free ∧ b.stop = start)) ∨
    ∃ front tail, blocks = front ++ [tail] ∧ tail.free ∧ tail.stop = start ∧
      appendGrowth start bytes blocks = front ++ [{ tail with size := tail.size + bytes }] := by
  fun_induction appendGrowth start bytes blocks with
  | case1 => exact .inl ⟨rfl, by simp⟩
  | case2 tail hmerge =>
    rw [Bool.and_eq_true, beq_iff_eq] at hmerge
    exact .inr ⟨[], tail, rfl, hmerge.1, hmerge.2, rfl⟩
  | case3 tail hmerge => exact .inl ⟨rfl, by simpa using hmerge⟩
  | case4 b next rest ih =>
    rcases ih with ⟨happend, hlast⟩ | ⟨front, tail, hsplit, hfree, hstop, happend⟩
    · exact .inl ⟨congrArg (b :: ·) happend, by simpa using hlast⟩
    · exact .inr ⟨b :: front, tail, congrArg (b :: ·) hsplit, hfree, hstop,
        congrArg (b :: ·) happend⟩

theorem Tiles.appendGrowth {start bytes : Nat} (h : Tiles start blocks stop)
    (hbytes : headerSize ≤ bytes) :
    Tiles start (appendGrowth stop bytes blocks) (stop + bytes) := by
  rcases appendGrowth_spec stop bytes blocks with
    ⟨happend, -⟩ | ⟨front, tail, rfl, -, hstop, happend⟩
  · rw [happend, Tiles.append_iff]
    refine ⟨stop, h, rfl, ?_⟩
    show stop + headerSize + (bytes - headerSize) = stop + bytes
    omega
  obtain ⟨mid, hfront, haddress, -⟩ := Tiles.append_iff.mp h
  rw [happend, Tiles.append_iff]
  refine ⟨mid, hfront, haddress, ?_⟩
  show tail.address + headerSize + (tail.size + bytes) = stop + bytes
  unfold Block.stop at hstop
  omega

theorem Separated.appendGrowth {start bytes : Nat} (h : Separated blocks)
    (htiles : Tiles start blocks stop) : Separated (appendGrowth stop bytes blocks) := by
  rcases appendGrowth_spec stop bytes blocks with
    ⟨happend, hlast⟩ | ⟨front, tail, rfl, -, -, happend⟩
  · rw [happend, Separated, isChain_append]
    refine ⟨h, isChain_singleton _, fun b hb _ _ hboth => hlast b hb ⟨hboth.1, ?_⟩⟩
    obtain ⟨front, rfl⟩ := getLast?_eq_some_iff.mp hb
    obtain ⟨mid, -, -, hstop⟩ := Tiles.append_iff.mp htiles
    exact hstop
  · unfold Separated at h ⊢
    rw [isChain_append] at h
    rw [happend, isChain_append]
    refine ⟨h.1, isChain_singleton _, fun x hx y hy => ?_⟩
    cases hy
    exact h.2.2 x hx tail rfl

theorem allocated_appendGrowth (start bytes : Nat) (blocks : List Block) :
    allocated (appendGrowth start bytes blocks) = allocated blocks := by
  rcases appendGrowth_spec start bytes blocks with
    ⟨happend, -⟩ | ⟨front, tail, rfl, hfree, -, happend⟩
  · simp [happend, allocated]
  · simp [happend, allocated, hfree]

/-! ## Taking a block -/

theorem takeFit_spec (h : takeFit size blocks = some (blocks', taken)) :
    ∃ front b back extra, blocks = front ++ b :: back ∧
      blocks' = front ++ taken :: (extra ++ back) ∧ b.free ∧ taken.free = false ∧
      taken.address = b.address ∧ size ≤ taken.size ∧
      (extra = [] ∧ taken.stop = b.stop ∨
        ∃ e, extra = [e] ∧ e.free ∧ e.address = taken.stop ∧ e.stop = b.stop) := by
  induction blocks generalizing blocks' with
  | nil => simp [takeFit] at h
  | cons b rest ih =>
    rw [takeFit] at h
    by_cases hfit : (b.free && decide (size ≤ b.size))
    · rw [if_pos hfit] at h
      rw [Bool.and_eq_true, decide_eq_true_eq] at hfit
      by_cases hsplit : headerSize + 16 ≤ b.size - size
      · simp only [if_pos hsplit, Option.some.injEq, Prod.mk.injEq] at h
        obtain ⟨rfl, rfl⟩ := h
        refine ⟨[], b, rest, [_], rfl, rfl, hfit.1, rfl, rfl, le_rfl, .inr ⟨_, rfl, rfl, rfl, ?_⟩⟩
        simp only [Block.stop]
        omega
      · simp only [if_neg hsplit, Option.some.injEq, Prod.mk.injEq] at h
        obtain ⟨rfl, rfl⟩ := h
        exact ⟨[], b, rest, [], rfl, rfl, hfit.1, rfl, rfl, hfit.2, .inl ⟨rfl, rfl⟩⟩
    · rw [if_neg hfit] at h
      rcases hrest : takeFit size rest with _ | r
      · simp [hrest] at h
      simp only [hrest, Option.map_some, Option.some.injEq, Prod.mk.injEq] at h
      obtain ⟨rfl, rfl⟩ := h
      obtain ⟨front, b', back, extra, hblocks, hblocks', hfacts⟩ := ih hrest
      exact ⟨b :: front, b', back, extra, by rw [hblocks]; rfl, by rw [hblocks']; rfl, hfacts⟩

theorem Tiles.takeFit {start : Nat} (h : Tiles start blocks stop)
    (htake : takeFit size blocks = some (blocks', taken)) : Tiles start blocks' stop := by
  obtain ⟨front, b, back, extra, rfl, rfl, -, -, haddress, -, hextra⟩ := takeFit_spec htake
  rw [Tiles.append_iff] at h ⊢
  obtain ⟨mid, hfront, hmid, hback⟩ := h
  refine ⟨mid, hfront, haddress.trans hmid, ?_⟩
  rcases hextra with ⟨rfl, hstop⟩ | ⟨e, rfl, -, hstart, hstop⟩
  · rw [nil_append, hstop]
    exact hback
  refine ⟨hstart, ?_⟩
  rw [hstop]
  exact hback

theorem Separated.takeFit (h : Separated blocks)
    (htake : takeFit size blocks = some (blocks', taken)) : Separated blocks' := by
  obtain ⟨front, b, back, extra, rfl, rfl, hfree, htaken, -, -, hextra⟩ := takeFit_spec htake
  unfold Separated at h ⊢
  rw [isChain_split] at h ⊢
  obtain ⟨hfront, hback⟩ := h
  have hnext : ∀ x ∈ back.head?, x.free = false := by
    intro x hx
    cases back with
    | nil => simp at hx
    | cons next back =>
      obtain rfl : next = x := by simpa using hx
      have hapart := (isChain_cons_cons.mp hback).1
      simpa [hfree] using hapart
  constructor
  · rw [isChain_append] at hfront ⊢
    refine ⟨hfront.1, isChain_singleton _, fun x hx y hy => ?_⟩
    obtain rfl : taken = y := by simpa using hy
    simp [htaken]
  · rcases hextra with ⟨rfl, -⟩ | ⟨e, rfl, -, -, -⟩
    · rw [nil_append, isChain_cons]
      exact ⟨fun y _ => by simp [htaken], (isChain_cons.mp hback).2⟩
    rw [singleton_append, isChain_cons_cons, isChain_cons]
    refine ⟨by simp [htaken], fun y hy => ?_, (isChain_cons.mp hback).2⟩
    simp [hnext y hy]

theorem allocated_takeFit (htake : takeFit size blocks = some (blocks', taken)) :
    (allocated blocks').Perm (taken :: allocated blocks) := by
  obtain ⟨front, b, back, extra, rfl, rfl, hfree, htaken, -, -, hextra⟩ := takeFit_spec htake
  have hrest : allocated (extra ++ back) = allocated back := by
    rcases hextra with ⟨rfl, -⟩ | ⟨e, rfl, he, -, -⟩
    · rfl
    · exact allocated_cons_free he back
  rw [allocated_append, allocated_append, allocated_cons_taken htaken, allocated_cons_free hfree,
    hrest]
  exact perm_middle

/-! ## Merging free blocks -/

theorem coalesce_head (b : Block) (rest : List Block) :
    ∃ head tail, coalesce (b :: rest) = head :: tail ∧ head.free = b.free := by
  induction rest generalizing b with
  | nil => exact ⟨b, [], by rw [coalesce], rfl⟩
  | cons next rest ih =>
    rw [coalesce]
    split_ifs
    · exact ih _
    · exact ⟨b, _, rfl, rfl⟩

theorem coalesce_spec {start : Nat} (h : Tiles start blocks stop) :
    Tiles start (coalesce blocks) stop ∧ Separated (coalesce blocks) ∧
      allocated (coalesce blocks) = allocated blocks := by
  fun_induction coalesce blocks generalizing start with
  | case1 => exact ⟨h, isChain_nil, rfl⟩
  | case2 b => exact ⟨h, isChain_singleton b, rfl⟩
  | case3 b next rest hmerge ih =>
    simp only [Bool.and_eq_true, beq_iff_eq] at hmerge
    obtain ⟨⟨hb, hnext⟩, hborder⟩ := hmerge
    have hmerged : Tiles start ({ b with size := b.size + headerSize + next.size } :: rest) stop := by
      refine ⟨h.1, ?_⟩
      have hstop : Block.stop { b with size := b.size + headerSize + next.size } = next.stop := by
        simp only [Block.stop] at hborder ⊢
        omega
      rw [hstop]
      exact h.2.2
    obtain ⟨htiles, hseparated, hallocated⟩ := ih hmerged
    refine ⟨htiles, hseparated, hallocated.trans ?_⟩
    simp [allocated, hb, hnext]
  | case4 b next rest hmerge ih =>
    obtain ⟨htiles, hseparated, hallocated⟩ := ih h.2
    obtain ⟨head, tail, hcoalesce, hhead⟩ := coalesce_head next rest
    refine ⟨⟨h.1, htiles⟩, ?_, ?_⟩
    · rw [hcoalesce] at hseparated ⊢
      refine isChain_cons_cons.mpr ⟨?_, hseparated⟩
      rw [hhead]
      intro hboth
      refine hmerge ?_
      simp [hboth.1, hboth.2, h.2.1]
    · simp only [allocated, filter_cons] at hallocated ⊢
      rw [hallocated]

/-! ## The heap after a call -/

/-- The list tiles the mapped range, and the counters are the sums over the allocated blocks. -/
structure HeapOk (h : Heap) : Prop where
  tiles : Tiles heapBase h.blocks (heapBase + h.mappedBytes)
  separated : Separated h.blocks
  bytes : h.allocatedBytes = ((allocated h.blocks).map Block.size).sum
  count : h.allocationCount = (allocated h.blocks).length

variable {h : Heap}

theorem growthPages_pos (size : Nat) : 0 < growthPages size :=
  Nat.lt_of_lt_of_le (by decide) (Nat.le_max_right _ heapGrowthPages)

theorem payload_ne_zero (b : Block) : b.payload ≠ 0 := by
  unfold Block.payload headerSize
  omega

theorem HeapOk.empty : HeapOk ⟨[], 0, 0, 0⟩ := ⟨rfl, isChain_nil, rfl, rfl⟩

theorem HeapOk.growHeap (hok : HeapOk h) {minimumPayload supply : Nat} {grown : Heap × Nat}
    (hgrow : growHeap h minimumPayload supply = some grown) :
    HeapOk grown.1 ∧ allocated grown.1.blocks = allocated h.blocks := by
  unfold KernelHeap.growHeap at hgrow
  extract_lets pages at hgrow
  by_cases hshort : supply < pages
  · simp [hshort] at hgrow
  rw [if_neg hshort] at hgrow
  cases hgrow
  have hpages : 0 < pages := growthPages_pos minimumPayload
  have hroom : headerSize ≤ pages * 4096 := by
    have : headerSize = 24 := rfl
    omega
  have hsame := allocated_appendGrowth (heapBase + h.mappedBytes) (pages * 4096) h.blocks
  refine ⟨⟨?_, hok.separated.appendGrowth hok.tiles, ?_, ?_⟩, hsame⟩
  · have htiles := hok.tiles.appendGrowth hroom
    rwa [Nat.add_assoc] at htiles
  · show h.allocatedBytes = _
    rw [hsame]
    exact hok.bytes
  · show h.allocationCount = _
    rw [hsame]
    exact hok.count

theorem allocateLoop_spec (size rounds : Nat) (hok : HeapOk h) (supply : Nat) :
    let r := allocateLoop size rounds h supply
    HeapOk r.1 ∧
      (r.2 = 0 ∧ allocated r.1.blocks = allocated h.blocks ∨
        ∃ taken : Block, r.2 = taken.payload ∧ r.2 ≠ 0 ∧ size ≤ taken.size ∧
          (allocated r.1.blocks).Perm (taken :: allocated h.blocks)) := by
  induction rounds generalizing h supply with
  | zero => exact ⟨hok, .inl ⟨rfl, rfl⟩⟩
  | succ rounds ih =>
    rw [allocateLoop]
    cases htake : takeFit size h.blocks with
    | some r =>
      obtain ⟨blocks, taken⟩ := r
      have hperm := allocated_takeFit htake
      obtain ⟨-, -, -, -, -, -, -, -, -, hsize, -⟩ := takeFit_spec htake
      refine ⟨⟨hok.tiles.takeFit htake, hok.separated.takeFit htake, ?_, ?_⟩,
        .inr ⟨taken, rfl, payload_ne_zero taken, hsize, hperm⟩⟩
      · show h.allocatedBytes + taken.size = ((allocated blocks).map Block.size).sum
        rw [(hperm.map Block.size).sum_eq, map_cons, sum_cons, hok.bytes, Nat.add_comm]
      · show h.allocationCount + 1 = (allocated blocks).length
        rw [hperm.length_eq, length_cons, hok.count]
    | none =>
      rcases hgrow : KernelHeap.growHeap h size supply with _ | grown
      · exact ⟨hok, .inl ⟨rfl, rfl⟩⟩
      obtain ⟨hgrown, hsame⟩ := hok.growHeap hgrow
      have hrest := ih hgrown grown.2
      rw [hsame] at hrest
      exact hrest

theorem HeapOk.heapInitialize (supply : Nat) : HeapOk (heapInitialize supply) ∧
    allocated (KernelHeap.heapInitialize supply).blocks = [] := by
  unfold KernelHeap.heapInitialize
  cases hgrow : KernelHeap.growHeap ⟨[], 0, 0, 0⟩ (heapInitialPages * 4096 - headerSize) supply with
  | none => exact ⟨.empty, rfl⟩
  | some grown => exact HeapOk.empty.growHeap hgrow

theorem HeapOk.split (hok : HeapOk h) (hb : b ∈ h.blocks) :
    ∃ front back, h.blocks = front ++ b :: back ∧
      markFree b.payload h.blocks = front ++ { b with free := true } :: back ∧
      ∀ other ∈ front ++ back, other.payload ≠ b.payload := by
  obtain ⟨front, back, hblocks⟩ := append_of_mem hb
  have hordered := hok.tiles.ordered
  rw [hblocks, pairwise_append, pairwise_cons] at hordered
  obtain ⟨-, ⟨hback, -⟩, hfront⟩ := hordered
  have hapart : ∀ other ∈ front ++ back, other.payload ≠ b.payload := by
    intro other hother
    unfold Block.payload
    rcases mem_append.mp hother with hf | hl
    · have := hfront other hf b (by simp)
      unfold Block.stop headerSize at this
      omega
    · have := hback other hl
      unfold Block.stop headerSize at this
      omega
  have hkeep : ∀ part : List Block, (∀ other ∈ part, other.payload ≠ b.payload) →
      markFree b.payload part = part := by
    intro part hpart
    calc markFree b.payload part
      _ = part.map id := map_congr_left fun other hother => if_neg (hpart other hother)
      _ = part := map_id part
  refine ⟨front, back, hblocks, ?_, hapart⟩
  rw [hblocks, markFree, map_append, map_cons, if_pos rfl]
  rw [← markFree, ← markFree, hkeep front (fun o ho => hapart o (by simp [ho])),
    hkeep back (fun o ho => hapart o (by simp [ho]))]

theorem HeapOk.heapFree (hok : HeapOk h) (pointer : Nat) : heapFree h pointer = (h, false) ∨
    ∃ h' b front back, heapFree h pointer = (h', true) ∧ HeapOk h' ∧ b.payload = pointer ∧
      allocated h.blocks = front ++ b :: back ∧ allocated h'.blocks = front ++ back ∧
      ∀ other ∈ front ++ back, other.payload ≠ pointer := by
  unfold KernelHeap.heapFree
  by_cases hrange : pointer < heapBase + headerSize ∨ heapBase + h.mappedBytes ≤ pointer
  · exact .inl (if_pos hrange)
  rw [if_neg hrange]
  cases hfind : h.blocks.find? fun b => b.payload == pointer with
  | none => exact .inl rfl
  | some b =>
    obtain rfl : b.payload = pointer := by simpa using List.find?_some hfind
    by_cases hfree : b.free
    · exact .inl (by simp only [if_pos hfree])
    right
    simp only [if_neg hfree]
    rw [Bool.not_eq_true] at hfree
    obtain ⟨front, back, hblocks, hmark, hapart⟩ := hok.split (mem_of_find?_eq_some hfind)
    have hbefore : allocated h.blocks = allocated front ++ b :: allocated back := by
      rw [hblocks, allocated_append, allocated_cons_taken hfree]
    have hmarked : allocated (markFree b.payload h.blocks) =
        allocated front ++ allocated back := by
      rw [hmark, allocated_append, allocated_cons_free rfl]
    have htiles : Tiles heapBase (markFree b.payload h.blocks)
        (heapBase + h.mappedBytes) := by
      have hold := hok.tiles
      rw [hblocks, Tiles.append_iff] at hold
      rw [hmark, Tiles.append_iff]
      exact hold
    obtain ⟨hmerged, hseparated, hallocated⟩ := coalesce_spec htiles
    refine ⟨_, b, allocated front, allocated back, rfl, ⟨hmerged, hseparated, ?_, ?_⟩, rfl,
      hbefore, hallocated.trans hmarked, fun other hother => ?_⟩
    · show h.allocatedBytes - b.size = _
      rw [hok.bytes, hbefore, hallocated, hmarked]
      simp only [map_append, map_cons, sum_append, sum_cons]
      omega
    · show h.allocationCount - 1 = _
      rw [hok.count, hbefore, hallocated, hmarked]
      simp only [length_append, length_cons]
      omega
    · refine hapart other ?_
      rw [← allocated_append] at hother
      exact (mem_allocated.mp hother).1

/-! ## Sessions -/

/-- The heap in order, with one live allocation for every allocated block. -/
structure SessionOk (s : Session) : Prop where
  heap : HeapOk s.heap
  live : (s.live.map Prod.fst).Perm ((allocated s.heap.blocks).map Block.payload)
  sized : ∀ e ∈ s.live, ∃ b ∈ allocated s.heap.blocks, b.payload = e.1 ∧ e.2 ≤ b.size

variable {s : Session}

theorem SessionOk.allocate (hok : SessionOk s) (requested supply : Nat) :
    SessionOk (s.step (.allocate requested supply)) := by
  unfold Session.step heapAllocate
  by_cases hrefuse : requested = 0 ∨ align16 requested < requested
  · simpa [hrefuse] using hok
  simp only [if_neg hrefuse]
  rw [not_or] at hrefuse
  have hspec := allocateLoop_spec (align16 requested) (supply + 1) hok.heap supply
  generalize allocateLoop (align16 requested) (supply + 1) s.heap supply = r at hspec
  obtain ⟨hheap, ⟨hfail, hsame⟩ | ⟨taken, hpointer, hnonzero, hsize, hperm⟩⟩ := hspec
  · rw [if_pos hfail]
    refine ⟨hheap, ?_, ?_⟩
    · rw [hsame]
      exact hok.live
    · rw [hsame]
      exact hok.sized
  rw [if_neg hnonzero]
  refine ⟨hheap, ?_, ?_⟩
  · have hgrown := hperm.map Block.payload
    rw [map_cons, ← hpointer] at hgrown
    exact (hok.live.cons r.2).trans hgrown.symm
  · intro e he
    rcases mem_cons.mp he with rfl | hold
    · exact ⟨taken, hperm.mem_iff.mpr (by simp), hpointer.symm,
        Nat.le_trans (Nat.le_of_not_lt hrefuse.2) hsize⟩
    · obtain ⟨b, hb, hfacts⟩ := hok.sized e hold
      exact ⟨b, hperm.mem_iff.mpr (by simp [hb]), hfacts⟩

theorem SessionOk.free (hok : SessionOk s) (pointer : Nat) :
    SessionOk (s.step (.free pointer)) := by
  unfold Session.step
  rcases hok.heap.heapFree pointer with hnone | ⟨h', b, front, back, hsome, hheap, hb, hrest⟩
  · simpa [hnone] using hok
  obtain ⟨hbefore, hafter, hapart⟩ := hrest
  simp only [hsome, if_true]
  have hpayload : ∀ part : List Block, (∀ other ∈ part, other.payload ≠ pointer) →
      (part.map Block.payload).filter (· ≠ pointer) = part.map Block.payload := by
    intro part hpart
    rw [filter_eq_self]
    intro p hp
    obtain ⟨other, hother, rfl⟩ := mem_map.mp hp
    simpa using hpart other hother
  refine ⟨hheap, ?_, ?_⟩
  · have hlive := hok.live.filter (· ≠ pointer)
    rw [hbefore, map_append, map_cons, filter_append, filter_cons, hb,
      hpayload front (fun o ho => hapart o (by simp [ho])),
      hpayload back (fun o ho => hapart o (by simp [ho]))] at hlive
    rw [hafter, map_append]
    simpa [filter_map, Function.comp_def] using hlive
  · intro e he
    rw [mem_filter] at he
    obtain ⟨b', hb', hpointer, hsize⟩ := hok.sized e he.1
    refine ⟨b', ?_, hpointer, hsize⟩
    rw [hbefore, mem_append, mem_cons] at hb'
    rw [hafter, mem_append]
    rcases hb' with hfront | rfl | hback
    · exact .inl hfront
    · exact absurd (hpointer.symm.trans hb) (by simpa using he.2)
    · exact .inr hback

theorem SessionOk.step (hok : SessionOk s) (call : Call) : SessionOk (s.step call) := by
  cases call with
  | allocate requested supply => exact hok.allocate requested supply
  | free pointer => exact hok.free pointer

theorem SessionOk.start (supply : Nat) : SessionOk ⟨heapInitialize supply, []⟩ := by
  obtain ⟨hheap, hnone⟩ := HeapOk.heapInitialize supply
  exact ⟨hheap, by rw [hnone]; exact .nil, fun e he => absurd he (by simp)⟩

theorem SessionOk.disjoint (hok : SessionOk s) :
    s.live.Pairwise fun a b => a.1 + a.2 ≤ b.1 ∨ b.1 + b.2 ≤ a.1 := by
  have hordered : (allocated s.heap.blocks).Pairwise fun a b => a.stop ≤ b.address :=
    hok.heap.tiles.ordered.filter _
  have hdistinct : (s.live.map Prod.fst).Nodup := by
    rw [hok.live.nodup_iff]
    refine List.Pairwise.map _ (fun a b hab => ?_) hordered
    unfold Block.stop headerSize at hab
    unfold Block.payload
    omega
  have hpairs : s.live.Pairwise fun a b => a.1 ≠ b.1 := pairwise_map.mp hdistinct
  refine hpairs.imp_of_mem fun {a b} ha hb hne => ?_
  obtain ⟨p, hp, hpa, hsa⟩ := hok.sized a ha
  obtain ⟨q, hq, hqb, hsb⟩ := hok.sized b hb
  have hpq : p.stop ≤ q.address ∨ q.stop ≤ p.address := by
    have hsymm : (allocated s.heap.blocks).Pairwise
        fun a b => a.stop ≤ b.address ∨ b.stop ≤ a.address := hordered.imp .inl
    have : Std.Symm fun a b : Block => a.stop ≤ b.address ∨ b.stop ≤ a.address :=
      ⟨fun a b => Or.symm⟩
    exact hsymm.forall hp hq (by rintro rfl; exact hne (hpa.symm.trans hqb))
  unfold Block.stop Block.payload at *
  omega

/-- After every sequence of calls the blocks tile the mapped heap, neighbours are not both free,
live allocations do not overlap and are as large as asked for, and the reported counts are those of
the allocated blocks. -/
theorem heap_integrity (supply : Nat) (calls : List Call)
    (hcalls : Guarded Session.step Session.Names ⟨heapInitialize supply, []⟩ calls) :
    let s := run Session.step ⟨heapInitialize supply, []⟩ calls
    Tiles heapBase s.heap.blocks (heapBase + s.heap.mappedBytes) ∧
    Separated s.heap.blocks ∧
    (s.live.Pairwise fun a b => a.1 + a.2 ≤ b.1 ∨ b.1 + b.2 ≤ a.1) ∧
    (∀ e ∈ s.live, ∃ b ∈ allocated s.heap.blocks, b.payload = e.1 ∧ e.2 ≤ b.size) ∧
    s.heap.allocatedBytes = ((allocated s.heap.blocks).map Block.size).sum ∧
    s.heap.allocationCount = s.live.length := by
  intro s
  have hok : SessionOk s :=
    hcalls.invariant SessionOk (fun _ call hs _ => hs.step call) (.start supply)
  refine ⟨hok.heap.tiles, hok.heap.separated, hok.disjoint, hok.sized, hok.heap.bytes, ?_⟩
  rw [hok.heap.count]
  have hlength := hok.live.length_eq
  rw [length_map, length_map] at hlength
  exact hlength.symm

/-- One allocation of a hundred bytes, freed again. -/
theorem heap_integrity_once : Guarded Session.step Session.Names ⟨heapInitialize 256, []⟩
      [.allocate 100 0, .free (heapBase + headerSize)] ∧
    Separated (run Session.step ⟨heapInitialize 256, []⟩
      [.allocate 100 0, .free (heapBase + headerSize)]).heap.blocks := by
  refine ⟨?calls, (heap_integrity 256 _ ?calls).2.1⟩
  exact ⟨trivial, .inr (.inr ⟨⟨heapBase, 112, false⟩, by decide, rfl⟩), trivial⟩

/-! ## Requests that fail -/

/-- What `xscore_heap_get_stats` reports. -/
def Heap.stats (h : Heap) : Nat × Nat × Nat := (h.mappedBytes, h.allocatedBytes, h.allocationCount)

/-- The loop has ended within `supply + 1` rounds, and a null result leaves the statistics alone. -/
def Robust (h : Heap) (requested supply : Nat) : Prop :=
  (∀ rounds, supply < rounds → allocateLoop (align16 requested) rounds h supply =
    allocateLoop (align16 requested) (supply + 1) h supply) ∧
  ((heapAllocate h requested supply).2 = 0 → (heapAllocate h requested supply).1.stats = h.stats)

/-- The request passes the check, but the sum in `grow_heap` that rounds it up to pages wraps. -/
def Wraps (requested : Nat) : Prop :=
  requested ≤ align16 requested ∧ 2 ^ 64 ≤ align16 requested + headerSize + 4095

theorem takeFit_isSome (hb : b ∈ blocks) (hfree : b.free) (hsize : size ≤ b.size) :
    (takeFit size blocks).isSome := by
  fun_induction takeFit size blocks with
  | case1 => cases hb
  | case2 | case3 => rfl
  | case4 head rest hfit ih =>
    rw [Option.isSome_map]
    rcases mem_cons.mp hb with rfl | hb
    · simp [hfree, hsize] at hfit
    · exact ih hb

theorem appendGrowth_last (start bytes : Nat) (blocks : List Block) :
    ∃ b ∈ appendGrowth start bytes blocks, b.free ∧ bytes - headerSize ≤ b.size := by
  rcases appendGrowth_spec start bytes blocks with
    ⟨happend, -⟩ | ⟨front, tail, -, hfree, -, happend⟩ <;> rw [happend]
  · exact ⟨_, mem_append_right _ (mem_singleton.mpr rfl), rfl, le_rfl⟩
  refine ⟨_, mem_append_right _ (mem_singleton.mpr rfl), hfree, ?_⟩
  show bytes - headerSize ≤ tail.size + bytes
  omega

theorem allocateLoop_settled {rounds supply : Nat} (hrounds : supply < rounds) :
    allocateLoop size rounds h supply = allocateLoop size (supply + 1) h supply := by
  induction supply using Nat.strong_induction_on generalizing h rounds with
  | _ supply ih =>
    obtain ⟨rounds, rfl⟩ := Nat.exists_eq_add_one_of_ne_zero (Nat.ne_zero_of_lt hrounds)
    rw [allocateLoop, allocateLoop, growHeap]
    have hpages := growthPages_pos size
    split
    · rfl
    split_ifs
    · rfl
    · exact (ih _ (by omega) (by omega)).trans (ih _ (by omega) (by omega)).symm

theorem allocateLoop_mapped (rounds supply : Nat) :
    h.mappedBytes ≤ (allocateLoop size rounds h supply).1.mappedBytes := by
  induction rounds generalizing h supply with
  | zero => exact le_rfl
  | succ rounds ih =>
    rw [allocateLoop, growHeap]
    split
    · exact le_rfl
    split_ifs
    · exact le_rfl
    · refine Nat.le_trans ?_ (ih _)
      exact Nat.le_add_right _ _

/-- A loop that grows the heap comes back empty-handed only if the growth is too small. -/
theorem allocateLoop_null {supply : Nat} (hnull : (allocateLoop size (supply + 1) h supply).2 = 0) :
    supply < growthPages size ∧ allocateLoop size (supply + 1) h supply = (h, 0) ∨
      growthPages size ≤ supply ∧ growthPages size * 4096 < size + headerSize ∧
        h.mappedBytes < (allocateLoop size (supply + 1) h supply).1.mappedBytes := by
  have hpages := growthPages_pos size
  rw [allocateLoop, growHeap] at hnull ⊢
  split at hnull
  · exact absurd hnull (payload_ne_zero _)
  split_ifs at hnull ⊢ with hshort
  · exact .inl ⟨hshort, rfl⟩
  refine .inr ⟨Nat.le_of_not_lt hshort, ?_, Nat.lt_of_lt_of_le ?_ (allocateLoop_mapped _ _)⟩
  · by_contra henough
    obtain ⟨last, hlast, hfree, hsize⟩ := appendGrowth_last (heapBase + h.mappedBytes)
      (growthPages size * 4096) h.blocks
    have hfit : size ≤ last.size := by omega
    obtain ⟨r, hr⟩ := Option.isSome_iff_exists.mp (takeFit_isSome hlast hfree hfit)
    obtain ⟨n, rfl⟩ := Nat.exists_eq_succ_of_ne_zero (show supply ≠ 0 by omega)
    simp only [allocateLoop, hr] at hnull
    exact payload_ne_zero r.2 hnull
  · show h.mappedBytes < h.mappedBytes + growthPages size * 4096
    omega

theorem takeFit_none (hsmall : ∀ b ∈ blocks, b.size < size) : takeFit size blocks = none := by
  induction blocks with
  | nil => rfl
  | cons b rest ih =>
    have hfit : ¬ size ≤ b.size := Nat.not_le.mpr (hsmall b mem_cons_self)
    simp [takeFit, hfit, ih fun c hc => hsmall c (mem_cons_of_mem b hc)]

/-- No growth makes room for a request beyond all memory. -/
theorem HeapOk.allocateLoop_beyond (hok : HeapOk h) {rounds supply : Nat}
    (hbeyond : h.mappedBytes + supply * 4096 < size) :
    (allocateLoop size rounds h supply).2 = 0 := by
  induction rounds generalizing h supply with
  | zero => rfl
  | succ rounds ih =>
    have hnone : takeFit size h.blocks = none := by
      refine takeFit_none fun b hb => ?_
      have hbounds := (tiles_iff.mp hok.tiles).bounds hb
      omega
    rw [allocateLoop, hnone]
    cases hgrow : KernelHeap.growHeap h size supply with
    | none => rfl
    | some grown =>
      refine ih (hok.growHeap hgrow).1 ?_
      unfold KernelHeap.growHeap at hgrow
      extract_lets pages at hgrow
      split_ifs at hgrow
      cases hgrow
      dsimp only
      omega

/-- The memory of the heap and what can be had are less than half the address space. -/
theorem robust_iff (hok : HeapOk h) (requested supply : Nat)
    (hmemory : h.mappedBytes + supply * 4096 < 2 ^ 63) :
    Robust h requested supply ↔ (Wraps requested → supply < heapGrowthPages) := by
  refine (and_iff_right fun _ => allocateLoop_settled).trans ?_
  have hpages : growthPages (align16 requested) =
      max (((align16 requested + 24) % 2 ^ 64 + 4096 - 1) % 2 ^ 64 / 4096) 16 := rfl
  have hword : align16 requested < 2 ^ 64 := by
    unfold align16
    omega
  unfold heapAllocate Wraps headerSize heapGrowthPages
  split_ifs with hrefused
  · refine iff_of_true (fun _ => rfl) fun hwraps => ?_
    rcases hrefused with rfl | hlow
    · exact absurd hwraps.2 (by decide)
    · omega
  by_cases hnull : (allocateLoop (align16 requested) (supply + 1) h supply).2 = 0
  · rw [imp_iff_right hnull]
    rcases allocateLoop_null hnull with ⟨hshort, hsame⟩ | ⟨hroom, hsmall, hgrown⟩
    · rw [hsame]
      exact iff_of_true rfl fun hwraps => by omega
    refine iff_of_false (fun hstats => hgrown.ne' (congrArg Prod.fst hstats)) fun hall => ?_
    unfold headerSize at hsmall
    omega
  · refine iff_of_true (fun h => absurd h hnull) fun hwraps => ?_
    exact absurd (hok.allocateLoop_beyond (by omega)) hnull

theorem robust_initial : Robust (heapInitialize 256) 100 16 :=
  (robust_iff (HeapOk.heapInitialize 256).1 100 16 (by decide)).mpr fun h => absurd h.2 (by decide)

/-- A request of almost the whole address space: the heap is grown by sixteen pages and the call
fails. -/
theorem grown_in_vain : ¬ Robust (heapInitialize 256) (2 ^ 64 - 16) 16 := by
  intro h
  exact absurd (h.2 (by decide)) (by decide)

end XsCore.Memory.KernelHeap
