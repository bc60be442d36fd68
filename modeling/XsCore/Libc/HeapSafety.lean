import XsCore.Foundation.Machine
import XsCore.Libc.HeapInvariant

/-! # Safety of the heap

What each call does to a heap that is in order, and from it what holds in every run of a program
whose kernel lets the heap grow only at its end.
-/

namespace XsCore.Libc

open Bytes List

variable {h h' : Heap} {b c : Block} {p q size : Nat} {grant : Grant}
variable {size' a boundary : Nat} {bytes : List UInt8}

/-- A call that left all blocks in use as they were, with their bytes. -/
structure Spares (h h' : Heap) : Prop where
  ok : HeapOk h'
  stays : ∀ c ∈ h.blocks, c.free = false → c ∈ h'.blocks
  frame : ∀ c ∈ h.blocks, c.free = false → ∀ a, c.addr ≤ a → a < c.stop → h'.memory a = h.memory a

theorem Spares.refl (hk : HeapOk h) : Spares h h := ⟨hk, fun _ hc _ => hc, fun _ _ _ _ _ _ => rfl⟩

structure Hands (h h' : Heap) (p size : Nat) : Prop extends Spares h h' where
  block : ∃ b ∈ h'.blocks, b.free = false ∧ b.user = p ∧ p + size ≤ b.stop
  fresh : ∀ c ∈ h.blocks, c.free = false → c.user ≠ p

def Serves (h : Heap) (size : Nat) (out : Heap × Reply) : Prop :=
  (∃ p, out.2 = .pointer p ∧ Hands h out.1 p size) ∨ ∃ e, out.2 = .null e ∧ Spares h out.1

theorem Hands.mono (hh : Hands h h' p size) (hle : size' ≤ size) : Hands h h' p size' := by
  obtain ⟨b, hb, hused, huser, hroom⟩ := hh.block
  exact ⟨hh.toSpares, ⟨b, hb, hused, huser, by omega⟩, hh.fresh⟩

theorem Gives.hands (hg : Gives h h' p size) : Hands h h' p size := by
  obtain ⟨b, hb, hused, huser, haddr, hsize⟩ := hg.block
  refine ⟨⟨hg.ok, fun c hc hcused => (hg.stays c hc hcused).1, hg.frame⟩, ?_, ?_⟩
  · have hstop : b.stop = b.addr + (headerSize + b.size) := rfl
    exact ⟨b, hb, hused, huser, by omega⟩
  · exact fun c hc hcused => (hg.stays c hc hcused).2

theorem le_align (size : Nat) : size ≤ align size := by
  unfold align
  omega

theorem align_dvd (size : Nat) : 16 ∣ align size := ⟨(size + 15) / 16, Nat.mul_comm _ _⟩

/-- The kernel's answer continues the heap when a block of `size` bytes is needed. -/
def Grows (h : Heap) (size : Nat) (grant : Grant) : Prop :=
  ∀ region, grant.region size = some region → Adjoins h region

theorem HeapOk.malloc_gives (hk : HeapOk h) (hpos : 0 < size)
    (hgrant : Grows h (align size) grant) :
    (∃ p, (h.malloc size grant).2 = .pointer p ∧ Gives h (h.malloc size grant).1 p (align size)) ∨
      h.malloc size grant = (h, .null (some .noMemory)) := by
  unfold Heap.malloc
  rw [if_neg (by omega)]
  unfold alignAllocationSize
  split_ifs
  · exact .inr rfl
  have hle := le_align size
  dsimp only
  rcases hk.allocate (align_dvd size) (by omega) hgrant with ⟨p, hp, hgives⟩ | ⟨hnone, -⟩
  · generalize h.allocate (align size) grant = out at hp hgives ⊢
    obtain ⟨h', _⟩ := out
    cases hp
    exact .inl ⟨p, rfl, hgives⟩
  · rw [hnone]
    exact .inr rfl

theorem HeapOk.malloc (hk : HeapOk h) (hgrant : Grows h (align size) grant) :
    Serves h size (h.malloc size grant) := by
  by_cases hzero : size = 0
  · have hnull : h.malloc size grant = (h, .null none) := if_pos hzero
    rw [hnull]
    exact .inr ⟨none, rfl, .refl hk⟩
  rcases hk.malloc_gives (by omega) hgrant with ⟨p, hp, hgives⟩ | hnull
  · exact .inl ⟨p, hp, hgives.hands.mono (le_align size)⟩
  · rw [hnull]
    exact .inr ⟨_, rfl, .refl hk⟩

theorem HeapOk.write (hk : HeapOk h) (hb : b ∈ h.blocks) (hused : b.free = false)
    (hlow : b.user ≤ a) (hhigh : a + bytes.length ≤ b.stop) :
    HeapOk { h with memory := store h.memory a bytes } where
  tiled := hk.tiled
  regions := hk.regions
  listed := hk.listed
  each c hc := by
    obtain ⟨huser, -⟩ := (hk.each b hb).inside hused
    by_cases hcb : c = b
    · subst hcb
      have hc' := hk.each c hc
      refine ⟨hc'.aligned, hc'.positive, hc'.inside, fun hcused => ?_⟩
      rw [← hc'.back hcused]
      apply loadPointer_congr
      intro x _ hx
      have hheader : headerSize = 64 := rfl
      have hpointer : pointerSize = 8 := rfl
      exact store_outside (by omega)
    · refine (hk.each c hc).congr fun x hxlow hxhigh => store_outside ?_
      by_contra hinside
      exact hcb (hk.eq_of_overlap hc hb ⟨hxlow, hxhigh⟩ (by omega))

theorem HeapOk.write_other (hk : HeapOk h) (hb : b ∈ h.blocks) (hused : b.free = false)
    (hlow : b.user ≤ a) (hhigh : a + bytes.length ≤ b.stop) (hc : c ∈ h.blocks) (hne : c ≠ b)
    {x : Nat} (hxlow : c.addr ≤ x) (hxhigh : x < c.stop) :
    store h.memory a bytes x = h.memory x := by
  obtain ⟨huser, -⟩ := (hk.each b hb).inside hused
  apply store_outside
  by_contra hinside
  exact hne (hk.eq_of_overlap hc hb ⟨hxlow, hxhigh⟩ (by omega))

theorem Hands.write (hh : Hands h h' p size) (bytes : List UInt8) (hlength : bytes.length ≤ size) :
    Hands h { h' with memory := store h'.memory p bytes } p size := by
  obtain ⟨b, hb, hused, huser, hroom⟩ := hh.block
  have hlow : b.user ≤ p := huser.le
  have hhigh : p + bytes.length ≤ b.stop := by omega
  refine ⟨⟨hh.ok.write hb hused hlow hhigh, hh.stays, fun c hc hcused x hxlow hxhigh => ?_⟩,
    ⟨b, hb, hused, huser, hroom⟩, hh.fresh⟩
  have hne : c ≠ b := by
    rintro rfl
    exact hh.fresh c hc hcused huser
  rw [← hh.frame c hc hcused x hxlow hxhigh]
  exact hh.ok.write_other hb hused hlow hhigh (hh.stays c hc hcused) hne hxlow hxhigh

theorem HeapOk.calloc (hk : HeapOk h) {count : Nat}
    (hgrant : Grows h (align (count * size)) grant) :
    Serves h (count * size) (h.calloc count size grant) := by
  unfold Heap.calloc
  split_ifs
  · exact .inr ⟨_, rfl, .refl hk⟩
  rcases hk.malloc hgrant with ⟨p, hp, hhands⟩ | ⟨e, he, hspares⟩
  · generalize h.malloc (count * size) grant = out at hp hhands ⊢
    obtain ⟨h', _⟩ := out
    cases hp
    exact .inl ⟨p, rfl, hhands.write _ (by simp)⟩
  · generalize h.malloc (count * size) grant = out at he hspares ⊢
    obtain ⟨h', _⟩ := out
    cases he
    exact .inr ⟨e, rfl, hspares⟩

/-! ## Pointers with an alignment of their own -/

theorem sixteen_dvd_boundary (hpower : boundary &&& (boundary - 1) = 0) (hlarge : 16 < boundary) :
    16 ∣ boundary := by
  obtain ⟨k, rfl⟩ := (Nat.and_sub_one_eq_zero_iff_isPowerOfTwo (by omega)).mp hpower
  have hk : 4 ≤ k := by
    by_contra hsmall
    have hle : 2 ^ k ≤ 2 ^ 3 := Nat.pow_le_pow_right (by omega) (by omega)
    omega
  exact Nat.pow_dvd_pow 2 hk

theorem Gives.move (hg : Gives h h' q size) (hlow : q + pointerSize ≤ p) (hhigh : p < q + size) :
    ∃ place, h'.findAllocated q = some place ∧ ∀ size', p + size' ≤ q + size →
      Hands h { h' with
        blocks := ({ place with block := { place.block with user := p } } : Place).blocks
        memory := storePointer h'.memory (p - pointerSize) place.block.addr } p size' := by
  obtain ⟨b, hb, hused, huser, haddr, hsize⟩ := hg.block
  obtain ⟨place, hfind, rfl, hblocks⟩ := hg.ok.findAllocated hb hused
  rw [huser] at hfind
  refine ⟨place, hfind, fun size' hroom => ?_⟩
  have hstop : place.block.stop = place.block.addr + (headerSize + place.block.size) := rfl
  have hblock := hg.ok.each _ hb
  have hwritten : ∀ x, ¬ (place.block.addr ≤ x ∧ x < place.block.stop) →
      storePointer h'.memory (p - pointerSize) place.block.addr x = h'.memory x := by
    intro x hx
    exact storePointer_outside (by omega)
  have hother : ∀ c ∈ h.blocks, c.free = false → c ≠ place.block := by
    rintro c hc hcused rfl
    exact (hg.stays _ hc hcused).2 huser
  have hinside : place.block.addr + headerSize ≤ p ∧ p < place.block.stop := by omega
  refine ⟨⟨?_, ?_, ?_⟩, ?_, ?_⟩
  · have hsplit : h'.blocks = place.before ++ ([place.block] ++ place.after) := hblocks
    show HeapOk { h' with
      blocks := place.before ++ ([{ place.block with user := p }] ++ place.after)
      memory := storePointer h'.memory (p - pointerSize) place.block.addr }
    apply hg.ok.replace hsplit
    · exact fun _ _ htiles => htiles
    · intro c hc
      rw [mem_singleton.mp hc]
      have haddr' := hg.ok.addr_lt hb
      exact ⟨hblock.aligned, hblock.positive, fun _ => hinside,
        fun _ => loadPointer_storePointer _ (by omega)⟩
    · exact fun x hx => hwritten x (hx _ mem_cons_self)
    · have hused' : ({ place.block with user := p } : Block).free = false := hused
      rw [freeAddrs_cons_used hused, freeAddrs_cons_used hused']
  · intro c hc hcused
    have hstays := (hg.stays c hc hcused).1
    rw [hblocks] at hstays
    simp only [Place.blocks, mem_append, mem_cons] at hstays ⊢
    tauto
  · intro c hc hcused x hxlow hxhigh
    rw [← hg.frame c hc hcused x hxlow hxhigh]
    apply hwritten
    intro hx
    exact hother c hc hcused
      (hg.ok.eq_of_overlap (hg.stays c hc hcused).1 hb ⟨hxlow, hxhigh⟩ hx)
  · exact ⟨_, Place.mem_blocks _, hused, rfl, by show p + size' ≤ place.block.stop; omega⟩
  · intro c hc hcused hsame
    obtain ⟨hclow, hchigh⟩ := (hg.ok.each c (hg.stays c hc hcused).1).inside hcused
    refine hother c hc hcused
      (hg.ok.eq_of_overlap (hg.stays c hc hcused).1 hb (a := p) ⟨by omega, by omega⟩ ?_)
    exact ⟨by omega, hinside.2⟩

theorem Gives.undo (hg : Gives h h' q size) : Spares h (h'.free q) := by
  obtain ⟨b, hb, hused, huser, haddr, -⟩ := hg.block
  have hreturns := hg.ok.freeLocked hb hused
  have hfree : h'.free q = h'.freeLocked b.user := by
    rw [huser]
    refine if_neg ?_
    have hheader : headerSize = 64 := rfl
    omega
  have hother : ∀ c ∈ h.blocks, c.free = false → c ≠ b := by
    rintro c hc hcused rfl
    exact (hg.stays _ hc hcused).2 huser
  rw [hfree]
  refine ⟨hreturns.ok, fun c hc hcused => ?_, fun c hc hcused x hxlow hxhigh => ?_⟩
  · exact hreturns.stays c (hg.stays c hc hcused).1 hcused (hother c hc hcused)
  · rw [← hg.frame c hc hcused x hxlow hxhigh]
    exact hreturns.frame c (hg.stays c hc hcused).1 hcused (hother c hc hcused) x hxlow hxhigh

def alignedLength (boundary size : Nat) : Nat :=
  if boundary ≤ alignment then size else size + (boundary - 1) + pointerSize

theorem HeapOk.alignedAlloc (hk : HeapOk h)
    (hgrant : Grows h (align (alignedLength boundary size)) grant) :
    Serves h size (h.alignedAlloc boundary size grant) := by
  have hpointer : pointerSize = 8 := rfl
  have halignment : alignment = 16 := rfl
  unfold alignedLength at hgrant
  unfold Heap.alignedAlloc
  dsimp only
  split_ifs with hinvalid hsmall hlarge
  · exact .inr ⟨_, rfl, .refl hk⟩
  · rw [if_pos hsmall] at hgrant
    exact hk.malloc hgrant
  · exact .inr ⟨_, rfl, .refl hk⟩
  rw [if_neg hsmall] at hgrant
  rcases hk.malloc_gives (by omega) hgrant with ⟨base, hbase, hgives⟩ | hnull
  · generalize h.malloc (size + (boundary - 1) + pointerSize) grant = out at hbase hgives ⊢
    obtain ⟨h', _⟩ := out
    cases hbase
    dsimp only
    split_ifs with hwraps
    · exact .inr ⟨_, rfl, hgives.undo⟩
    generalize hp : (base + pointerSize + (boundary - 1)) / boundary * boundary = p
    have hpositive : 0 < boundary := by omega
    have hdvd : 16 ∣ boundary := sixteen_dvd_boundary (by tauto) (by omega)
    have hmultiple : size % boundary = 0 := by tauto
    have hsixteen : 16 ∣ size := hdvd.trans (Nat.dvd_of_mod_eq_zero hmultiple)
    have hlow : base + pointerSize ≤ p := by
      have hdiv := Nat.div_add_mod (base + pointerSize + (boundary - 1)) boundary
      have hmod := Nat.mod_lt (base + pointerSize + (boundary - 1)) hpositive
      rw [Nat.mul_comm, hp] at hdiv
      omega
    have hhigh : p ≤ base + pointerSize + (boundary - 1) := by
      rw [← hp]
      exact Nat.div_mul_le_self _ _
    have halign : size + (boundary - 1) + pointerSize + 9 ≤
        align (size + (boundary - 1) + pointerSize) := by
      unfold align
      omega
    obtain ⟨place, hfind, hhands⟩ := hgives.move hlow (by omega)
    rw [hfind]
    exact .inl ⟨p, rfl, hhands size (by omega)⟩
  · rw [hnull]
    exact .inr ⟨_, rfl, .refl hk⟩

theorem le_padded (boundary size : Nat) : size ≤ padded boundary size := by
  unfold padded
  split_ifs <;> omega

theorem HeapOk.posixMemalign (hk : HeapOk h) {errno : Option Errno}
    (hgrant : Grows h (align (alignedLength boundary (padded boundary size))) grant) :
    Serves h size (h.posixMemalign boundary size errno grant) := by
  unfold Heap.posixMemalign
  split_ifs
  · exact .inr ⟨_, rfl, .refl hk⟩
  · exact .inr ⟨_, rfl, .refl hk⟩
  rcases hk.alignedAlloc hgrant with ⟨p, hp, hhands⟩ | ⟨e, he, hspares⟩
  · generalize h.alignedAlloc boundary (padded boundary size) grant = out at hp hhands ⊢
    obtain ⟨h', _⟩ := out
    cases hp
    exact .inl ⟨p, rfl, hhands.mono (le_padded boundary size)⟩
  · generalize h.alignedAlloc boundary (padded boundary size) grant = out at he hspares ⊢
    obtain ⟨h', _⟩ := out
    cases he
    exact .inr ⟨_, rfl, hspares⟩

/-! ## Resizing -/

/-- A call that resized the block `b`: its new pointer has room for `size` bytes, begins with the
old bytes, and the other blocks in use stay as they are. -/
structure Resizes (h h' : Heap) (b : Block) (q size : Nat) : Prop where
  ok : HeapOk h'
  block : ∃ b' ∈ h'.blocks, b'.free = false ∧ b'.user = q ∧ q + size ≤ b'.stop
  contents : load h'.memory q (min (b.stop - b.user) size) =
    load h.memory b.user (min (b.stop - b.user) size)
  stays : ∀ c ∈ h.blocks, c.free = false → c ≠ b → c ∈ h'.blocks ∧ c.user ≠ q
  frame : ∀ c ∈ h.blocks, c.free = false → c ≠ b → ∀ a, c.addr ≤ a → a < c.stop →
    h'.memory a = h.memory a

/-- The bytes behind a pointer that a call of `realloc` takes for granted: room for the new size
when the block stays where it is, and memory to copy from when it moves. -/
def Roomy (h : Heap) (p size : Nat) : Prop :=
  ∀ place, h.findAllocated p = some place →
    let joined := (h.joinNext place).2.block
    if align size ≤ place.block.size then p + size ≤ place.block.stop
    else if align size ≤ joined.size ∧ joined.size ≤ sizeMax then p + size ≤ joined.stop
    else ∀ i < place.block.size, h.holds (p + i) = true

/-- What `realloc` does not check for a pointer with an offset in its block: the offset is left out
of account when the new size is compared with that of the block and when the bytes are copied. -/
def OffsetFits (h : Heap) (p size : Nat) : Prop :=
  ∀ place ∈ h.findAllocated p, 0 < p - (place.block.addr + headerSize) →
    let joined := (h.joinNext place).2.block
    if align size ≤ place.block.size then
      p - (place.block.addr + headerSize) + size ≤ place.block.size
    else if align size ≤ joined.size ∧ joined.size ≤ sizeMax then
      p - (place.block.addr + headerSize) + size ≤ joined.size
    else ∀ i < place.block.size, h.holds (p + i) = true

instance (h : Heap) (p size : Nat) : Decidable (OffsetFits h p size) := by
  unfold OffsetFits
  infer_instance

theorem HeapOk.holds (hk : HeapOk h) (hb : b ∈ h.blocks) (hlow : b.addr ≤ a)
    (hhigh : a < b.stop) : h.holds a := by
  obtain ⟨lo, hi, -, -, -, htiles, hgiven⟩ := hk.tiled
  have hbounds : lo ≤ b.addr ∧ b.stop ≤ hi := htiles.bounds hb
  obtain ⟨region, hregion, hin⟩ := hgiven.covers (a := a) (by omega) (by omega)
  unfold Heap.holds
  rw [any_eq_true]
  exact ⟨region, hregion, by simpa using hin⟩

theorem Heap.joinNext_addr (h : Heap) (place : Place) :
    (h.joinNext place).2.block.addr = place.block.addr := by
  unfold joinNext
  rcases place.after with _ | ⟨next, after⟩
  · rfl
  · dsimp only
    split_ifs <;> rfl

/-- Only a pointer with an alignment of its own can lack the bytes. -/
theorem HeapOk.roomy (hk : HeapOk h) (hb : b ∈ h.blocks) (hused : b.free = false)
    (hfits : OffsetFits h b.user size) : Roomy h b.user size := by
  intro place hfind
  obtain ⟨place', hfind', rfl, -⟩ := hk.findAllocated hb hused
  obtain rfl := Option.some.inj (hfind'.symm.trans hfind)
  have hinside := (hk.each _ hb).inside hused
  have hle := le_align size
  have hstop : ∀ c : Block, c.stop = c.addr + (headerSize + c.size) := fun _ => rfl
  have haddr := h.joinNext_addr place'
  have hfits := hfits place' hfind
  by_cases hplain : place'.block.user = place'.block.addr + headerSize
  · dsimp only
    split_ifs
    · rw [hstop]
      omega
    · rw [hstop]
      omega
    · intro i hi
      refine hk.holds hb (by omega) ?_
      rw [hstop]
      omega
  · have hfits := hfits (by omega)
    dsimp only at hfits ⊢
    split_ifs at hfits ⊢
    · rw [hstop]
      omega
    · rw [hstop]
      omega
    · exact hfits

theorem HeapOk.user_ne (hk : HeapOk h) (hb : b ∈ h.blocks) (hc : c ∈ h.blocks)
    (hbused : b.free = false) (hcused : c.free = false) (hne : c ≠ b) : c.user ≠ b.user := by
  intro hsame
  have hbin := (hk.each b hb).inside hbused
  have hcin := (hk.each c hc).inside hcused
  refine hne (hk.eq_of_overlap hc hb (a := c.user) ⟨?_, hcin.2⟩ ⟨?_, ?_⟩) <;> omega

theorem HeapOk.resize_same (hk : HeapOk h) (hb : b ∈ h.blocks) (hused : b.free = false)
    (hroom : b.user + size ≤ b.stop) : Resizes h h b b.user size where
  ok := hk
  block := ⟨b, hb, hused, rfl, hroom⟩
  contents := rfl
  stays _ hc hcused hne := ⟨hc, hk.user_ne hb hc hused hcused hne⟩
  frame _ _ _ _ _ _ _ := rfl

theorem HeapOk.resize_join (hk : HeapOk h) {place : Place} (hblocks : h.blocks = place.blocks)
    (hused : place.block.free = false)
    (hroom : place.block.user + size ≤ (h.joinNext place).2.block.stop) :
    Resizes h { (h.joinNext place).1 with blocks := (h.joinNext place).2.blocks } place.block
      place.block.user size := by
  have hmem : place.block ∈ h.blocks := hblocks ▸ place.mem_blocks
  obtain ⟨before, b, after⟩ := place
  unfold Heap.joinNext at hroom ⊢
  rcases after with _ | ⟨next, after⟩
  · have hsame : ({ h with blocks := (⟨before, b, []⟩ : Place).blocks } : Heap) = h := by
      rw [← hblocks]
    rw [hsame]
    exact hk.resize_same hmem hused hroom
  dsimp only at hroom ⊢
  split_ifs at hroom ⊢ with hnext
  · have hnmem : next ∈ h.blocks := by simp [hblocks, Place.blocks]
    have hok := hk.join hblocks hnext (erase_listed (hk.mem_freeList hnmem hnext))
    refine ⟨hok, ⟨b.join next, ?_, hused, rfl, hroom⟩, rfl, fun c hc hcused hne => ⟨?_, ?_⟩,
      fun _ _ _ _ _ _ _ => rfl⟩
    · exact Place.mem_blocks _
    · have hcn : c ≠ next := by
        rintro rfl
        rw [hnext] at hcused
        cases hcused
      rw [hblocks] at hc
      simp only [Place.blocks, mem_append, mem_cons] at hc ⊢
      tauto
    · exact hk.user_ne hmem hc hused hcused hne
  · have hsame :
        ({ h with blocks := (⟨before, b, next :: after⟩ : Place).blocks } : Heap) = h := by
      rw [← hblocks]
    rw [hsame]
    exact hk.resize_same hmem hused hroom

theorem Gives.resize (hg : Gives h h' q size) (hk : HeapOk h) (hb : b ∈ h.blocks)
    (hused : b.free = false) {length : Nat} (hlength : length ≤ size)
    (hcopied : min (b.stop - b.user) size' ≤ length) (hsize : size' ≤ size) :
    Resizes h (({ h' with memory := store h'.memory q (load h'.memory b.user length) } :
      Heap).freeLocked b.user) b q size' := by
  have hhands := hg.hands.write (load h'.memory b.user length) (by simpa using hlength)
  obtain ⟨new, hnew, hnewused, hnewuser, hnewroom⟩ := hhands.block
  have hstays := hhands.stays b hb hused
  have hreturns := hhands.ok.freeLocked hstays hused
  have hne : new ≠ b := by
    rintro rfl
    exact hhands.fresh _ hb hused hnewuser
  have hbin := (hk.each b hb).inside hused
  refine ⟨hreturns.ok, ⟨new, hreturns.stays new hnew hnewused hne, hnewused, hnewuser, by omega⟩,
    ?_, fun c hc hcused hcb => ⟨?_, hhands.fresh c hc hcused⟩,
    fun c hc hcused hcb x hlow hhigh => ?_⟩
  · generalize hk' : min (b.stop - b.user) size' = n at hcopied ⊢
    have hnewin := (hhands.ok.each new hnew).inside hnewused
    have hbytes := load_store h'.memory q (load h'.memory b.user length)
    rw [load_length] at hbytes
    -- the new block has the copied bytes, and freeing the old one leaves them there
    calc load _ q n
        = load (store h'.memory q (load h'.memory b.user length)) q n :=
          load_congr fun x hlow hhigh =>
            hreturns.frame new hnew hnewused hne x (by omega) (by omega)
      _ = (load h'.memory b.user length).take n := by rw [← load_take _ _ hcopied, hbytes]
      _ = load h'.memory b.user n := load_take _ _ hcopied
      _ = load h.memory b.user n :=
          load_congr fun x hlow hhigh => hg.frame b hb hused x (by omega) (by omega)
  · exact hreturns.stays c (hhands.stays c hc hcused) hcused hcb
  · rw [← hhands.frame c hc hcused x hlow hhigh]
    exact hreturns.frame c (hhands.stays c hc hcused) hcused hcb x hlow hhigh

theorem Heap.allocate_holds (h : Heap) (size : Nat) (grant : Grant) (ha : h.holds a) :
    (h.allocate size grant).1.holds a := by
  have htake : ∀ (h : Heap) place, (h.take place size).1.given = h.given := by
    intro h place
    unfold Heap.take
    split_ifs <;> rfl
  unfold Heap.allocate
  rcases h.fit size with _ | place
  swap
  · unfold Heap.holds at ha ⊢
    rw [htake]
    exact ha
  split_ifs
  · exact ha
  cases grant.region size with
  | none => exact ha
  | some region =>
    unfold Heap.holds at ha ⊢
    rw [htake]
    simp [ha]

theorem HeapOk.realloc (hk : HeapOk h) (hb : b ∈ h.blocks) (hused : b.free = false)
    (hpos : 0 < size) (hgrant : Grows h (align size) grant) (hfits : OffsetFits h b.user size) :
    (∃ q, (h.realloc b.user size grant).2 = .pointer q ∧
      Resizes h (h.realloc b.user size grant).1 b q size) ∨
    h.realloc b.user size grant = (h, .null (some .noMemory)) ∧
      (intptrMax < align size + headerSize ∨ grant.region (align size) = none) := by
  obtain ⟨place, hfind, rfl, hblocks⟩ := hk.findAllocated hb hused
  have hinside := (hk.each _ hb).inside hused
  have hheader : headerSize = 64 := rfl
  have hle := le_align size
  have hstop : place.block.stop = place.block.addr + (headerSize + place.block.size) := rfl
  have hroom := hk.roomy hb hused hfits place hfind
  unfold Heap.realloc alignAllocationSize
  rw [if_neg (by omega), if_neg (by omega)]
  split_ifs
  · have hmax : sizeMax = 2 ^ 64 - 1 := rfl
    have hmax' : intptrMax = 2 ^ 63 - 1 := rfl
    have halignment : alignment = 16 := rfl
    exact .inr ⟨rfl, .inl (by omega)⟩
  rw [hfind]
  dsimp only
  by_cases hfits : align size ≤ place.block.size
  · rw [if_pos hfits] at hroom ⊢
    exact .inl ⟨_, rfl, hk.resize_same hb hused hroom⟩
  rw [if_neg hfits] at hroom ⊢
  by_cases hjoin : align size ≤ (h.joinNext place).2.block.size ∧
      (h.joinNext place).2.block.size ≤ sizeMax
  · rw [if_pos hjoin] at hroom ⊢
    exact .inl ⟨_, rfl, hk.resize_join hblocks hused hroom⟩
  rw [if_neg hjoin] at hroom ⊢
  have hholds := fun i hi => h.allocate_holds (align size) grant (hroom i hi)
  rcases hk.allocate (align_dvd size) (by omega) hgrant with ⟨q, hq, hgives⟩ | ⟨hnone, hwhy⟩
  · generalize h.allocate (align size) grant = out at hq hgives hholds ⊢
    obtain ⟨h', _⟩ := out
    cases hq
    dsimp only
    have hlength : (if place.block.size < size then place.block.size else size) =
        min place.block.size size := by
      split_ifs <;> omega
    rw [hlength, if_pos]
    · exact .inl ⟨q, rfl, hgives.resize hk hb hused (by omega) (by omega) hle⟩
    · rw [all_eq_true]
      intro i hi
      rw [mem_range] at hi
      exact hholds i (by omega)
  · rw [hnone]
    exact .inr ⟨rfl, hwhy⟩

end XsCore.Libc
