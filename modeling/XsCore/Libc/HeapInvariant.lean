import Mathlib.Algebra.Order.Group.Multiset
import Mathlib.Tactic.Abel
import XsCore.Foundation.Tiling
import XsCore.Libc.Heap

/-! # The invariant of the heap

While every growth of the heap continues it where it ends, the blocks tile the memory the kernel
gave.  Each call replaces a stretch of the list of blocks by another that fills the same place;
`HeapOk.replace` is the one argument all of them use.
-/

namespace XsCore.Libc

open Bytes Tiling List Option

variable {memory' : Nat → UInt8} {blocks : List Block} {value : Nat} {grant : Grant}
  {region : Region}

def freeAddrs (blocks : List Block) : List Nat := (blocks.filter (·.free)).map (·.addr)

structure BlockOk (memory : Nat → UInt8) (b : Block) : Prop where
  aligned : 16 ∣ b.size
  positive : 0 < b.size
  inside : b.free = false → b.addr + headerSize ≤ b.user ∧ b.user < b.stop
  back : b.free = false → loadPointer memory (b.user - pointerSize) = b.addr

structure HeapOk (h : Heap) : Prop where
  tiled : ∃ lo hi, 0 < lo ∧ 16 ∣ lo ∧ hi ≤ 2 ^ 64 ∧ Tiles Block.addr Block.extent lo h.blocks hi ∧
    Tiles Region.base Region.length lo h.given hi
  regions : ∀ r ∈ h.given, 0 < r.length
  each : ∀ b ∈ h.blocks, BlockOk h.memory b
  listed : (h.freeList : Multiset Nat) = freeAddrs h.blocks

variable {h h' : Heap} {b c : Block} {before after olds news : List Block} {p a size : Nat}

theorem freeAddrs_append (xs ys : List Block) :
    freeAddrs (xs ++ ys) = freeAddrs xs ++ freeAddrs ys := by
  unfold freeAddrs
  rw [filter_append, map_append]

theorem freeAddrs_cons_free (hb : b.free) (xs : List Block) :
    freeAddrs (b :: xs) = b.addr :: freeAddrs xs := by
  unfold freeAddrs
  rw [filter_cons_of_pos hb, map_cons]

theorem freeAddrs_cons_used (hb : b.free = false) (xs : List Block) :
    freeAddrs (b :: xs) = freeAddrs xs := by
  unfold freeAddrs
  rw [filter_cons_of_neg (by simp [hb])]

theorem HeapOk.eq_of_overlap (hk : HeapOk h) (hb : b ∈ h.blocks) (hc : c ∈ h.blocks)
    (hba : b.addr ≤ a ∧ a < b.stop) (hca : c.addr ≤ a ∧ a < c.stop) : b = c := by
  obtain ⟨lo, hi, -, -, -, htiles, -⟩ := hk.tiled
  exact htiles.eq_of_overlap hb hc hba hca

theorem HeapOk.addr_dvd (hk : HeapOk h) (hb : b ∈ h.blocks) : 16 ∣ b.addr := by
  obtain ⟨lo, hi, -, hlo, -, htiles, -⟩ := hk.tiled
  have hsizes := fun c hc => (hk.each c hc).aligned
  generalize h.blocks = blocks at htiles hb hsizes
  induction blocks generalizing lo with
  | nil => exact absurd hb not_mem_nil
  | cons c blocks ih =>
    have haddr := htiles.1
    rcases mem_cons.mp hb with rfl | hb
    · rwa [haddr]
    have hnext : 16 ∣ lo + c.extent := by
      have hsize := hsizes c mem_cons_self
      unfold Block.extent headerSize
      omega
    exact ih _ hnext htiles.2 hb fun c hc => hsizes c (mem_cons_of_mem _ hc)

variable {memory : Nat → UInt8} {freeList : List Nat} {place : Place} {next : Block}

theorem loadPointer_congr (hsame : ∀ a, p ≤ a → a < p + pointerSize → memory a = memory' a) :
    loadPointer memory p = loadPointer memory' p := by
  unfold loadPointer
  rw [load_congr hsame]

theorem BlockOk.of_free (hfree : b.free) (hdvd : 16 ∣ b.size) (hpos : 0 < b.size) :
    BlockOk memory b := by
  have hnot : b.free ≠ false := by simp [hfree]
  exact ⟨hdvd, hpos, fun hused => absurd hused hnot, fun hused => absurd hused hnot⟩

theorem BlockOk.congr (hb : BlockOk memory b)
    (hsame : ∀ a, b.addr ≤ a → a < b.stop → memory' a = memory a) : BlockOk memory' b where
  aligned := hb.aligned
  positive := hb.positive
  inside := hb.inside
  back hused := by
    obtain ⟨hlow, hhigh⟩ := hb.inside hused
    rw [← hb.back hused]
    apply loadPointer_congr
    intro a ha ha'
    unfold headerSize at hlow
    unfold pointerSize at ha ha'
    exact hsame a (by omega) (by omega)

theorem HeapOk.replace (hk : HeapOk h) (hblocks : h.blocks = before ++ (olds ++ after))
    (htiles : ∀ start stop, Tiles Block.addr Block.extent start olds stop →
      Tiles Block.addr Block.extent start news stop) (hnews : ∀ b ∈ news, BlockOk memory b)
    (hmemory : ∀ a, (∀ b ∈ olds, ¬ (b.addr ≤ a ∧ a < b.stop)) → memory a = h.memory a)
    (hlist : (freeList : Multiset Nat) + (freeAddrs olds : Multiset Nat) =
      (h.freeList : Multiset Nat) + (freeAddrs news : Multiset Nat)) :
    HeapOk { h with blocks := before ++ (news ++ after), freeList := freeList,
                    memory := memory } where
  tiled := by
    obtain ⟨lo, hi, hpos, hdvd, hhi, htiled, hgiven⟩ := hk.tiled
    rw [hblocks] at htiled
    exact ⟨lo, hi, hpos, hdvd, hhi, htiled.replace htiles, hgiven⟩
  regions := hk.regions
  each := by
    have hordered : (before ++ (olds ++ after)).Pairwise fun x y => x.stop ≤ y.addr := by
      obtain ⟨lo, hi, -, -, -, htiled, -⟩ := hk.tiled
      rw [hblocks] at htiled
      exact htiled.ordered
    obtain ⟨-, hrest, hcross⟩ := pairwise_append.mp hordered
    obtain ⟨-, -, hcross'⟩ := pairwise_append.mp hrest
    -- a block that stays shares no byte with the stretch
    have hstay : ∀ c ∈ h.blocks, (∀ b ∈ olds, c.stop ≤ b.addr ∨ b.stop ≤ c.addr) →
        BlockOk memory c := by
      intro c hc hapart
      refine (hk.each c hc).congr fun a hlow hhigh => hmemory a fun b hb hba => ?_
      have := hapart b hb
      omega
    intro c hc
    have hmem : ∀ {c}, c ∈ before ++ (olds ++ after) → c ∈ h.blocks := fun hc => hblocks ▸ hc
    rcases mem_append.mp hc with hc | hc
    · exact hstay c (hmem (by simp [hc])) fun b hb => .inl (hcross c hc b (by simp [hb]))
    rcases mem_append.mp hc with hc | hc
    · exact hnews c hc
    · exact hstay c (hmem (by simp [hc])) fun b hb => .inr (hcross' b hb c hc)
  listed := by
    have hold := hk.listed
    rw [hblocks, freeAddrs_append, freeAddrs_append, ← Multiset.coe_add, ← Multiset.coe_add] at hold
    rw [freeAddrs_append, freeAddrs_append, ← Multiset.coe_add, ← Multiset.coe_add]
    rw [hold] at hlist
    apply add_right_cancel (b := (freeAddrs olds : Multiset Nat))
    rw [hlist]
    abel

/-! ## Finding a header -/

theorem locate_spec (hfound : locate a blocks = some place) :
    blocks = place.blocks ∧ place.block.addr = a := by
  induction blocks generalizing place with
  | nil => cases hfound
  | cons c blocks ih =>
    unfold locate at hfound
    split_ifs at hfound with haddr
    · cases hfound
      exact ⟨rfl, haddr⟩
    obtain ⟨inner, hinner, rfl⟩ := map_eq_some_iff.mp hfound
    obtain ⟨hblocks, hinner⟩ := ih hinner
    refine ⟨?_, hinner⟩
    rw [hblocks]
    rfl

theorem locate_isSome (hb : b ∈ blocks) : (locate b.addr blocks).isSome := by
  induction blocks with
  | nil => exact absurd hb not_mem_nil
  | cons c blocks ih =>
    unfold locate
    split_ifs with haddr
    · rfl
    rcases mem_cons.mp hb with rfl | hb
    · exact absurd rfl haddr
    · rw [isSome_map]
      exact ih hb

theorem Place.mem_blocks (place : Place) : place.block ∈ place.blocks := by simp [Place.blocks]

theorem HeapOk.locate (hk : HeapOk h) (hb : b ∈ h.blocks) :
    ∃ place, Libc.locate b.addr h.blocks = some place ∧ place.block = b ∧
      h.blocks = place.blocks := by
  obtain ⟨place, hplace⟩ := isSome_iff_exists.mp (locate_isSome hb)
  obtain ⟨hblocks, haddr⟩ := locate_spec hplace
  refine ⟨place, hplace, ?_, hblocks⟩
  have hmem : place.block ∈ h.blocks := hblocks ▸ place.mem_blocks
  have hspan : ∀ c : Block, c.addr < c.stop := fun c => by
    unfold Block.stop Block.extent headerSize
    omega
  refine hk.eq_of_overlap hmem hb ⟨le_rfl, hspan _⟩ ?_
  rw [haddr]
  exact ⟨le_rfl, hspan b⟩

theorem HeapOk.findAllocated (hk : HeapOk h) (hb : b ∈ h.blocks) (hused : b.free = false) :
    ∃ place, h.findAllocated b.user = some place ∧ place.block = b ∧ h.blocks = place.blocks := by
  obtain ⟨place, hlocate, hblock, hblocks⟩ := hk.locate hb
  refine ⟨place, ?_, hblock, hblocks⟩
  obtain ⟨lo, hi, hpos, -, -, htiles, -⟩ := hk.tiled
  have hne : h.blocks ≠ [] := ne_nil_of_mem hb
  obtain ⟨first, hfirst⟩ := isSome_iff_exists.mp (isSome_head?.mpr hne)
  obtain ⟨last, hlast⟩ : ∃ last, h.blocks.getLast? = some last :=
    ⟨_, List.getLast?_eq_some_getLast hne⟩
  have hlo : first.addr = lo := htiles.first hfirst
  have hhi : last.stop = hi := htiles.last hlast
  have hbounds : lo ≤ b.addr ∧ b.addr + (headerSize + b.size) ≤ hi := htiles.bounds hb
  obtain ⟨hlow, hhigh⟩ := (hk.each b hb).inside hused
  have hback := (hk.each b hb).back hused
  have haligned : b.addr % alignment = 0 := Nat.mod_eq_zero_of_dvd (hk.addr_dvd hb)
  have hstop : b.stop = b.addr + (headerSize + b.size) := rfl
  have hheader : headerSize = 64 := rfl
  have hpointer : pointerSize = 8 := rfl
  unfold Heap.findAllocated
  rw [hfirst, hlast]
  dsimp only
  rw [if_neg (by omega), if_neg (by omega), if_neg (by omega), hback, if_neg (by omega), hlocate]
  apply filter_eq_some_iff.mpr
  refine ⟨rfl, ?_⟩
  rw [hblock, hused]
  simp

/-! ## Taking a block into use -/

/-- A call that handed out `p` with room for `size` bytes: the blocks that were in use stay as they
are, with their bytes. -/
structure Gives (h h' : Heap) (p size : Nat) : Prop where
  ok : HeapOk h'
  block : ∃ b ∈ h'.blocks, b.free = false ∧ b.user = p ∧ b.addr + headerSize = p ∧ size ≤ b.size
  stays : ∀ c ∈ h.blocks, c.free = false → c ∈ h'.blocks ∧ c.user ≠ p
  frame : ∀ c ∈ h.blocks, c.free = false → ∀ a, c.addr ≤ a → a < c.stop → h'.memory a = h.memory a

theorem storePointer_outside (ha : a < p ∨ p + pointerSize ≤ a) :
    storePointer memory p value a = memory a := by
  apply store_outside
  rw [leBytes_length]
  exact ha

theorem loadPointer_storePointer (memory : Nat → UInt8) (hvalue : value < 2 ^ 64) :
    loadPointer (storePointer memory p value) p = value := by
  unfold loadPointer storePointer
  have hload := load_store memory p (leBytes pointerSize value)
  rw [leBytes_length] at hload
  rw [hload, leValue_leBytes]
  exact Nat.mod_eq_of_lt hvalue

theorem HeapOk.addr_lt (hk : HeapOk h) (hb : b ∈ h.blocks) : 0 < b.addr ∧ b.stop ≤ 2 ^ 64 := by
  obtain ⟨lo, hi, hpos, -, hhi, htiles, -⟩ := hk.tiled
  have hbounds : lo ≤ b.addr ∧ b.stop ≤ hi := htiles.bounds hb
  omega

theorem usedBlock_ok (hk : HeapOk h) (hb : b ∈ h.blocks) {size' : Nat} (hdvd : 16 ∣ size')
    (hpos : 0 < size') :
    BlockOk (storePointer h.memory (b.addr + headerSize - pointerSize) b.addr)
      { b with size := size', free := false, user := b.addr + headerSize } where
  aligned := hdvd
  positive := hpos
  inside _ := by
    show b.addr + headerSize ≤ b.addr + headerSize ∧
      b.addr + headerSize < b.addr + (headerSize + size')
    omega
  back _ := by
    have haddr := hk.addr_lt hb
    have hstop : b.stop = b.addr + (headerSize + b.size) := rfl
    have hheader : headerSize = 64 := rfl
    exact loadPointer_storePointer h.memory (by omega)

theorem erase_listed {fl : List Nat} (ha : a ∈ fl) :
    (fl.erase a : Multiset Nat) + (([a] : List Nat) : Multiset Nat) = fl := by
  rw [← Multiset.coe_erase, Multiset.coe_singleton, add_comm, Multiset.singleton_add]
  exact Multiset.cons_erase (Multiset.mem_coe.mpr ha)

theorem HeapOk.mem_freeList (hk : HeapOk h) (hb : b ∈ h.blocks) (hfree : b.free) :
    b.addr ∈ h.freeList := by
  rw [← Multiset.mem_coe, hk.listed, Multiset.mem_coe]
  exact mem_map_of_mem (mem_filter.mpr ⟨hb, hfree⟩)

theorem HeapOk.gives (hk : HeapOk h) (hblocks : h.blocks = before ++ ([b] ++ after))
    (hfree : b.free) {u : Block} (rest : List Block)
    (htiles : ∀ start stop, Tiles Block.addr Block.extent start [b] stop →
      Tiles Block.addr Block.extent start (u :: rest) stop)
    (hu : u = { b with size := u.size, free := false, user := b.addr + headerSize })
    (hdvd : 16 ∣ u.size) (hpos : 0 < size) (hsize : size ≤ u.size)
    (hrest : ∀ c ∈ rest, c.free ∧ 16 ∣ c.size ∧ 0 < c.size)
    (hlist : (freeList : Multiset Nat) + ([b.addr] : List Nat) =
      (h.freeList : Multiset Nat) + (freeAddrs rest : Multiset Nat)) :
    Gives h { h with
        blocks := before ++ ((u :: rest) ++ after)
        freeList := freeList
        memory := storePointer h.memory (b.addr + headerSize - pointerSize) b.addr }
      (b.addr + headerSize) size := by
  have hb : b ∈ h.blocks := by simp [hblocks]
  have hheader : headerSize = 64 := rfl
  have hpointer : pointerSize = 8 := rfl
  have hbstop : b.stop = b.addr + (headerSize + b.size) := rfl
  have hbpos := (hk.each b hb).positive
  have huser : u.user = b.addr + headerSize := by rw [hu]
  have hused : u.free = false := by rw [hu]
  have haddr : u.addr = b.addr := by rw [hu]
  -- the only bytes written are of the block's own header
  have hwritten : ∀ a, ¬ (b.addr ≤ a ∧ a < b.stop) →
      storePointer h.memory (b.addr + headerSize - pointerSize) b.addr a = h.memory a := by
    intro a ha
    exact storePointer_outside (by omega)
  have hdistinct : ∀ c ∈ h.blocks, c.free = false → ∀ a, c.addr ≤ a → a < c.stop →
      ¬ (b.addr ≤ a ∧ a < b.stop) := by
    intro c hc hcused a hlow hhigh hba
    rw [hk.eq_of_overlap hb hc hba ⟨hlow, hhigh⟩, hcused] at hfree
    cases hfree
  constructor
  · apply hk.replace hblocks htiles
    · intro c hc
      rcases mem_cons.mp hc with rfl | hc
      · rw [hu]
        exact usedBlock_ok hk hb hdvd (by omega)
      · obtain ⟨hcfree, hcdvd, hcpos⟩ := hrest c hc
        exact .of_free hcfree hcdvd hcpos
    · intro a ha
      exact hwritten a (ha b mem_cons_self)
    · rw [freeAddrs_cons_free hfree, freeAddrs_cons_used hused]
      exact hlist
  · exact ⟨u, by simp, hused, huser, by rw [haddr], hsize⟩
  · intro c hc hcused
    obtain ⟨hlow, hhigh⟩ := (hk.each c hc).inside hcused
    constructor
    · have hne : c ≠ b := by
        rintro rfl
        rw [hcused] at hfree
        cases hfree
      rw [hblocks] at hc
      simp only [mem_append, mem_cons] at hc ⊢
      tauto
    · intro hsame
      exact hdistinct c hc hcused c.user (by omega) hhigh (by omega)
  · intro c hc hcused a hlow hhigh
    exact hwritten a (hdistinct c hc hcused a hlow hhigh)

theorem HeapOk.take (hk : HeapOk h) (hblocks : h.blocks = place.blocks) (hfree : place.block.free)
    (hdvd : 16 ∣ size) (hpos : 0 < size) (hsize : size ≤ place.block.size) :
    let out := ({ h with freeList := h.freeList.erase place.block.addr } : Heap).take place size
    Gives h out.1 out.2 size := by
  intro out
  have hmem : place.block ∈ h.blocks := hblocks ▸ place.mem_blocks
  have hlisted := erase_listed (hk.mem_freeList hmem hfree)
  have hblock := hk.each _ hmem
  have hheader : headerSize = 64 := rfl
  have halign : alignment = 16 := rfl
  by_cases hroom : headerSize + alignment ≤ place.block.size - size
  · rw [show out = _ from if_pos hroom]
    have hdvd' := hblock.aligned
    refine hk.gives hblocks hfree [place.block.remainder size] ?_ rfl hdvd hpos le_rfl ?_ ?_
    · rintro start stop ⟨hstart, hstop⟩
      have hlength : start + (headerSize + place.block.size) = stop := hstop
      refine ⟨hstart, ?_, ?_⟩
      · show place.block.addr + headerSize + size = start + (headerSize + size)
        omega
      · show start + (headerSize + size) +
          (headerSize + (place.block.size - size - headerSize)) = stop
        omega
    · intro c hc
      rw [mem_singleton.mp hc]
      have hrest : 16 ∣ place.block.size - size - headerSize ∧
          0 < place.block.size - size - headerSize := by omega
      exact ⟨rfl, hrest⟩
    · rw [← Multiset.cons_coe, Multiset.cons_add, hlisted, ← Multiset.singleton_add, add_comm]
      rfl
  · rw [show out = _ from if_neg hroom]
    refine hk.gives hblocks hfree [] ?_ rfl hblock.aligned hpos hsize ?_ ?_
    · rintro start stop ⟨hstart, hstop⟩
      exact ⟨hstart, hstop⟩
    · exact fun c hc => absurd hc not_mem_nil
    · rw [hlisted]
      exact (add_zero _).symm

/-! ## Growing the heap -/

structure Adjoins (h : Heap) (region : Region) : Prop where
  aligned : 16 ∣ region.base
  positive : 0 < region.base
  within : region.base + region.length ≤ 2 ^ 64
  next : ∀ last, h.blocks.getLast? = some last → region.base = last.stop

theorem Grant.region_length (hdvd : 16 ∣ size) (hregion : grant.region size = some region) :
    16 ∣ region.length ∧ size + headerSize ≤ region.length := by
  have hheader : headerSize = 64 := rfl
  have hrequest : ∀ request,
      request = (if size + headerSize < 4096 then 4096 else size + headerSize) →
      16 ∣ request ∧ size + headerSize ≤ request := by
    rintro request rfl
    split_ifs <;> omega
  unfold Grant.region at hregion
  obtain ⟨hdvd', hle⟩ := hrequest _ rfl
  generalize (if size + headerSize < 4096 then 4096 else size + headerSize) = request at *
  split at hregion
  · cases hregion
    exact ⟨hdvd', hle⟩
  obtain ⟨base, -, rfl⟩ := map_eq_some_iff.mp hregion
  dsimp only
  omega

def Heap.grown (h : Heap) (region : Region) : Heap :=
  { h with
    blocks := h.blocks ++ [⟨region.base, region.length - headerSize, true, 0⟩]
    freeList := region.base :: h.freeList
    given := h.given ++ [region] }

theorem HeapOk.grow (hk : HeapOk h) (hregion : Adjoins h region) (hdvd : 16 ∣ region.length)
    (hlength : headerSize < region.length) : HeapOk (h.grown region) where
  tiled := by
    obtain ⟨lo, hi, hpos, hlo, -, htiles, hgiven⟩ := hk.tiled
    have hextent : headerSize + (region.length - headerSize) = region.length := by omega
    have hnew : ∀ start, region.base = start →
        Tiles Block.addr Block.extent start [⟨region.base, region.length - headerSize, true, 0⟩]
          (region.base + region.length) ∧
        Tiles Region.base Region.length start [region] (region.base + region.length) := by
      rintro start rfl
      refine ⟨⟨rfl, ?_⟩, rfl, rfl⟩
      show region.base + (headerSize + (region.length - headerSize)) = _
      rw [hextent]
    by_cases hnil : h.blocks = []
    · -- the first memory may be anywhere
      have hempty : h.given = [] := by
        rw [hnil] at htiles
        have hlohi : lo = hi := htiles
        rcases hg : h.given with _ | ⟨r, rest⟩
        · rfl
        have hr := hk.regions r (by simp [hg])
        rw [hg] at hgiven
        have hrest := hgiven.2.le
        omega
      refine ⟨region.base, region.base + region.length, hregion.positive, hregion.aligned,
        hregion.within, ?_, ?_⟩
      · show Tiles _ _ _ (h.blocks ++ _) _
        rw [hnil]
        exact (hnew _ rfl).1
      · show Tiles _ _ _ (h.given ++ _) _
        rw [hempty]
        exact (hnew _ rfl).2
    · have hlast := List.getLast?_eq_some_getLast hnil
      have hhi : region.base = hi := (hregion.next _ hlast).trans (htiles.last hlast)
      refine ⟨lo, region.base + region.length, hpos, hlo, hregion.within, ?_, ?_⟩
      · exact tiles_append.mpr ⟨hi, htiles, (hnew hi hhi).1⟩
      · exact tiles_append.mpr ⟨hi, hgiven, (hnew hi hhi).2⟩
  regions := by
    intro r hr
    rcases mem_append.mp hr with hr | hr
    · exact hk.regions r hr
    · rw [mem_singleton.mp hr]
      omega
  each := by
    intro b hb
    rcases mem_append.mp hb with hb | hb
    · exact hk.each b hb
    rw [mem_singleton.mp hb]
    have hheader : headerSize = 64 := rfl
    refine .of_free rfl ?_ ?_
    · show 16 ∣ region.length - headerSize
      omega
    · show 0 < region.length - headerSize
      omega
  listed := by
    show ((region.base :: h.freeList : List Nat) : Multiset Nat) = freeAddrs (h.blocks ++ _)
    rw [freeAddrs_append, freeAddrs_cons_free rfl, ← Multiset.coe_add, ← hk.listed,
      ← Multiset.cons_coe, ← Multiset.singleton_add, add_comm]
    rfl

/-! ## Allocation -/

theorem HeapOk.fit (hk : HeapOk h) (hfit : h.fit size = some place) :
    h.blocks = place.blocks ∧ place.block.free ∧ size ≤ place.block.size := by
  unfold Heap.fit at hfit
  obtain ⟨a, ha, hfilter⟩ := exists_of_findSome?_eq_some hfit
  obtain ⟨hlocate, hsize⟩ := filter_eq_some_iff.mp hfilter
  obtain ⟨hblocks, haddr⟩ := locate_spec hlocate
  refine ⟨hblocks, ?_, by simpa using hsize⟩
  rw [← Multiset.mem_coe, hk.listed, Multiset.mem_coe] at ha
  obtain ⟨b, hb, hba⟩ := mem_map.mp ha
  obtain ⟨hmem, hfree⟩ := mem_filter.mp hb
  obtain ⟨place', hlocate', hblock', -⟩ := hk.locate hmem
  rw [hba, hlocate] at hlocate'
  cases hlocate'
  rwa [hblock']

theorem HeapOk.take_grown (hk : HeapOk (h.grown region)) (hdvd : 16 ∣ size)
    (hpos : 0 < size) (hsize : size ≤ region.length - headerSize) :
    let out := ({ h with given := h.given ++ [region] } : Heap).take
      ⟨h.blocks, ⟨region.base, region.length - headerSize, false, 0⟩, []⟩ size
    Gives h out.1 out.2 size := by
  intro out
  let place : Place := ⟨h.blocks, ⟨region.base, region.length - headerSize, true, 0⟩, []⟩
  have hout : out = ({ h.grown region with
      freeList := (h.grown region).freeList.erase place.block.addr } : Heap).take place size := by
    have herase : (region.base :: h.freeList).erase region.base = h.freeList := erase_cons_head _ _
    unfold Heap.grown
    rw [herase]
    rfl
  have htake : Gives (h.grown region) out.1 out.2 size := by
    have hblocks : (h.grown region).blocks = place.blocks := rfl
    rw [hout]
    exact hk.take hblocks rfl hdvd hpos hsize
  have hmem : ∀ c ∈ h.blocks, c ∈ (h.grown region).blocks := fun c hc => mem_append_left _ hc
  exact ⟨htake.ok, htake.block, fun c hc => htake.stays c (hmem c hc),
    fun c hc => htake.frame c (hmem c hc)⟩

theorem HeapOk.allocate (hk : HeapOk h) (hdvd : 16 ∣ size) (hpos : 0 < size)
    (hgrant : ∀ region, grant.region size = some region → Adjoins h region) :
    (∃ p, (h.allocate size grant).2 = some p ∧ Gives h (h.allocate size grant).1 p size) ∨
      h.allocate size grant = (h, none) ∧
        (intptrMax < size + headerSize ∨ grant.region size = none) := by
  unfold Heap.allocate
  rcases hfit : h.fit size with _ | place
  swap
  · obtain ⟨hblocks, hfree, hsize⟩ := hk.fit hfit
    exact .inl ⟨_, rfl, hk.take hblocks hfree hdvd hpos hsize⟩
  split_ifs
  · refine .inr ⟨rfl, .inl ?_⟩
    have hmax : sizeMax = 2 ^ 64 - 1 := rfl
    have hmax' : intptrMax = 2 ^ 63 - 1 := rfl
    omega
  cases hregion : grant.region size with
  | none => exact .inr ⟨rfl, .inr rfl⟩
  | some region =>
    obtain ⟨hdvd', hlength⟩ := Grant.region_length hdvd hregion
    have hgrown := hk.grow (hgrant region hregion) hdvd' (by omega)
    exact .inl ⟨_, rfl, hgrown.take_grown hdvd hpos (by omega)⟩

/-! ## Joining blocks -/

def Block.join (b next : Block) : Block := { b with size := b.size + (headerSize + next.size) }

theorem Block.join_stop (b next : Block) : (b.join next).stop = b.stop + next.extent := by
  show b.addr + (headerSize + (b.size + (headerSize + next.size))) =
    b.addr + (headerSize + b.size) + (headerSize + next.size)
  omega

theorem BlockOk.join (hb : BlockOk memory b) (hnext : BlockOk memory next) :
    BlockOk memory (b.join next) where
  aligned := by
    have hheader : headerSize = 64 := rfl
    have := hb.aligned
    have := hnext.aligned
    show 16 ∣ b.size + (headerSize + next.size)
    omega
  positive := by
    have := hb.positive
    show 0 < b.size + (headerSize + next.size)
    omega
  inside hused := by
    have hinside := hb.inside hused
    rw [Block.join_stop]
    exact ⟨hinside.1, Nat.lt_add_right _ hinside.2⟩
  back hused := hb.back hused

theorem HeapOk.join (hk : HeapOk h)
    (hblocks : h.blocks = before ++ ([b, next] ++ after)) (hnext : next.free)
    (hlist : (freeList : Multiset Nat) + ([next.addr] : List Nat) = (h.freeList : Multiset Nat)) :
    HeapOk { h with blocks := before ++ ([b.join next] ++ after), freeList := freeList } := by
  have hb := hk.each b (by simp [hblocks])
  have hn := hk.each next (by simp [hblocks])
  apply hk.replace hblocks
  · rintro start stop ⟨hstart, hadjacent, hstop⟩
    refine ⟨hstart, ?_⟩
    have hend : start + (headerSize + b.size) + (headerSize + next.size) = stop := hstop
    show start + (headerSize + (b.size + (headerSize + next.size))) = stop
    omega
  · intro c hc
    rw [mem_singleton.mp hc]
    exact hb.join hn
  · exact fun a _ => rfl
  · rw [← hlist, add_assoc]
    congr 1
    cases hfree : b.free with
    | true =>
      have hjoin : (b.join next).free := hfree
      rw [freeAddrs_cons_free hfree, freeAddrs_cons_free hnext, freeAddrs_cons_free hjoin,
        Multiset.coe_add]
      exact Multiset.coe_eq_coe.mpr (List.Perm.swap _ _ _)
    | false =>
      have hjoin : (b.join next).free = false := hfree
      rw [freeAddrs_cons_used hfree, freeAddrs_cons_free hnext, freeAddrs_cons_used hjoin]
      exact (add_zero _).symm

/-! ## Releasing a block -/

/-- A free block on its way back to the free list, while its neighbours are looked at. -/
structure Opened (h : Heap) (place : Place) : Prop where
  ok : HeapOk { h with blocks := place.blocks, freeList := place.block.addr :: h.freeList }
  free : place.block.free = true

/-- The block has grown at most, and the blocks in use are still there. -/
structure Place.Within (place place' : Place) : Prop where
  low : place'.block.addr ≤ place.block.addr
  high : place.block.stop ≤ place'.block.stop
  stays : ∀ c ∈ place.blocks, c.free = false → c ∈ place'.blocks

theorem Place.Within.refl (place : Place) : place.Within place :=
  ⟨le_rfl, le_rfl, fun _ hc _ => hc⟩

theorem Place.Within.trans {place' place'' : Place} (h₁ : place.Within place')
    (h₂ : place'.Within place'') : place.Within place'' where
  low := h₂.low.trans h₁.low
  high := h₁.high.trans h₂.high
  stays c hc hused := h₂.stays c (h₁.stays c hc hused) hused

theorem HeapOk.adjacent (hk : HeapOk h) (hblocks : h.blocks = before ++ ([b, next] ++ after)) :
    next.addr = b.stop := by
  obtain ⟨lo, hi, -, -, -, htiles, -⟩ := hk.tiled
  rw [hblocks] at htiles
  obtain ⟨start, -, hrest⟩ := tiles_append.mp htiles
  have hb : b.addr = start := hrest.1
  have hnext : next.addr = start + b.extent := hrest.2.1
  rw [hnext, ← hb]
  rfl

theorem HeapOk.join_free {freeList' : List Nat}
    (hk : HeapOk { h with blocks := before ++ ([b, next] ++ after), freeList := freeList })
    (hfree : b.free) (hnext : next.free)
    (hlist : ((b.addr :: freeList' : List Nat) : Multiset Nat) + ([next.addr] : List Nat) =
      (freeList : Multiset Nat)) :
    Opened { h with freeList := freeList' } ⟨before, b.join next, after⟩ ∧
      ∀ c ∈ before ++ ([b, next] ++ after), c.free = false →
        c ∈ before ++ b.join next :: after := by
  refine ⟨⟨hk.join rfl hnext hlist, hfree⟩, fun c hc hused => ?_⟩
  have hcb : c ≠ b := by
    rintro rfl
    rw [hfree] at hused
    cases hused
  have hcn : c ≠ next := by
    rintro rfl
    rw [hnext] at hused
    cases hused
  simp only [mem_append, mem_cons] at hc ⊢
  tauto

theorem HeapOk.neighbours_listed {first : Nat}
    (hk : HeapOk { h with blocks := before ++ ([b, next] ++ after), freeList := first :: freeList })
    (hfree : b.free) (hnext : next.free) :
    (first = b.addr → next.addr ∈ freeList) ∧ (first = next.addr → b.addr ∈ freeList) := by
  have hadjacent : next.addr = b.stop := hk.adjacent rfl
  have hstop : b.stop = b.addr + (headerSize + b.size) := rfl
  have hheader : headerSize = 64 := rfl
  have hbmem : b ∈ before ++ ([b, next] ++ after) := by simp
  have hnmem : next ∈ before ++ ([b, next] ++ after) := by simp
  constructor
  · intro hfirst
    have hlisted : next.addr ∈ first :: freeList := hk.mem_freeList hnmem hnext
    exact (mem_cons.mp hlisted).resolve_left (by omega)
  · intro hfirst
    have hlisted : b.addr ∈ first :: freeList := hk.mem_freeList hbmem hfree
    exact (mem_cons.mp hlisted).resolve_left (by omega)

theorem Opened.joinNext (ho : Opened h place) :
    Opened (h.joinNext place).1 (h.joinNext place).2 ∧ place.Within (h.joinNext place).2 := by
  unfold Heap.joinNext
  obtain ⟨before, b, after⟩ := place
  rcases after with _ | ⟨next, after⟩
  · exact ⟨ho, .refl _⟩
  rcases hnext : next.free with _ | _
  · simpa [hnext] using ⟨ho, Place.Within.refl _⟩
  have hok : HeapOk { h with
    blocks := before ++ ([b, next] ++ after), freeList := b.addr :: h.freeList } := ho.ok
  have hmem := (hok.neighbours_listed ho.free hnext).1 rfl
  have hlist : ((b.addr :: h.freeList.erase next.addr : List Nat) : Multiset Nat) +
      ([next.addr] : List Nat) = (b.addr :: h.freeList : List Nat) := by
    rw [← Multiset.cons_coe, Multiset.cons_add, erase_listed hmem, Multiset.cons_coe]
  obtain ⟨hjoined, hstays⟩ := hok.join_free ho.free hnext hlist
  dsimp only
  rw [if_pos hnext]
  refine ⟨hjoined, le_rfl, ?_, hstays⟩
  show b.stop ≤ (b.join next).stop
  rw [Block.join_stop]
  exact Nat.le_add_right _ _

theorem Opened.joinPrevious (ho : Opened h place) :
    Opened (h.joinPrevious place).1 (h.joinPrevious place).2 ∧
      place.Within (h.joinPrevious place).2 := by
  unfold Heap.joinPrevious
  obtain ⟨before, b, after⟩ := place
  rcases hlast : before.getLast? with _ | previous
  · exact ⟨ho, .refl _⟩
  dsimp only
  split_ifs with hprevious
  · obtain ⟨front, rfl⟩ : ∃ front, before = front ++ [previous] :=
      ⟨_, (dropLast_append_getLast? previous hlast).symm⟩
    have hok : HeapOk { h with
        blocks := front ++ ([previous, b] ++ after), freeList := b.addr :: h.freeList } := by
      have hok := ho.ok
      simpa [Place.blocks] using hok
    have hmem := (hok.neighbours_listed hprevious ho.free).2 rfl
    have hlist : ((previous.addr :: h.freeList.erase previous.addr : List Nat) : Multiset Nat) +
        ([b.addr] : List Nat) = (b.addr :: h.freeList : List Nat) := by
      have hperm : (previous.addr :: h.freeList.erase previous.addr).Perm h.freeList :=
        (perm_cons_erase hmem).symm
      rw [Multiset.coe_eq_coe.mpr hperm, Multiset.coe_add]
      exact Multiset.coe_eq_coe.mpr perm_append_comm
    obtain ⟨hjoined, hstays⟩ := hok.join_free hprevious ho.free hlist
    have hadjacent : b.addr = previous.stop := hok.adjacent rfl
    rw [dropLast_concat]
    refine ⟨hjoined, ?_, ?_, ?_⟩
    · show previous.addr ≤ b.addr
      rw [hadjacent]
      exact Nat.le_add_right _ _
    · show b.stop ≤ (previous.join b).stop
      rw [Block.join_stop, ← hadjacent]
      exact le_rfl
    · intro c hc
      apply hstays
      simpa [Place.blocks] using hc
  · exact ⟨ho, .refl _⟩

/-- A call that gave the block `b` back: it is part of a free block, and the other blocks in use
stay as they are, with their bytes. -/
structure Returns (h h' : Heap) (b : Block) : Prop where
  ok : HeapOk h'
  released : ∃ f ∈ h'.blocks, f.free = true ∧ f.addr ∈ h'.freeList ∧ f.addr ≤ b.addr ∧
    b.stop ≤ f.stop
  stays : ∀ c ∈ h.blocks, c.free = false → c ≠ b → c ∈ h'.blocks
  frame : ∀ c ∈ h.blocks, c.free = false → c ≠ b → ∀ a, c.addr ≤ a → a < c.stop →
    h'.memory a = h.memory a

theorem Heap.joinNext_memory (h : Heap) (place : Place) :
    (h.joinNext place).1.memory = h.memory := by
  unfold Heap.joinNext
  split
  · split_ifs <;> rfl
  · rfl

theorem Heap.joinPrevious_memory (h : Heap) (place : Place) :
    (h.joinPrevious place).1.memory = h.memory := by
  unfold Heap.joinPrevious
  split
  · split_ifs <;> rfl
  · rfl

theorem HeapOk.freeLocked (hk : HeapOk h) (hb : b ∈ h.blocks) (hused : b.free = false) :
    Returns h (h.freeLocked b.user) b := by
  obtain ⟨place, hfind, rfl, hblocks⟩ := hk.findAllocated hb hused
  have hinside := (hk.each _ hb).inside hused
  have hblock := hk.each _ hb
  have hheader : headerSize = 64 := rfl
  have hpointer : pointerSize = 8 := rfl
  generalize hmemory : storePointer h.memory (place.block.user - pointerSize) 0 = memory
  -- only the word before the user pointer is written
  have hwritten : ∀ a, ¬ (place.block.addr ≤ a ∧ a < place.block.stop) → memory a = h.memory a := by
    intro a ha
    rw [← hmemory]
    exact storePointer_outside (by omega)
  have hopened : Opened { h with memory := memory }
      { place with block := { place.block with free := true, user := 0 } } := by
    refine ⟨?_, rfl⟩
    have hsplit : h.blocks = place.before ++ ([place.block] ++ place.after) := hblocks
    show HeapOk { h with
      blocks := place.before ++ ([{ place.block with free := true, user := 0 }] ++ place.after)
      freeList := place.block.addr :: h.freeList
      memory := memory }
    apply hk.replace hsplit
    · exact fun _ _ htiles => htiles
    · intro c hc
      rw [mem_singleton.mp hc]
      exact .of_free rfl hblock.aligned hblock.positive
    · exact fun a ha => hwritten a (ha _ mem_cons_self)
    · rw [freeAddrs_cons_used hused, freeAddrs_cons_free rfl, Multiset.coe_add, Multiset.coe_add]
      have hnil : freeAddrs [] = [] := rfl
      rw [hnil, append_nil]
      exact Multiset.coe_eq_coe.mpr (perm_append_singleton _ _).symm
  obtain ⟨hnext, hwithin⟩ := hopened.joinNext
  obtain ⟨hprevious, hwithin'⟩ := hnext.joinPrevious
  have hwithin := hwithin.trans hwithin'
  unfold Heap.freeLocked
  rw [hfind]
  rw [hmemory]
  constructor
  · exact hprevious.ok
  · exact ⟨_, Place.mem_blocks _, hprevious.free, mem_cons_self, hwithin.low, hwithin.high⟩
  · intro c hc hcused hne
    apply hwithin.stays c _ hcused
    rw [hblocks] at hc
    simp only [Place.blocks, mem_append, mem_cons] at hc ⊢
    tauto
  · intro c hc hcused hne a hlow hhigh
    refine (congrFun ((Heap.joinPrevious_memory _ _).trans (Heap.joinNext_memory _ _)) a).trans
      (hwritten a fun hba => ?_)
    exact hne (hk.eq_of_overlap hc hb ⟨hlow, hhigh⟩ hba)

end XsCore.Libc
