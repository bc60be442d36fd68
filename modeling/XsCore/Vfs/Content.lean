import XsCore.Foundation.Machine
import XsCore.Vfs.Vnode

/-!
# File content refines a sparse byte array

The copy loops are described once (`CopyDone`: which bytes they overlay, and how
far they get) and every content operation is read off that description.  The
invariant is `Writable`: pages never hold a nonzero byte past the size, which is
what makes holes and re-extended regions read as zero.

A write that stores no byte still moves the size to its offset, and the 64-bit
sum of offset and length can wrap past the limit check; `WriteStores` is the
condition under which neither happens.
-/

namespace XsCore.Vfs

open Function Machine Nat List

variable (blocks : Blocks) (pos pages : Nat) (src : Nat → UInt8) (offset : Nat)

/-! ## Copy loops -/

/-- The content bytes a vnode's pages hold, holes and indices past the table included. -/
def pageByte (blocks : Blocks) (pos : Nat) : UInt8 := blockByte (visibleBlocks blocks) pos

@[simp] theorem pageByte_noBlocks : pageByte noBlocks pos = 0 := by
  simp [pageByte, blockByte, visibleBlocks, noBlocks]

theorem getBlock_eq_some {blocks : Blocks} {index pages pages' : Nat} {block : Block}
    (h : getBlock blocks index pages = some (block, pages')) :
    index < directBlocks ∧ block = (blocks index).getD (fun _ => 0) := by
  unfold getBlock at h
  split at h
  · cases h
  rename_i hlt
  refine ⟨by omega, ?_⟩
  split at h
  · simp_all
  split_ifs at h
  · simp_all

theorem getBlock_absent {blocks : Blocks} {index : Nat} (h : blocks index = none) :
    getBlock blocks index pages =
      if directBlocks ≤ index ∨ pages = 0 then none else some (fun _ => 0, pages - 1) := by
  unfold getBlock
  rw [h]
  by_cases hi : directBlocks ≤ index <;> simp [hi]

theorem pageByte_update (chunk : Nat) (src : Nat → UInt8) (hindex : pos / blockSize < directBlocks)
    (hchunk : pos % blockSize + chunk ≤ blockSize) : pageByte (update blocks (pos / blockSize)
        (some (SparseBytes.overlay ((blocks (pos / blockSize)).getD fun _ => 0)
          (pos % blockSize) chunk src))) =
      SparseBytes.overlay (pageByte blocks) pos chunk src := by
  funext i
  have hpos := div_add_mod pos blockSize
  have hi := div_add_mod i blockSize
  unfold pageByte blockByte visibleBlocks SparseBytes.overlay
  by_cases hsame : i / blockSize = pos / blockSize
  · simp only [hsame, hindex, if_true, update_self]
    rw [hsame] at hi
    split
    · rw [if_pos (by omega)]
      exact congrArg src (by omega)
    · rw [if_neg (by omega)]
      cases blocks (pos / blockSize) <;> rfl
  · have hout : ¬ (pos ≤ i ∧ i < pos + chunk) := by
      intro hin
      apply hsame
      have hlow := Nat.div_le_div_right (c := blockSize) hin.1
      have hhigh : i / blockSize < pos / blockSize + 1 := by
        rw [Nat.div_lt_iff_lt_mul (by decide), Nat.succ_mul, Nat.mul_comm]
        omega
      omega
    rw [if_neg hout]
    simp only [update_of_ne hsame]

/-- What a copy loop has done to the blocks when it stops. -/
structure CopyDone (src : Nat → UInt8) (offset length : Nat) (start final : Copied) : Prop where
  grows : start.count ≤ final.count
  bounded : start.count ≤ length → final.count ≤ length
  fits : start.count < final.count → offset + final.count ≤ fileMaxSize
  bytes : pageByte final.blocks =
    SparseBytes.overlay (pageByte start.blocks) (offset + start.count)
      (final.count - start.count) fun i => src (start.count + i)

theorem CopyDone.refl (length : Nat) (acc : Copied) : CopyDone src offset length acc acc where
  grows := le_rfl
  bounded := id
  fits := fun h => absurd h (lt_irrefl _)
  bytes := by simp

variable {length : Nat} {node : Vnode}

theorem CopyDone.trans {src : Nat → UInt8} {offset : Nat} {a b c : Copied}
    (hab : CopyDone src offset length a b) (hbc : CopyDone src offset length b c) :
    CopyDone src offset length a c where
  grows := hab.grows.trans hbc.grows
  bounded := fun h => hbc.bounded (hab.bounded h)
  fits := by
    intro h
    by_cases hlt : b.count < c.count
    · exact hbc.fits hlt
    have heq : b.count = c.count := le_antisymm hbc.grows (by omega)
    rw [← heq] at h ⊢
    exact hab.fits h
  bytes := by
    have hg := hab.grows
    have hg' := hbc.grows
    have hstep := SparseBytes.overlay_overlay (pageByte a.blocks) (offset + a.count)
      (b.count - a.count) (c.count - b.count) (fun i => src (a.count + i))
    rw [hbc.bytes, hab.bytes]
    rw [show offset + a.count + (b.count - a.count) = offset + b.count by omega,
      show b.count - a.count + (c.count - b.count) = c.count - a.count by omega] at hstep
    rw [← hstep]
    congr 1
    funext i
    exact congrArg src (by omega)

def chunkAt (offset length count : Nat) : Nat :=
  min (length - count) (blockSize - (offset + count) % blockSize)

theorem chunkAt_pos {count : Nat} (h : count < length) : 0 < chunkAt offset length count := by
  have : (offset + count) % blockSize < blockSize := mod_lt _ (by decide)
  unfold chunkAt
  omega

def copyTurn (src : Nat → UInt8) (offset length : Nat) (acc : Copied) (pages : Nat) : Copied :=
  let pos := offset + acc.count
  ⟨update acc.blocks (pos / blockSize)
      (some (SparseBytes.overlay ((acc.blocks (pos / blockSize)).getD fun _ => 0)
        (pos % blockSize) (chunkAt offset length acc.count) fun i => src (acc.count + i))),
    pages, acc.count + chunkAt offset length acc.count⟩

theorem copyLoop_succ (length fuel : Nat) (acc : Copied) (hpos : offset + acc.count < 2 ^ 64) :
    copyLoop src offset length (fuel + 1) acc =
      if acc.count < length then
        match getBlock acc.blocks ((offset + acc.count) / blockSize) acc.pages with
        | none => acc
        | some (_, pages) => copyLoop src offset length fuel (copyTurn src offset length acc pages)
      else acc := by
  rw [copyLoop]
  simp only [mod_eq_of_lt hpos]
  split
  · cases hget : getBlock acc.blocks ((offset + acc.count) / blockSize) acc.pages with
    | none => rfl
    | some found =>
      obtain ⟨block, pages⟩ := found
      obtain ⟨-, rfl⟩ := getBlock_eq_some hget
      rfl
  · rfl

theorem copyTurn_done (length : Nat) (acc : Copied) (pages : Nat)
    (hindex : (offset + acc.count) / blockSize < directBlocks) (hcount : acc.count < length) :
    CopyDone src offset length acc (copyTurn src offset length acc pages) where
  grows := le_add_right _ _
  bounded := by
    intro _
    simp only [copyTurn, chunkAt]
    omega
  fits := by
    intro _
    simp only [copyTurn, chunkAt, fileMaxSize, directBlocks, blockSize] at *
    omega
  bytes := by
    have hmod : (offset + acc.count) % blockSize < blockSize := mod_lt _ (by decide)
    simp only [copyTurn, Nat.add_sub_cancel_left]
    exact pageByte_update acc.blocks (offset + acc.count) _ _ hindex
      (by simp only [chunkAt]; omega)

theorem copyLoop_done (length fuel : Nat) (acc : Copied) (hpos : offset + acc.count < 2 ^ 64) :
    CopyDone src offset length acc (copyLoop src offset length fuel acc) := by
  induction fuel generalizing acc with
  | zero => exact CopyDone.refl ..
  | succ fuel ih =>
    rw [copyLoop_succ src offset length fuel acc hpos]
    split
    · rename_i hcount
      cases hget : getBlock acc.blocks ((offset + acc.count) / blockSize) acc.pages with
      | none => exact CopyDone.refl ..
      | some found =>
        obtain ⟨block, pages⟩ := found
        have hturn := copyTurn_done src offset length acc pages (getBlock_eq_some hget).1 hcount
        refine hturn.trans (ih _ ?_)
        have hfit := hturn.fits (Nat.lt_add_of_pos_right (chunkAt_pos offset hcount))
        exact hfit.trans_lt (by decide)
    · exact CopyDone.refl ..

theorem copyIn_done (length : Nat) (blocks : Blocks) (pages : Nat) (hpos : offset < 2 ^ 64) :
    CopyDone src offset length ⟨blocks, pages, 0⟩ (copyIn src offset length blocks pages) :=
  copyLoop_done src offset length _ ⟨blocks, pages, 0⟩ hpos

theorem copyIn_stores {offset : Nat} (blocks : Blocks) (pages : Nat) (hpos : offset < 2 ^ 64)
    (hlength : 0 < length) (hblock : (getBlock blocks (offset / blockSize) pages).isSome) :
    0 < (copyIn src offset length blocks pages).count := by
  unfold copyIn
  rw [copyLoop_succ src offset length _ ⟨blocks, pages, 0⟩ hpos, if_pos hlength]
  obtain ⟨⟨block, pages'⟩, hget⟩ := Option.isSome_iff_exists.mp hblock
  simp only [Nat.add_zero, hget]
  have hturn := copyTurn_done src offset length ⟨blocks, pages, 0⟩ pages'
    (getBlock_eq_some hget).1 hlength
  have hfit := hturn.fits (Nat.lt_add_of_pos_right (chunkAt_pos offset hlength))
  have hrest := copyLoop_done src offset length directBlocks
    (copyTurn src offset length ⟨blocks, pages, 0⟩ pages') (hfit.trans_lt (by decide))
  exact Nat.lt_of_lt_of_le (Nat.lt_add_of_pos_right (chunkAt_pos offset hlength)) hrest.grows

def blocksFor (count : Nat) : Nat := (count + blockSize - 1) / blockSize

/-- A copy from the start of an empty table has taken exactly the pages of the
bytes it copied. -/
structure FreshCopy (total length : Nat) (acc : Copied) : Prop where
  aligned : acc.count = length ∨ acc.count < length ∧ acc.count % blockSize = 0
  pages : acc.pages + blocksFor acc.count = total
  present : ∀ index, (acc.blocks index).isSome = decide (index < blocksFor acc.count)

theorem FreshCopy.loop {src : Nat → UInt8} {total fuel : Nat} {acc : Copied}
    (hlength : length ≤ fileMaxSize) (h : FreshCopy total length acc) :
    FreshCopy total length (copyLoop src 0 length fuel acc) := by
  induction fuel generalizing acc with
  | zero => exact h
  | succ fuel ih =>
    have hcount : acc.count ≤ length := by
      rcases h.aligned with heq | hlt
      · exact le_of_eq heq
      · exact le_of_lt hlt.1
    have hpos : 0 + acc.count < 2 ^ 64 := by
      rw [Nat.zero_add]
      exact lt_of_le_of_lt (hcount.trans hlength) (by decide)
    rw [copyLoop_succ src 0 length fuel acc hpos]
    split
    · rename_i hlt
      obtain heq | ⟨-, halign⟩ := h.aligned
      · exact absurd heq hlt.ne
      have hindex : blocksFor acc.count = (0 + acc.count) / blockSize := by
        simp only [blocksFor, blockSize] at halign ⊢
        omega
      have hnone : acc.blocks ((0 + acc.count) / blockSize) = none := by
        have hp := h.present ((0 + acc.count) / blockSize)
        rw [hindex] at hp
        simpa using hp
      have hnext : blocksFor (acc.count + chunkAt 0 length acc.count) =
          blocksFor acc.count + 1 := by
        have := chunkAt_pos 0 hlt
        simp only [blocksFor, chunkAt, blockSize, Nat.zero_add] at halign this ⊢
        omega
      rw [getBlock_absent _ hnone]
      split_ifs
      · exact h
      refine ih ⟨?_, ?_, ?_⟩
      · simp only [copyTurn, chunkAt, blockSize, Nat.zero_add] at halign ⊢
        omega
      · have hp := h.pages
        simp only [copyTurn, hnext]
        omega
      · intro index
        simp only [copyTurn, hnext]
        by_cases hi : index = (0 + acc.count) / blockSize
        · subst hi
          simp [hindex]
        rw [update_of_ne hi, h.present index]
        simp only [decide_eq_decide]
        omega
    · exact h

theorem copyIn_fresh (pages : Nat) (hlength : length ≤ fileMaxSize) :
    FreshCopy pages length (copyIn src 0 length noBlocks pages) := by
  apply FreshCopy.loop hlength
  refine ⟨?_, ?_, ?_⟩
  · rcases Nat.eq_zero_or_pos length with h | h
    · exact .inl h.symm
    · exact .inr ⟨h, rfl⟩
  · simp [blocksFor, blockSize]
  · intro index
    simp [noBlocks, blocksFor, blockSize]

/-! ## Reading -/

theorem readChunk_eq {pos chunk : Nat} (hchunk : pos % blockSize + chunk ≤ blockSize) :
    readChunk blocks pos chunk = (range chunk).map fun i => blockByte blocks (pos + i) := by
  have hin : ∀ i ∈ range chunk, blockByte blocks (pos + i) =
      (blocks (pos / blockSize)).elim 0 fun block => block (pos % blockSize + i) := by
    intro i hi
    rw [mem_range] at hi
    have hdiv : (pos + i) / blockSize = pos / blockSize := by
      simp only [blockSize] at *
      omega
    have hmod : (pos + i) % blockSize = pos % blockSize + i := by
      simp only [blockSize] at *
      omega
    unfold blockByte
    cases hblock : blocks (pos / blockSize) <;> simp [hdiv, hmod, hblock]
  rw [map_congr_left hin]
  unfold readChunk
  cases blocks (pos / blockSize) with
  | none => simp
  | some block => rfl

theorem readLoop_eq (fuel pos remaining : Nat) (hfuel : remaining ≤ fuel) :
    readLoop blocks fuel pos remaining =
      (range remaining).map fun i => blockByte blocks (pos + i) := by
  induction fuel generalizing pos remaining with
  | zero =>
    obtain rfl : remaining = 0 := by omega
    rfl
  | succ fuel ih =>
    rw [readLoop]
    by_cases hzero : remaining = 0
    · simp [hzero]
    have hmod : pos % blockSize < blockSize := Nat.mod_lt _ (by decide)
    obtain ⟨chunk, hchunk⟩ : ∃ c, c = min remaining (blockSize - pos % blockSize) := ⟨_, rfl⟩
    obtain ⟨rest, hrest⟩ : ∃ r, remaining = chunk + r := ⟨remaining - chunk, by omega⟩
    simp only [if_neg hzero, ← hchunk]
    rw [readChunk_eq blocks (by omega), ih (pos + chunk) (remaining - chunk) (by omega),
      hrest, range_add, map_append, map_map, Nat.add_sub_cancel_left]
    simp [Nat.add_assoc, Function.comp_def]

def Vnode.byteAt (node : Vnode) (i : Nat) : UInt8 :=
  if !node.isDynamic && node.data.isSome then node.dataByte i else pageByte node.blocks i

def Vnode.contents (node : Vnode) : SparseBytes where
  size := node.size
  byte := fun i => if i < node.size then node.byteAt i else 0
  zero_past := by
    intro i hi
    rw [if_neg (by omega)]

theorem readNode_eq (node : Vnode) (offset length : UInt64) (h : node.type = .regular) :
    readNode node offset length = some (node.contents.read offset.toNat length.toNat) := by
  unfold readNode SparseBytes.read
  rw [if_neg (by simp [h])]
  by_cases hend : node.size ≤ offset.toNat
  · have hzero : node.size - offset.toNat = 0 := by omega
    simp [hend, Vnode.contents, hzero]
  have hbyte : ∀ i ∈ range (min length.toNat (node.size - offset.toNat)),
      node.contents.byte (offset.toNat + i) = node.byteAt (offset.toNat + i) := by
    intro i hi
    rw [mem_range] at hi
    exact if_pos (by omega)
  rw [if_neg hend, show node.contents.size = node.size from rfl, map_congr_left hbyte]
  by_cases hstatic : (!node.isDynamic && node.data.isSome)
  · simp [Vnode.byteAt, hstatic]
  · simp only [Vnode.byteAt, hstatic, Bool.false_eq_true, if_false, pageByte]
    rw [readLoop_eq _ _ _ _ le_rfl]

/-! ## The content invariant -/

/-- A vnode that can be written: its size is within the limit, no page holds a
byte past the size, and content that is still the boot image has no pages. -/
structure Writable (node : Vnode) : Prop where
  regular : node.type = .regular
  bounded : node.size ≤ fileMaxSize
  clear : node.isDynamic = true → ∀ i, node.size ≤ i → pageByte node.blocks i = 0
  image : node.isDynamic = false →
    node.blocks = noBlocks ∧ ∃ bytes, node.data = some bytes ∧ bytes.length = node.size

theorem contents_of_dynamic (h : Writable node) (hd : node.isDynamic) :
    node.contents.byte = pageByte node.blocks := by
  funext i
  simp only [Vnode.contents, Vnode.byteAt, hd, Bool.not_true, Bool.false_and, Bool.false_eq_true,
    if_false]
  split
  · rfl
  · exact (h.clear hd i (by omega)).symm

def Vnode.withPages (node : Vnode) (blocks : Blocks) (size : Nat) : Vnode :=
  { node with blocks := blocks, size := size }

theorem Writable.withPages (h : Writable node) (hd : node.isDynamic) {blocks : Blocks}
    {size : Nat} (hsize : size ≤ fileMaxSize) (hclear : ∀ i, size ≤ i → pageByte blocks i = 0) :
    Writable (node.withPages blocks size) where
  regular := h.regular
  bounded := hsize
  clear := fun _ => hclear
  image := by
    intro hstatic
    simp [Vnode.withPages, hd] at hstatic

theorem convertToDynamic_dynamic (hd : node.isDynamic) :
    convertToDynamic node pages = (node, pages, true) := if_pos (.inr hd)

theorem convertToDynamic_image (h : Writable node) (pages : Nat) (hd : node.isDynamic = false) :
    convertToDynamic node pages =
      let copied := copyIn node.dataByte 0 node.size noBlocks pages
      if copied.count < node.size then (node, pages, false)
      else
        ({ node with blocks := copied.blocks, data := none, isDynamic := true },
          copied.pages, true) := by
  have hblocks := (h.image hd).1
  unfold convertToDynamic
  rw [if_neg (by simp [h.regular, hd]), if_neg (not_lt.mpr h.bounded), ← hblocks]

theorem pageByte_image {pages : Nat}
    (hall : ¬ (copyIn node.dataByte 0 node.size noBlocks pages).count < node.size) :
    pageByte (copyIn node.dataByte 0 node.size noBlocks pages).blocks =
      fun i => if i < node.size then node.dataByte i else 0 := by
  have hdone := copyIn_done node.dataByte 0 node.size noBlocks pages (by decide)
  have hcount := Nat.le_antisymm (hdone.bounded (Nat.zero_le _)) (Nat.le_of_not_lt hall)
  rw [hdone.bytes, hcount]
  funext i
  simp [SparseBytes.overlay]

theorem convertToDynamic_spec (h : Writable node) (pages : Nat) :
    Writable (convertToDynamic node pages).1 ∧
      (convertToDynamic node pages).1.contents = node.contents ∧
      ((convertToDynamic node pages).2.2 → (convertToDynamic node pages).1.isDynamic) := by
  rcases hd : node.isDynamic with _ | _
  swap
  · rw [convertToDynamic_dynamic pages hd]
    exact ⟨h, rfl, fun _ => hd⟩
  rw [convertToDynamic_image h pages hd]
  dsimp only
  split_ifs with hshort
  · exact ⟨h, rfl, fun hf => by simp at hf⟩
  have hbytes := pageByte_image hshort
  obtain ⟨-, bytes, hdata, -⟩ := h.image hd
  refine ⟨⟨h.regular, h.bounded, ?_, ?_⟩, ?_, fun _ => rfl⟩
  · intro _ i hi
    dsimp only at hi ⊢
    rw [hbytes]
    exact if_neg (by omega)
  · simp
  · apply SparseBytes.ext
    · rfl
    · funext i
      by_cases hi : i < node.size <;>
        simp [Vnode.contents, Vnode.byteAt, hbytes, hd, hdata, hi]

/-! ## Writing -/

/-- The bytes stored by a copy into a dynamic vnode, provided the copy stores a
byte or starts within the file. -/
theorem contents_store (h : Writable node) (hd : node.isDynamic)
    (src : Nat → UInt8) (offset length pages : Nat) (hoffset : offset < 2 ^ 64)
    (hstores : (copyIn src offset length node.blocks pages).count = 0 → offset ≤ node.size) :
    let copied := copyIn src offset length node.blocks pages
    let after := node.withPages copied.blocks (max node.size ((offset + copied.count) % 2 ^ 64))
    Writable after ∧ after.contents = node.contents.store offset copied.count src := by
  have hdone := copyIn_done src offset length node.blocks pages hoffset
  generalize copyIn src offset length node.blocks pages = copied at hdone hstores
  have hfits : copied.count ≠ 0 → offset + copied.count ≤ fileMaxSize :=
    fun hne => hdone.fits (Nat.pos_of_ne_zero hne)
  have hlimit := h.bounded
  have hstop : (offset + copied.count) % 2 ^ 64 = offset + copied.count := by
    apply mod_eq_of_lt
    by_cases hzero : copied.count = 0
    · omega
    · exact lt_of_le_of_lt (hfits hzero) (by decide)
  have hbytes : pageByte copied.blocks =
      SparseBytes.overlay node.contents.byte offset copied.count src := by
    rw [contents_of_dynamic h hd, hdone.bytes]
    simp
  have hwritable : Writable (node.withPages copied.blocks
      (max node.size (offset + copied.count))) := by
    refine h.withPages hd ?_ ?_
    · by_cases hzero : copied.count = 0
      · have := hstores hzero
        omega
      · have := hfits hzero
        omega
    · intro i hi
      rw [hbytes]
      exact (if_neg (by omega)).trans (node.contents.zero_past i (by
        simp only [Vnode.contents]
        omega))
  dsimp only
  rw [hstop]
  refine ⟨hwritable, SparseBytes.ext ?_ ?_⟩
  · simp only [Vnode.contents, Vnode.withPages, SparseBytes.store]
    split
    · rename_i hzero
      omega
    · rfl
  · rw [contents_of_dynamic hwritable hd]
    exact hbytes

/-- The pages `convert_to_dynamic` takes before a write can start. -/
def conversionBlocks (node : Vnode) : Nat := if node.isDynamic then 0 else blocksFor node.size

/-- The writes that leave the size right: the write starts within the file, or
is refused because it starts past the limit, or its first block has a page or
can get one (an image that cannot be converted refuses the write as well). -/
def WriteStores (node : Vnode) (offset length : UInt64) (pages : Nat) : Prop :=
  let index := offset.toNat / blockSize
  offset.toNat ≤ node.size ∨
    (fileMaxSize ≤ offset.toNat ∧ fileMaxSize < (offset + length).toNat) ∨
    (offset.toNat < fileMaxSize ∧ length ≠ 0 ∧
      ((node.blocks index).isSome ∨ index < conversionBlocks node ∨ pages ≠ conversionBlocks node))

theorem clippedLength_pos {offset length : UInt64} {n : Nat} (hoffset : offset.toNat < fileMaxSize)
    (hlength : length ≠ 0) (h : clippedLength offset length = some n) : 0 < n := by
  unfold clippedLength at h
  rw [if_neg (not_le.mpr hoffset)] at h
  split at h
  · cases h
    omega
  · cases h
    exact Nat.pos_of_ne_zero fun hz => hlength (UInt64.toNat_inj.mp hz)

theorem getBlock_converted (h : Writable node) (pages index : Nat) (hindex : index < directBlocks)
      (havailable : (node.blocks index).isSome ∨ index < conversionBlocks node ∨ pages ≠
      conversionBlocks node) (hconverted : (convertToDynamic node pages).2.2) :
    (getBlock (convertToDynamic node pages).1.blocks index
      (convertToDynamic node pages).2.1).isSome := by
  have hget : ∀ (blocks : Blocks) (left : Nat), (blocks index).isSome ∨ left ≠ 0 →
      (getBlock blocks index left).isSome := by
    intro blocks left hor
    unfold getBlock
    rw [if_neg (by omega)]
    cases hb : blocks index with
    | some block => rfl
    | none =>
      have hleft : left ≠ 0 := by simpa [hb] using hor
      simp [hleft]
  rcases hd : node.isDynamic with _ | _
  swap
  · rw [convertToDynamic_dynamic pages hd]
    apply hget
    simpa [conversionBlocks, hd] using havailable
  have himage := convertToDynamic_image h pages hd
  have hfresh := copyIn_fresh node.dataByte pages h.bounded
  rw [himage] at hconverted ⊢
  generalize copyIn node.dataByte 0 node.size noBlocks pages = copied at *
  by_cases hshort : copied.count < node.size
  · simp [hshort] at hconverted
  rw [if_neg hshort]
  have hcount : copied.count = node.size := by
    rcases hfresh.aligned with heq | hlt
    · exact heq
    · omega
  have hpages := hfresh.pages
  rw [hcount] at hpages
  apply hget
  rw [hfresh.present index, hcount]
  simp only [(h.image hd).1, conversionBlocks, hd, noBlocks, Option.isSome_none,
    Bool.false_eq_true, if_false, false_or] at havailable
  simp only [decide_eq_true_eq]
  omega

theorem writeNode_spec (h : Writable node) (offset length : UInt64)
    (src : Nat → UInt8) (pages : Nat) (hstores : WriteStores node offset length pages) :
    Writable (writeNode node offset length src pages).1 ∧
      (writeNode node offset length src pages).1.contents =
        match (writeNode node offset length src pages).2 with
        | none => node.contents
        | some stored => node.contents.store offset.toNat stored src := by
  obtain ⟨hw, hcontents, hdynamic⟩ := convertToDynamic_spec h pages
  have hblock := getBlock_converted h pages (offset.toNat / blockSize)
  have hsize : (convertToDynamic node pages).1.size = node.size :=
    congrArg SparseBytes.size hcontents
  unfold writeNode
  rw [if_neg (by simp [h.regular])]
  generalize convertToDynamic node pages = converted at *
  obtain ⟨node', pages', ok⟩ := converted
  rcases ok with _ | _
  · exact ⟨hw, hcontents⟩
  dsimp only at *
  rcases hclip : clippedLength offset length with _ | n
  · exact ⟨hw, hcontents⟩
  have hrest := contents_store hw (hdynamic rfl) src offset.toNat n pages'
    offset.toNat_lt (by
      intro hzero
      rw [hsize]
      obtain hle | ⟨hpast, hover⟩ | ⟨hin, hlen, havailable⟩ := hstores
      · exact hle
      · unfold clippedLength at hclip
        rw [if_pos hover, if_pos hpast] at hclip
        cases hclip
      have hpos := copyIn_stores src node'.blocks pages' offset.toNat_lt
        (clippedLength_pos hin hlen hclip)
        (hblock (by simp only [fileMaxSize, directBlocks, blockSize] at *; omega)
          havailable rfl)
      omega)
  rw [hcontents] at hrest
  exact hrest

/-! ## Truncation -/

theorem pageByte_discardBlocks (length pos : Nat) : pageByte (discardBlocks blocks length) pos =
      if pos < length then pageByte blocks pos else 0 := by
  unfold pageByte blockByte visibleBlocks discardBlocks
  by_cases hindex : pos / blockSize < directBlocks
  · simp only [hindex, if_true, and_true]
    by_cases hgone : (length + blockSize - 1) / blockSize ≤ pos / blockSize
    · rw [if_pos hgone, if_neg]
      simp only [blockSize] at *
      omega
    rw [if_neg hgone]
    by_cases htail : length % blockSize ≠ 0 ∧ (length + blockSize - 1) / blockSize ≠ 0 ∧
        pos / blockSize = (length + blockSize - 1) / blockSize - 1
    · rw [if_pos htail]
      have hcut : (length % blockSize ≤ pos % blockSize ∧ pos % blockSize < blockSize) ↔
          ¬ pos < length := by
        simp only [blockSize] at *
        omega
      cases blocks (pos / blockSize) with
      | none => simp
      | some block => simp only [Option.map_some, hcut, ite_not]
    · rw [if_neg htail, if_pos]
      simp only [blockSize] at *
      omega
  · simp [hindex]

theorem truncateNode_spec (h : Writable node) (length : UInt64) (pages : Nat) :
    Writable (truncateNode node length pages).1 ∧
      (truncateNode node length pages).1.contents =
        if (truncateNode node length pages).2 then node.contents.resize length.toNat
        else node.contents := by
  obtain ⟨hw, hcontents, hdynamic⟩ := convertToDynamic_spec h pages
  unfold truncateNode
  by_cases hlimit : fileMaxSize < length.toNat
  · rw [if_pos hlimit]
    exact ⟨h, rfl⟩
  rw [if_neg hlimit, if_neg (by simp [h.regular])]
  by_cases hsame : length.toNat = node.size
  · rw [if_pos hsame]
    refine ⟨h, ?_⟩
    rw [if_pos rfl, hsame]
    exact node.contents.resize_size.symm
  rw [if_neg hsame]
  generalize convertToDynamic node pages = converted at *
  obtain ⟨node', pages', ok⟩ := converted
  rcases ok with _ | _
  · exact ⟨hw, hcontents⟩
  have hd := hdynamic rfl
  dsimp only at hw hcontents hd ⊢
  have hbytes : ∀ i, pageByte
      (if length.toNat < node'.size then discardBlocks node'.blocks length.toNat
        else node'.blocks) i = if i < length.toNat then pageByte node'.blocks i else 0 := by
    intro i
    split
    · exact pageByte_discardBlocks node'.blocks length.toNat i
    split
    · rfl
    · exact hw.clear hd i (by omega)
  have hcut : Writable (node'.withPages (if length.toNat < node'.size then
      discardBlocks node'.blocks length.toNat else node'.blocks) length.toNat) := by
    refine hw.withPages hd (Nat.le_of_not_lt hlimit) ?_
    intro i hi
    rw [hbytes i, if_neg (by omega)]
  refine ⟨hcut, SparseBytes.ext rfl ?_⟩
  have hall := contents_of_dynamic hcut hd
  simp only [Vnode.withPages] at hall
  rw [if_pos rfl, hall, ← hcontents]
  funext i
  rw [hbytes i, ← contents_of_dynamic hw hd]
  rfl

theorem openTruncate_spec (h : Writable node) :
    Writable (openTruncate node) ∧ (openTruncate node).contents = node.contents.resize 0 := by
  refine ⟨⟨h.regular, zero_le _, ?_, ?_⟩, SparseBytes.ext rfl ?_⟩
  · intro _ i _
    exact pageByte_noBlocks i
  · intro hstatic
    cases hstatic
  · funext i
    simp [Vnode.contents, openTruncate, SparseBytes.resize]

/-! ## Refinement over whole histories -/

/-- The operations that change the content of one vnode.  `pages` is what the
allocator can hand out while the operation runs. -/
inductive FileOp where
  | write (offset length : UInt64) (src : Nat → UInt8) (pages : Nat)
  | truncate (length : UInt64) (pages : Nat)
  | openTruncate

def FileOp.apply (node : Vnode) : FileOp → Vnode
  | .write offset length src pages => (writeNode node offset length src pages).1
  | .truncate length pages => (truncateNode node length pages).1
  | .openTruncate => Vfs.openTruncate node

/-- What the call did to the ideal array, read off the result it reported. -/
def FileOp.answer (node : Vnode) (op : FileOp) (file : SparseBytes) : SparseBytes :=
  match op with
  | .write offset length src pages =>
      match (writeNode node offset length src pages).2 with
      | none => file
      | some stored => file.store offset.toNat stored src
  | .truncate length pages =>
      if (truncateNode node length pages).2 then file.resize length.toNat else file
  | .openTruncate => file.resize 0

def FileOp.Sound (node : Vnode) : FileOp → Prop
  | .write offset length _ pages => WriteStores node offset length pages
  | .truncate _ _ | .openTruncate => True

theorem FileOp.apply_refines (node : Vnode) (op : FileOp) (file : SparseBytes)
    (h : Writable node ∧ node.contents = file) (hsound : op.Sound node) :
    Writable (op.apply node) ∧ (op.apply node).contents = op.answer node file := by
  obtain ⟨hw, rfl⟩ := h
  cases op with
  | write offset length src pages => exact writeNode_spec hw offset length src pages hsound
  | truncate length pages => exact truncateNode_spec hw length pages
  | openTruncate => exact openTruncate_spec hw

/-- Along every history of sound operations, reads see exactly the ideal sparse
array that stored what the calls reported, sizes agree, and the limit holds. -/
theorem content_refinement (node : Vnode) (ops : List FileOp) (hw : Writable node)
    (hsound : Guarded FileOp.apply (fun n op => op.Sound n) node ops) :
    let final := run FileOp.apply node ops
    let file := shadow FileOp.apply FileOp.answer node node.contents ops
    (∀ offset length, readNode final offset length = some (file.read offset.toNat length.toNat)) ∧
      final.size = file.size ∧ final.size ≤ fileMaxSize := by
  obtain ⟨hfinal, hcontents⟩ := hsound.simulation
    (fun n file => Writable n ∧ n.contents = file) FileOp.apply_refines ⟨hw, rfl⟩
  rw [← hcontents]
  exact ⟨fun offset length => readNode_eq _ offset length hfinal.regular, rfl, hfinal.bounded⟩

def newFile : Vnode where
  type := .regular
  parent := 0
  name := [97]
  data := none
  size := 0
  mode := 0o644
  uid := 0
  gid := 0
  isDynamic := true
  references := 1
  unlinked := false
  blocks := noBlocks

theorem writable_newFile : Writable newFile where
  regular := rfl
  bounded := zero_le _
  clear := fun _ i _ => pageByte_noBlocks i
  image := fun h => by cases h

/-- One byte is stored, the file is extended over a hole, and a read crosses it. -/
theorem content_refinement_newFile :
    let final := run FileOp.apply newFile
      [.write 0 1 (fun _ => 7) 1, .truncate 5 0]
    let file := shadow FileOp.apply FileOp.answer newFile newFile.contents
      [.write 0 1 (fun _ => 7) 1, .truncate 5 0]
    Writable newFile ∧
      (∀ offset length, readNode final offset length = some (file.read offset.toNat length.toNat)) ∧
      final.size = file.size ∧ final.size ≤ fileMaxSize :=
  ⟨writable_newFile, content_refinement newFile _ writable_newFile
    ⟨.inl (by decide), trivial, trivial⟩⟩

/-- With no page left, a one-byte write at 4096 stores nothing and reports zero
bytes, and the empty file is 4096 bytes long afterwards. -/
theorem write_without_page_grows_file :
    let op : FileOp := .write 4096 1 (fun _ => 7) 0
    Writable newFile ∧ (writeNode newFile 4096 1 (fun _ => 7) 0).2 = some 0 ∧
      (op.answer newFile newFile.contents).size = 0 ∧ (op.apply newFile).size = 4096 := by
  refine ⟨writable_newFile, ?_, ?_, ?_⟩ <;> decide

end XsCore.Vfs
