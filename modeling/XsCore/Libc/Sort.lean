import XsCore.Foundation.Bisection
import XsCore.Foundation.HeapSort
import XsCore.Libc.Heap

/-! # Sorting and searching arrays

`qsort` and `bsearch` of `userspace/libc/src/stdlib.c`.  Both see an array as bytes: an element is
addressed by its number times the element size, and two elements are exchanged byte by byte.
-/

namespace XsCore.Libc

open Function

variable (a : ArrayObject)
variable {i j count : Nat}

abbrev Blob (size : Nat) := Fin size → UInt8

abbrev Compare (size : Nat) := Blob size → Blob size → Int

abbrev ArrayBytes := Nat → UInt8

def element (size : Nat) (bytes : ArrayBytes) (i : Nat) : Blob size :=
  fun k => bytes (i * size + k)

/-! ## The code -/

def swapBytes (left right : Nat) : Nat → Nat → ArrayBytes → ArrayBytes
  | 0, _, bytes => bytes
  | n + 1, offset, bytes =>
    let temporary := bytes (left + offset)
    let bytes := update bytes (left + offset) (bytes (right + offset))
    swapBytes left right n (offset + 1) (update bytes (right + offset) temporary)

def swapElements (bytes : ArrayBytes) (left right size : Nat) : ArrayBytes :=
  swapBytes left right size 0 bytes

section Code

variable {size : Nat} (compare : Compare size)

def siftChild (bytes : ArrayBytes) (root count : Nat) : Nat :=
  let child := root * 2 + 1
  if child + 1 < count ∧ compare (element size bytes child) (element size bytes (child + 1)) < 0
  then child + 1 else child

/-- `sift_down`; the root moves down in every round, so `count` rounds are enough. -/
def siftDown : Nat → ArrayBytes → Nat → Nat → ArrayBytes
  | 0, bytes, _, _ => bytes
  | fuel + 1, bytes, root, count =>
    if root < count / 2 then
      let child := siftChild compare bytes root count
      if 0 ≤ compare (element size bytes root) (element size bytes child) then bytes
      else siftDown fuel (swapElements bytes (root * size) (child * size) size) child count
    else bytes

def heapLoop (count : Nat) : Nat → ArrayBytes → ArrayBytes
  | 0, bytes => bytes
  | start + 1, bytes => heapLoop count start (siftDown compare count bytes start count)

def drainLoop : Nat → ArrayBytes → ArrayBytes
  | 0, bytes => bytes
  | 1, bytes => bytes
  | stop + 2, bytes =>
    drainLoop (stop + 1)
      (siftDown compare (stop + 1) (swapElements bytes 0 ((stop + 1) * size) size) 0 (stop + 1))

def qsort (bytes : ArrayBytes) (elementCount : Nat) : ArrayBytes :=
  if size = 0 ∨ elementCount < 2 ∨ sizeMax / size < elementCount then bytes
  else drainLoop compare elementCount (heapLoop compare elementCount (elementCount / 2) bytes)

/-- The loop of `bsearch`; it halves the range, so `count` rounds are enough. -/
def searchLoop (key : Blob size) (bytes : ArrayBytes) : Nat → Nat → Nat → Option Nat
  | 0, _, _ => none
  | fuel + 1, first, count =>
    if count = 0 then none
    else
      let step := count / 2
      let index := first + step
      let order := compare key (element size bytes index)
      if order = 0 then some index
      else if 0 < order then searchLoop key bytes fuel (index + 1) (count - (step + 1))
      else searchLoop key bytes fuel first step

/-- `bsearch` in an array and with a key and a comparison that are not null; the element it returns
is given by its number. -/
def bsearch (key : Blob size) (bytes : ArrayBytes) (elementCount : Nat) : Option Nat :=
  if size = 0 ∨ sizeMax / size < elementCount then none
  else searchLoop compare key bytes elementCount 0 elementCount

end Code

/-! ## Arrays of the language -/

/-- An array object: its elements have at least one byte each, and its size is a `size_t`. -/
structure ArrayObject where
  size : Nat
  count : Nat
  bytes : ArrayBytes
  size_pos : 0 < size
  fits : count * size ≤ sizeMax

open ArrayObject

def ArrayObject.elements (a : ArrayObject) (bytes : ArrayBytes) : List (Blob a.size) :=
  (List.range a.count).map (element a.size bytes)

def ArrayObject.sorted (a : ArrayObject) (compare : Compare a.size) : ArrayBytes :=
  qsort compare a.bytes a.count

/-- A comparison function that is a total preorder: its sign turns around with its arguments, and
not being greater is transitive. -/
structure TotalPreorder {size : Nat} (compare : Compare size) : Prop where
  turns : ∀ x y, compare x y < 0 ↔ 0 < compare y x
  trans : ∀ x y z, compare x y ≤ 0 → compare y z ≤ 0 → compare x z ≤ 0

/-! ## Bytes and elements -/

variable {size : Nat} {compare : Compare size} {bytes : ArrayBytes}

theorem swapBytes_apply (left right n offset : Nat) (bytes : ArrayBytes)
    (hapart : left + offset + n ≤ right + offset ∨ right + offset + n ≤ left + offset) (k : Nat) :
    swapBytes left right n offset bytes k =
      if left + offset ≤ k ∧ k < left + offset + n then bytes (right + (k - left))
      else if right + offset ≤ k ∧ k < right + offset + n then bytes (left + (k - right))
      else bytes k := by
  induction n generalizing offset bytes with
  | zero =>
    rw [swapBytes, if_neg (by omega), if_neg (by omega)]
  | succ n ih =>
    rw [swapBytes, ih (offset + 1) _ (by omega)]
    by_cases hl : k = left + offset
    · subst hl
      rw [if_neg (by omega), if_neg (by omega), if_pos (by omega), update_of_ne (by omega),
        update_self, Nat.add_sub_cancel_left left offset]
    by_cases hr : k = right + offset
    · subst hr
      rw [if_neg (by omega), if_neg (by omega), if_neg (by omega), if_pos (by omega),
        update_self, Nat.add_sub_cancel_left right offset]
    by_cases hin : left + offset ≤ k ∧ k < left + offset + (n + 1)
    · rw [if_pos (by omega), if_pos hin, update_of_ne (by omega), update_of_ne (by omega)]
    rw [if_neg (by omega), if_neg hin]
    by_cases hin' : right + offset ≤ k ∧ k < right + offset + (n + 1)
    · rw [if_pos (by omega), if_pos hin', update_of_ne (by omega), update_of_ne (by omega)]
    · rw [if_neg (by omega), if_neg hin', update_of_ne (by omega), update_of_ne (by omega)]

theorem elements_apart (size : Nat) (h : i < j) : i * size + size ≤ j * size := by
  have hmul := Nat.mul_le_mul_right size h
  rw [Nat.succ_mul] at hmul
  exact hmul

theorem element_swapElements (size : Nat) (bytes : ArrayBytes) (h : i ≠ j) :
    element size (swapElements bytes (i * size) (j * size) size) =
      HeapSort.swap (element size bytes) i j := by
  have hapart : i * size + 0 + size ≤ j * size + 0 ∨ j * size + 0 + size ≤ i * size + 0 := by
    rcases Nat.lt_or_gt_of_ne h with hlt | hlt
    · exact .inl (elements_apart size hlt)
    · exact .inr (elements_apart size hlt)
  funext n
  funext k
  have hk := k.isLt
  show swapBytes (i * size) (j * size) size 0 bytes (n * size + k) = _
  rw [swapBytes_apply _ _ _ _ _ hapart]
  by_cases hi : n = i
  · subst hi
    rw [if_pos (by omega), HeapSort.swap_left, Nat.add_sub_cancel_left]
    rfl
  by_cases hj : n = j
  · subst hj
    rw [if_neg (by omega), if_pos (by omega), HeapSort.swap_right, Nat.add_sub_cancel_left]
    rfl
  have hout : ∀ m, n ≠ m → ¬ (m * size ≤ n * size + k ∧ n * size + k < m * size + size) := by
    intro m hm
    rcases Nat.lt_or_gt_of_ne hm with hlt | hlt
    all_goals
      have := elements_apart size hlt
      omega
  have hi' := hout i hi
  have hj' := hout j hj
  rw [if_neg (by omega), if_neg (by omega), HeapSort.swap_other _ hi hj]
  rfl

def lessThan (compare : Compare size) (x y : Blob size) : Bool := decide (compare x y < 0)

theorem element_siftChild (compare : Compare size) (bytes : ArrayBytes) (root count : Nat) :
    siftChild compare bytes root count =
      HeapSort.largerChild (lessThan compare) (element size bytes) root count := by
  unfold siftChild HeapSort.largerChild lessThan
  simp

theorem element_siftDown (fuel root count : Nat) (bytes : ArrayBytes) :
    element size (siftDown compare fuel bytes root count) =
      HeapSort.siftDown (lessThan compare) fuel (element size bytes) root count := by
  induction fuel generalizing root bytes with
  | zero => rfl
  | succ fuel ih =>
    rw [siftDown, HeapSort.siftDown]
    by_cases hroot : root < count / 2
    · rw [if_pos hroot, if_pos hroot, ← element_siftChild]
      by_cases hless : compare (element size bytes root)
          (element size bytes (siftChild compare bytes root count)) < 0
      · have hne : root ≠ siftChild compare bytes root count := by
          rw [element_siftChild]
          rcases HeapSort.largerChild_isChild (lessThan compare) (element size bytes) root
            count with hc | hc
          all_goals omega
        have htest : lessThan compare (element size bytes root)
            (element size bytes (siftChild compare bytes root count)) :=
          decide_eq_true hless
        rw [if_neg (by omega), if_pos htest, ih, element_swapElements size bytes hne]
      · rw [if_pos (by omega), if_neg (by simpa [lessThan] using hless)]
    · rw [if_neg hroot, if_neg hroot]

theorem element_heapLoop (count start : Nat) (bytes : ArrayBytes) :
    element size (heapLoop compare count start bytes) =
      HeapSort.build (lessThan compare) count start (element size bytes) := by
  induction start generalizing bytes with
  | zero => rfl
  | succ start ih => rw [heapLoop, HeapSort.build, ih, element_siftDown]

theorem element_drainLoop (stop : Nat) (bytes : ArrayBytes) :
    element size (drainLoop compare stop bytes) =
      HeapSort.drain (lessThan compare) stop (element size bytes) := by
  induction stop using Nat.strongRecOn generalizing bytes with
  | ind stop ih =>
    match stop, ih with
    | 0, _ => rfl
    | 1, _ => rfl
    | stop + 2, ih =>
      have hswap := element_swapElements size bytes (Nat.succ_ne_zero stop).symm
      rw [Nat.zero_mul] at hswap
      rw [drainLoop, HeapSort.drain, ih (stop + 1) (Nat.lt_succ_self _), element_siftDown, hswap]

theorem element_qsort (hsize : 0 < size) (hfits : count * size ≤ sizeMax) (bytes : ArrayBytes) :
    element size (qsort compare bytes count) =
      HeapSort.sort (lessThan compare) count (element size bytes) := by
  have hlimit : count ≤ sizeMax / size := (Nat.le_div_iff_mul_le hsize).mpr hfits
  unfold qsort HeapSort.sort
  by_cases hshort : count < 2
  · rw [if_pos (.inr (.inl hshort))]
    -- There is nothing to do for one element, and the loops do nothing.
    have hcases : count = 0 ∨ count = 1 := by omega
    rcases hcases with rfl | rfl <;> rfl
  · rw [if_neg (by omega), element_drainLoop, element_heapLoop]

theorem searchLoop_eq (key : Blob size) (bytes : ArrayBytes) (fuel first count : Nat) :
    searchLoop compare key bytes fuel first count =
      Bisection.search (fun i => compare key (element size bytes i)) fuel first count := by
  induction fuel generalizing first count with
  | zero => rfl
  | succ fuel ih =>
    rw [searchLoop, Bisection.search]
    simp only [ih]

theorem bsearch_eq (hsize : 0 < size) (hfits : count * size ≤ sizeMax)
    (key : Blob size) (bytes : ArrayBytes) : bsearch compare key bytes count =
      Bisection.search (fun i => compare key (element size bytes i)) count 0 count := by
  have hlimit : count ≤ sizeMax / size := (Nat.le_div_iff_mul_le hsize).mpr hfits
  rw [bsearch, if_neg (by omega), searchLoop_eq]

/-! ## What they do -/

theorem TotalPreorder.not_less (h : TotalPreorder compare) (x y : Blob size) :
    lessThan compare x y = false ↔ compare y x ≤ 0 := by
  rw [lessThan, decide_eq_false_iff_not, h.turns, Int.not_lt]

theorem TotalPreorder.strictWeak (h : TotalPreorder compare) :
    HeapSort.StrictWeak (lessThan compare) where
  asymm x y hless := by
    rw [h.not_less]
    exact Int.le_of_lt (of_decide_eq_true hless)
  trans x y z hxy hyz := by
    rw [h.not_less] at hxy hyz ⊢
    exact h.trans z y x hyz hxy

theorem ArrayObject.sorted_perm (compare : Compare a.size) :
    (a.elements (a.sorted compare)).Perm (a.elements a.bytes) := by
  unfold elements sorted
  rw [element_qsort a.size_pos a.fits]
  exact (HeapSort.sort_rearranges a.count _).perm le_rfl

theorem ArrayObject.sorted_le {compare : Compare a.size}
    (h : TotalPreorder compare) (hij : i ≤ j) (hj : j < a.count) :
    compare (element a.size (a.sorted compare) i) (element a.size (a.sorted compare) j) ≤ 0 := by
  rw [← h.not_less, sorted, element_qsort a.size_pos a.fits]
  rcases Nat.eq_or_lt_of_le hij with rfl | hlt
  · exact h.strictWeak.irrefl _
  · exact HeapSort.sort_sorted h.strictWeak a.count _ hlt hj

theorem ArrayObject.mem_elements {a : ArrayObject} {bytes : ArrayBytes} {e : Blob a.size} :
    e ∈ a.elements bytes ↔ ∃ i < a.count, element a.size bytes i = e := by
  simp [elements]

theorem ArrayObject.sorted_falls {compare : Compare a.size}
    (h : TotalPreorder compare) (key : Blob a.size) (hij : i ≤ j) (hj : j < a.count) :
    (0 ≤ compare key (element a.size (a.sorted compare) j) →
      0 ≤ compare key (element a.size (a.sorted compare) i)) ∧
    (compare key (element a.size (a.sorted compare) i) ≤ 0 →
      compare key (element a.size (a.sorted compare) j) ≤ 0) := by
  have hle := a.sorted_le h hij hj
  have hturn : ∀ x y : Blob a.size, 0 ≤ compare x y ↔ compare y x ≤ 0 := by
    intro x y
    have := h.turns x y
    omega
  constructor
  · intro hpos
    rw [hturn] at hpos ⊢
    exact h.trans _ _ _ hle hpos
  · intro hneg
    exact h.trans _ _ _ hneg hle

/-- Sorting leaves the same elements in order, and a search among them finds an element that is
equal to the key exactly when there is one. -/
theorem qsort_bsearch (a : ArrayObject) (compare : Compare a.size) (h : TotalPreorder compare) :
    (a.elements (a.sorted compare)).Perm (a.elements a.bytes) ∧
    (a.elements (a.sorted compare)).Pairwise (fun x y => compare x y ≤ 0) ∧
    ∀ key : Blob a.size,
      (∀ i, bsearch compare key (a.sorted compare) a.count = some i →
        i < a.count ∧ compare key (element a.size (a.sorted compare) i) = 0) ∧
      ((bsearch compare key (a.sorted compare) a.count).isSome = true ↔
        ∃ e ∈ a.elements a.bytes, compare key e = 0) := by
  refine ⟨a.sorted_perm compare, ?_, fun key => ?_⟩
  · rw [elements, List.pairwise_map]
    refine List.Pairwise.imp_of_mem ?_ (List.pairwise_lt_range (n := a.count))
    intro i j _ hj hij
    exact a.sorted_le h hij.le (List.mem_range.mp hj)
  · have hfound : ∀ i, bsearch compare key (a.sorted compare) a.count = some i →
        i < a.count ∧ compare key (element a.size (a.sorted compare) i) = 0 := by
      intro i hi
      rw [bsearch_eq a.size_pos a.fits] at hi
      have hspec := Bisection.search_some hi
      exact ⟨by omega, hspec.2⟩
    refine ⟨hfound, ?_, ?_⟩
    · intro hsome
      obtain ⟨i, hi⟩ := Option.isSome_iff_exists.mp hsome
      have hspec := hfound i hi
      refine ⟨_, (a.sorted_perm compare).mem_iff.mp ?_, hspec.2⟩
      exact mem_elements.mpr ⟨i, hspec.1, rfl⟩
    · rintro ⟨e, he, hzero⟩
      obtain ⟨k, hk, rfl⟩ := mem_elements.mp ((a.sorted_perm compare).mem_iff.mpr he)
      rw [bsearch_eq a.size_pos a.fits]
      apply Bisection.search_isSome le_rfl _ ⟨Nat.zero_le k, by rwa [Nat.zero_add]⟩ hzero
      intro i j _ hij hj
      exact a.sorted_falls h key hij (by omega)

def threePairs : ArrayObject where
  size := 2
  count := 3
  bytes k := [3, 7, 2, 8, 1, 9].getD k 0
  size_pos := Nat.two_pos
  fits := by decide

def compareFirst : Compare threePairs.size := fun x y =>
  ((x ⟨0, Nat.two_pos⟩).toNat : Int) - (y ⟨0, Nat.two_pos⟩).toNat

theorem compareFirst_preorder : TotalPreorder compareFirst where
  turns x y := by
    unfold compareFirst
    omega
  trans x y z := by
    unfold compareFirst
    omega

theorem qsort_bsearch_threePairs : TotalPreorder compareFirst ∧
    (threePairs.elements (threePairs.sorted compareFirst)).Perm
      (threePairs.elements threePairs.bytes) :=
  ⟨compareFirst_preorder, (qsort_bsearch threePairs compareFirst compareFirst_preorder).1⟩

end XsCore.Libc
