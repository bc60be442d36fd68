import Mathlib.Data.Nat.Bitwise

/-! # Prefix codes in a table of numbered nodes

A binary tree of code words can be kept in one table: node `n` has the two entries `2n + 1` and
`2n + 2`, a negative entry is the number of the node below, and any other entry is a symbol.  An
entry that was never set is zero, and so is the entry of the symbol zero.

Whether the words of a code lead to their symbols is decided by evaluation: `Packed` keeps a table
in one number, and `Packed.insertAll_sound` says that it follows the table entry by entry.
-/

namespace CodeTable

open Function

variable {i value size : Nat}

structure Table where
  entry : Nat → Int
  nodes : Nat

def child (node : Nat) (b : Bool) : Nat := node * 2 + 1 + b.toNat

def empty : Table := ⟨fun _ => 0, 2⟩

def set (t : Table) (i : Nat) (symbol : Nat) : Table :=
  { t with entry := update t.entry i symbol }

def allocate (t : Table) (i : Nat) : Table :=
  ⟨update t.entry i (-(t.nodes : Int)), t.nodes + 1⟩

/-- Adds a word below a node of a table with `size` entries.  A word that does not fit is given up
where it leaves the table; there is no result if the word runs through a symbol. -/
def insert (size symbol : Nat) : List Bool → Nat → Table → Option Table
  | [], _, t => some t
  | b :: word, node, t =>
    if size ≤ child node b then some t
    else if word = [] then some (set t (child node b) symbol)
    else if t.entry (child node b) = 0 then
      insert size symbol word t.nodes (allocate t (child node b))
    else if 0 < t.entry (child node b) then none
    else insert size symbol word (-t.entry (child node b)).toNat t

def insertAll (size : Nat) : List (List Bool × Nat) → Table → Option Table
  | [], t => some t
  | (word, symbol) :: code, t => (insert size symbol word 0 t).bind (insertAll size code)

def leads (size : Nat) (t : Table) (symbol : Nat) : Nat → List Bool → Bool
  | _, [] => false
  | node, b :: word =>
    decide (child node b < size) &&
      if word = [] then t.entry (child node b) == symbol
      else decide (t.entry (child node b) < 0) &&
        leads size t symbol (-t.entry (child node b)).toNat word

/-! ## Tables in one number -/

/-- Sixteen bits an entry: a symbol, or from `2 ^ 15` on a node. -/
structure Packed where
  bits : Nat
  nodes : Nat

variable {p p' : Packed}

namespace Packed

def field (p : Packed) (i : Nat) : Nat := p.bits >>> (16 * i) % 2 ^ 16

def entry (p : Packed) (i : Nat) : Int :=
  if p.field i < 2 ^ 15 then p.field i else -((p.field i - 2 ^ 15 : Nat) : Int)

def toTable (p : Packed) : Table := ⟨p.entry, p.nodes⟩

def put (p : Packed) (i value nodes : Nat) : Packed := ⟨p.bits ||| value <<< (16 * i), nodes⟩

/-- `CodeTable.insert` for a word that is new; no result stands for any other case. -/
def insert (size symbol : Nat) : List Bool → Nat → Packed → Option Packed
  | [], _, _ => none
  | b :: word, node, p =>
    if size ≤ child node b then none
    else if word = [] then
      if p.field (child node b) = 0 ∧ symbol < 2 ^ 15 then some (p.put (child node b) symbol p.nodes)
      else none
    else if p.field (child node b) = 0 then
      if p.nodes < 2 ^ 15 then
        insert size symbol word p.nodes (p.put (child node b) (2 ^ 15 + p.nodes) (p.nodes + 1))
      else none
    else if p.field (child node b) ≤ 2 ^ 15 then none
    else insert size symbol word (p.field (child node b) - 2 ^ 15) p

def insertAll (size : Nat) : List (List Bool × Nat) → Packed → Option Packed
  | [], p => some p
  | (word, symbol) :: code, p => (insert size symbol word 0 p).bind (insertAll size code)

theorem testBit_field (p : Packed) (i k : Nat) :
    (p.field i).testBit k = (decide (k < 16) && p.bits.testBit (16 * i + k)) := by
  rw [field, Nat.testBit_mod_two_pow, Nat.testBit_shiftRight]

theorem field_put (nodes : Nat) (hzero : p.field i = 0) (hvalue : value < 2 ^ 16) (j : Nat) :
    (p.put i value nodes).field j = if j = i then value else p.field j := by
  have hhigh : ∀ k, 16 ≤ k → value.testBit k = false := fun k hk =>
    Nat.testBit_lt_two_pow (hvalue.trans_le (Nat.pow_le_pow_right (by decide) hk))
  apply Nat.eq_of_testBit_eq
  intro k
  rw [testBit_field, put, Nat.testBit_or, Nat.testBit_shiftLeft]
  by_cases hk : k < 16
  · by_cases hji : j = i
    · have hfree := testBit_field p i k
      rw [hzero, Nat.zero_testBit] at hfree
      simp_all
    rw [if_neg hji, testBit_field]
    by_cases hle : 16 * i ≤ 16 * j + k
    · simp [hhigh (16 * j + k - 16 * i) (by omega)]
    · simp [hle]
  · by_cases hji : j = i <;> simp [hji, hk, hhigh k (by omega), testBit_field]

theorem entry_put (nodes : Nat) (hzero : p.field i = 0) (hvalue : value < 2 ^ 16) :
    (p.put i value nodes).entry =
      update p.entry i (if value < 2 ^ 15 then value else -((value - 2 ^ 15 : Nat) : Int)) := by
  funext j
  rw [entry, field_put nodes hzero hvalue, update_apply, entry]
  split_ifs <;> rfl

theorem insert_sound {symbol : Nat} {word : List Bool} {node : Nat}
    (h : p.insert size symbol word node = some p') :
    CodeTable.insert size symbol word node p.toTable = some p'.toTable := by
  induction word generalizing node p with
  | nil => cases h
  | cons b word ih =>
    rw [insert] at h
    rw [CodeTable.insert]
    split_ifs at h with hroom hlast hset hzero hnodes hsymbol
    · have hput := entry_put p.nodes hset.1 (show symbol < 2 ^ 16 by omega)
      rw [if_pos hset.2] at hput
      rw [if_neg hroom, if_pos hlast, CodeTable.set, ← Option.some.inj h]
      exact congrArg (fun entry => some (Table.mk entry p.nodes)) hput.symm
    · have hput := entry_put (p.nodes + 1) hzero (show 2 ^ 15 + p.nodes < 2 ^ 16 by omega)
      rw [if_neg (by omega), Nat.add_sub_cancel_left] at hput
      have hentry : p.toTable.entry (child node b) = 0 := by simp [toTable, entry, hzero]
      have hallocate : allocate p.toTable (child node b) =
          (p.put (child node b) (2 ^ 15 + p.nodes) (p.nodes + 1)).toTable :=
        congrArg (fun entry => Table.mk entry (p.nodes + 1)) hput.symm
      rw [if_neg hroom, if_neg hlast, if_pos hentry, hallocate]
      exact ih h
    · have hentry : p.toTable.entry (child node b) =
          -((p.field (child node b) - 2 ^ 15 : Nat) : Int) := if_neg (by omega)
      rw [if_neg hroom, if_neg hlast, hentry, if_neg (by omega), if_neg (by omega), Int.neg_neg,
        Int.toNat_natCast]
      exact ih h

theorem insertAll_sound {code : List (List Bool × Nat)} (h : p.insertAll size code = some p') :
    CodeTable.insertAll size code p.toTable = some p'.toTable := by
  induction code generalizing p with
  | nil => exact congrArg (Option.map toTable) h
  | cons entry code ih =>
    obtain ⟨q, hfirst, hrest⟩ := Option.bind_eq_some_iff.mp h
    rw [CodeTable.insertAll, insert_sound hfirst]
    exact ih hrest

theorem toTable_empty : toTable ⟨0, 2⟩ = CodeTable.empty := by
  have hentry : entry ⟨0, 2⟩ = fun _ => 0 := by
    funext i
    simp [entry, field]
  exact congrArg (fun entry => Table.mk entry 2) hentry

end Packed

end CodeTable
