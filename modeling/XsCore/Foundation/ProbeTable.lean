import Mathlib.Data.Fintype.Card
import Mathlib.Data.Nat.ModEq

/-! # Counting tables with linear probing

A table of counters keyed by linear probing.  A counter that falls to zero keeps its key, so that
probe chains stay intact, and its entry may be taken over by another key.  Entries that were never
used end a probe.  As long as one such entry remains, the table is a total map from keys to counts
(`value`), and taking over an entry does not change that map.
-/

namespace ProbeTable

open Function Option

variable {K : Type}
variable {d i : Nat} {k : K}

/-- One counter; `none` marks an entry that was never used. -/
structure Entry (K : Type) where
  key : Option K
  count : Nat

inductive Outcome where
  /-- The key's own entry. -/
  | found (index : Nat)
  /-- The key has no entry; this one may be taken over. -/
  | vacant (index : Nat)
  /-- Every entry was seen: none is the key's own, none was never used. -/
  | full (reusable : Option Nat)

section Search

variable [DecidableEq K] (entries : Nat → Entry K) (size start : Nat) (key : K)

/-- Probe the entries from distance `step` on; `reusable` is the first zero counter seen so far. -/
def search : Nat → Nat → Option Nat → Outcome
  | 0, _, reusable => .full reusable
  | fuel + 1, step, reusable =>
    let index := (start + step) % size
    if (entries index).key = some key then .found index
    else
      let reusable := if reusable = none ∧ (entries index).count = 0 then some index else reusable
      match (entries index).key with
      | none => .vacant (reusable.getD index)
      | some _ => search fuel (step + 1) reusable

end Search

/-- Distance `d` on the chain of `start` is reached without passing an unused entry. -/
def Reaches (entries : Nat → Entry K) (size start d : Nat) : Prop :=
  ∀ d' < d, (entries ((start + d') % size)).key ≠ none

/-- The shape of a table in use: keys are unique and every key can be reached on its own chain. -/
structure Probed (entries : Nat → Entry K) (size : Nat) (hash : K → Nat) : Prop where
  unique : ∀ i j k, i < size → j < size → (entries i).key = some k → (entries j).key = some k → i = j
  reach : ∀ i k, i < size → (entries i).key = some k →
    ∃ d < size, (hash k + d) % size = i ∧ Reaches entries size (hash k) d
  unused_zero : ∀ i, (entries i).key = none → (entries i).count = 0

theorem chain_injective {size start d' : Nat} (hd : d < size) (hd' : d' < size)
    (h : (start + d) % size = (start + d') % size) : d = d' := by
  have hmod : d % size = d' % size := Nat.ModEq.add_left_cancel' start h
  rwa [Nat.mod_eq_of_lt hd, Nat.mod_eq_of_lt hd'] at hmod

section Lookup

variable [DecidableEq K] {entries : Nat → Entry K} {size : Nat} {hash : K → Nat}

/-- What is known of the entry a search may take over. -/
def Takeable (entries : Nat → Entry K) (size start index : Nat) : Prop :=
  (entries index).count = 0 ∧ ∃ d < size, (start + d) % size = index ∧ Reaches entries size start d

/-- A search goes past entries of other keys, and may come to know one it can take over. -/
theorem search_pass {start : Nat} (hd : d < size) (hreach : Reaches entries size start d)
    (hother : ∀ step < d, (entries ((start + step) % size)).key ≠ some k) (rest step : Nat)
    (reusable : Option Nat) (hstep : step + rest = d)
    (hreusable : ∀ i, reusable = some i → Takeable entries size start i) :
    ∃ fuel reusable', search entries size start k (size - step) step reusable =
      search entries size start k (fuel + 1) d reusable' ∧
      ∀ i, reusable' = some i → Takeable entries size start i := by
  obtain ⟨fuel, hfuel⟩ : ∃ fuel, size - step = fuel + 1 := ⟨size - step - 1, by omega⟩
  induction rest generalizing step reusable fuel with
  | zero =>
    obtain rfl : step = d := by omega
    exact ⟨fuel, reusable, by rw [hfuel], hreusable⟩
  | succ rest ih =>
    rw [hfuel, search, if_neg (hother step (by omega))]
    rcases hentry : (entries ((start + step) % size)).key with _ | k'
    · exact absurd hentry (hreach step (by omega))
    have hnext := ih (step + 1) (if reusable = none ∧ (entries ((start + step) % size)).count = 0
      then some ((start + step) % size) else reusable) (by omega) ?_ (fuel - 1) (by omega)
    · rw [show size - (step + 1) = fuel by omega] at hnext
      exact hnext
    · intro i hi
      split at hi
      · rename_i hfirst
        cases hi
        exact ⟨hfirst.2, step, by omega, rfl, fun d' hd' => hreach d' (by omega)⟩
      · exact hreusable i hi

theorem search_found (h : Probed entries size hash) (hd : d < size)
    (hkey : (entries ((hash k + d) % size)).key = some k) (hreach : Reaches entries size (hash k) d) :
    search entries size (hash k) k size 0 none = .found ((hash k + d) % size) := by
  have hsize : 0 < size := by omega
  have hother : ∀ step < d, (entries ((hash k + step) % size)).key ≠ some k := by
    intro step hlt hsame
    have hindex := h.unique _ _ k (Nat.mod_lt _ hsize) (Nat.mod_lt _ hsize) hsame hkey
    have := chain_injective (by omega) hd hindex
    omega
  obtain ⟨fuel, reusable, hpass, -⟩ := search_pass hd hreach hother d 0 none (by omega) (by simp)
  rw [Nat.sub_zero] at hpass
  rw [hpass, search, if_pos hkey]

/-- A key that is not in the table ends at an entry that may be taken over, when an unused entry
lies on its chain. -/
theorem search_vacant (hzero : ∀ i, (entries i).key = none → (entries i).count = 0)
    (habsent : ∀ i < size, (entries i).key ≠ some k) (hd : d < size)
    (hunused : (entries ((hash k + d) % size)).key = none)
    (hreach : Reaches entries size (hash k) d) :
    ∃ i, search entries size (hash k) k size 0 none = .vacant i ∧
      Takeable entries size (hash k) i := by
  have hother : ∀ step, (entries ((hash k + step) % size)).key ≠ some k :=
    fun step => habsent _ (Nat.mod_lt _ (by omega))
  obtain ⟨fuel, reusable, hpass, hreusable⟩ :=
    search_pass hd hreach (fun step _ => hother step) d 0 none (by omega) (by simp)
  rw [Nat.sub_zero] at hpass
  rw [hpass, search, if_neg (hother d), hunused]
  cases reusable with
  | none =>
    refine ⟨_, rfl, ?_⟩
    rw [if_pos ⟨rfl, hzero _ hunused⟩]
    exact ⟨hzero _ hunused, d, hd, rfl, hreach⟩
  | some i => exact ⟨i, rfl, hreusable i rfl⟩

omit [DecidableEq K] in
theorem exists_reachable_unused (start : Nat) (hunused : ∃ i < size, (entries i).key = none) :
    ∃ d < size, (entries ((start + d) % size)).key = none ∧ Reaches entries size start d := by
  obtain ⟨i, hi, hkey⟩ := hunused
  have hon : ∃ d, d < size ∧ (entries ((start + d) % size)).key = none := by
    refine ⟨(i + (size - start % size)) % size, Nat.mod_lt _ (by omega), ?_⟩
    have hlt := Nat.mod_lt start (show 0 < size by omega)
    have hwrap : (start + (i + (size - start % size)) % size) % size = i := by
      rw [Nat.add_mod_mod, ← Nat.mod_add_mod,
        show start % size + (i + (size - start % size)) = i + size by omega,
        Nat.add_mod_right, Nat.mod_eq_of_lt hi]
    rw [hwrap, hkey]
  obtain ⟨hd, hnone⟩ := Nat.find_spec hon
  refine ⟨Nat.find hon, hd, hnone, fun d' hd' hnone' => ?_⟩
  exact Nat.find_min hon hd' ⟨by omega, hnone'⟩

end Lookup

section Value

variable [DecidableEq K]

/-- The count the table holds for a key; a key without an entry counts zero. -/
def value (entries : Nat → Entry K) (size : Nat) (hash : K → Nat) (key : K) : Nat :=
  match search entries size (hash key) key size 0 none with
  | .found i => (entries i).count
  | _ => 0

variable {entries : Nat → Entry K} {size : Nat} {hash : K → Nat}

theorem search_own (h : Probed entries size hash) (hi : i < size) (hkey : (entries i).key = some k) :
    search entries size (hash k) k size 0 none = .found i := by
  obtain ⟨d, hd, hindex, hreach⟩ := h.reach i k hi hkey
  subst hindex
  exact search_found h hd hkey hreach

theorem value_own (h : Probed entries size hash) (hi : i < size) (hkey : (entries i).key = some k) :
    value entries size hash k = (entries i).count := by
  rw [value, search_own h hi hkey]

theorem search_found_key {start : Nat} {fuel step : Nat} {reusable : Option Nat}
    (hsize : 0 < size) (h : search entries size start k fuel step reusable = .found i) :
    i < size ∧ (entries i).key = some k := by
  induction fuel generalizing step reusable with
  | zero => simp [search] at h
  | succ fuel ih =>
    rw [search] at h
    by_cases hkey : (entries ((start + step) % size)).key = some k
    · rw [if_pos hkey] at h
      obtain rfl := Outcome.found.inj h
      exact ⟨Nat.mod_lt _ hsize, hkey⟩
    rw [if_neg hkey] at h
    cases hentry : (entries ((start + step) % size)).key with
    | none => simp [hentry] at h
    | some k' =>
      simp only [hentry] at h
      exact ih h

theorem value_absent (hsize : 0 < size) (habsent : ∀ i < size, (entries i).key ≠ some k) :
    value entries size hash k = 0 := by
  unfold value
  split
  · rename_i i hfound
    obtain ⟨hi, hkey⟩ := search_found_key hsize hfound
    exact absurd hkey (habsent i hi)
  · rfl

theorem search_cases (h : Probed entries size hash) (hunused : ∃ i < size, (entries i).key = none)
    (k : K) :
    (∃ i < size, search entries size (hash k) k size 0 none = .found i ∧ (entries i).key = some k) ∨
    (∃ i < size, search entries size (hash k) k size 0 none = .vacant i ∧
      Takeable entries size (hash k) i ∧ ∀ j < size, (entries j).key ≠ some k) := by
  by_cases hown : ∃ i < size, (entries i).key = some k
  · obtain ⟨i, hi, hkey⟩ := hown
    exact .inl ⟨i, hi, search_own h hi hkey, hkey⟩
  simp only [not_exists, not_and] at hown
  obtain ⟨d, hd, hnone, hreach⟩ := exists_reachable_unused (hash k) hunused
  obtain ⟨i, hsearch, htake⟩ := search_vacant h.unused_zero hown hd hnone hreach
  obtain ⟨d', -, hindex, -⟩ := htake.2
  have hi : i < size := by
    rw [← hindex]
    exact Nat.mod_lt _ (by omega)
  exact .inr ⟨i, hi, hsearch, htake, hown⟩

end Value

section Update

variable {entries : Nat → Entry K} {size : Nat} {hash : K → Nat}

theorem Reaches.update {start : Nat} (h : Reaches entries size start d) (k : K) (c : Nat) :
    Reaches (update entries i ⟨some k, c⟩) size start d := by
  intro d' hd'
  by_cases hi : (start + d') % size = i
  · simp [hi]
  · rw [update_of_ne hi]
    exact h d' hd'

section

variable (h : Probed entries size hash)
include h

/-- An entry on the key's chain is overwritten, and no other entry holds the key. -/
theorem Probed.put (halone : ∀ j < size, j ≠ i → (entries j).key ≠ some k)
    (hchain : ∃ d < size, (hash k + d) % size = i ∧ Reaches entries size (hash k) d) (c : Nat) :
    Probed (update entries i ⟨some k, c⟩) size hash := by
  constructor
  · intro j j' k' hj hj' hjkey hjkey'
    by_cases hji : j = i <;> by_cases hji' : j' = i
    · rw [hji, hji']
    · subst hji
      rw [update_self, some.injEq] at hjkey
      rw [update_of_ne hji', ← hjkey] at hjkey'
      exact absurd hjkey' (halone j' hj' hji')
    · subst hji'
      rw [update_self, some.injEq] at hjkey'
      rw [update_of_ne hji, ← hjkey'] at hjkey
      exact absurd hjkey (halone j hj hji)
    · rw [update_of_ne hji] at hjkey
      rw [update_of_ne hji'] at hjkey'
      exact h.unique j j' k' hj hj' hjkey hjkey'
  · intro j k' hj hjkey
    by_cases hji : j = i
    · subst hji
      rw [update_self, some.injEq] at hjkey
      subst hjkey
      obtain ⟨d, hd, hindex, hreach⟩ := hchain
      exact ⟨d, hd, hindex, hreach.update k c⟩
    · rw [update_of_ne hji] at hjkey
      obtain ⟨d, hd, hindex, hreach⟩ := h.reach j k' hj hjkey
      exact ⟨d, hd, hindex, hreach.update k c⟩
  · intro j hnone
    by_cases hj : j = i
    · subst hj
      simp at hnone
    · rw [update_of_ne hj] at hnone ⊢
      exact h.unused_zero j hnone

/-- An entry that holds the key's counter, or one it may take over. -/
def Usable (entries : Nat → Entry K) (size : Nat) (hash : K → Nat) (k : K) (i : Nat) : Prop :=
  (entries i).key = some k ∨
    Takeable entries size (hash k) i ∧ ∀ j < size, (entries j).key ≠ some k

theorem Probed.set (hi : i < size) (huse : Usable entries size hash k i) (c : Nat) :
    Probed (update entries i ⟨some k, c⟩) size hash := by
  rcases huse with hkey | ⟨htake, habsent⟩
  · exact h.put (fun j hj hne hjkey => hne (h.unique j i k hj hi hjkey hkey))
      (h.reach i k hi hkey) c
  · exact h.put (fun j hj _ => habsent j hj) htake.2 c

theorem value_set [DecidableEq K] (hi : i < size) (huse : Usable entries size hash k i) (c : Nat) :
    value (update entries i ⟨some k, c⟩) size hash =
      update (value entries size hash) k c := by
  have hset := h.set hi huse c
  funext k'
  by_cases hk : k' = k
  · subst hk
    rw [update_self, value_own hset hi (by simp)]
    simp
  rw [update_of_ne hk]
  have hother : ∀ j, (update entries i ⟨some k, c⟩ j).key = some k' →
      j ≠ i ∧ (entries j).key = some k' := by
    intro j hkey
    rw [update_apply] at hkey
    split_ifs at hkey with hji
    · exact absurd (some.inj hkey).symm hk
    · exact ⟨hji, hkey⟩
  by_cases hown : ∃ j < size, (entries j).key = some k'
  · obtain ⟨j, hj, hjkey⟩ := hown
    by_cases hji : j = i
    · -- The entry taken over was `k'`'s: its count was zero, and the key is gone now.
      subst hji
      have hzero : (entries j).count = 0 := by
        rcases huse with hkey | ⟨htake, -⟩
        · rw [hjkey, some.injEq] at hkey
          exact absurd hkey hk
        · exact htake.1
      rw [value_own h hj hjkey, hzero]
      refine value_absent (by omega) fun j' hj' hkey' => ?_
      obtain ⟨hne, hold⟩ := hother j' hkey'
      exact hne (h.unique j' j k' hj' hj hold hjkey)
    · rw [value_own h hj hjkey, value_own hset hj (by rw [update_of_ne hji]; exact hjkey),
        update_of_ne hji]
  · simp only [not_exists, not_and] at hown
    rw [value_absent (by omega) hown]
    exact value_absent (by omega) fun j hj hjkey => hown j hj (hother j hjkey).2

end

end Update

end ProbeTable
