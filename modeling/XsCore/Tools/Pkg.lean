import Mathlib.Data.Finset.Card
import Mathlib.Data.List.Induction
import Mathlib.Logic.Relation
import XsCore.Libc.IntegerParsing

/-! # Dependencies of a package

`resolve_dependencies` cuts the dependency list of a package with `strtok` and calls itself for each
entry.  The position of `strtok` is a static pointer into a buffer of the call: a call for an entry
that has a list of its own leaves it in a buffer that is gone when the call returns.
-/

namespace XsCore.Tools.Pkg

open List

/-- The bytes of a string, without the zero that ends it. -/
abbrev Text := List UInt8

/-- What `find_repo_pkg` finds: the dependency list of a package, within the sizes of `pkg_info`. -/
structure Repository where
  find : Text → Option Text
  name_fits : ∀ {name deps}, find name = some deps → name.length ≤ 63
  deps_fit : ∀ {name deps}, find name = some deps → deps.length ≤ 255

def isDelimiter (c : UInt8) : Bool := c = 44 || c = 32

def isBlank (c : UInt8) : Bool := c = 32 || c = 9 || c = 13 || c = 10

def trimWhitespace (text : Text) : Text :=
  ((text.dropWhile isBlank).reverse.dropWhile isBlank).reverse

/-- `strtok_r` with the delimiters of the list: a token and what the saved pointer shows. -/
def strtokR (text : Text) : Option (Text × Text) :=
  let cursor := text.dropWhile isDelimiter
  if cursor = [] then none
  else some (cursor.takeWhile (!isDelimiter ·), (cursor.dropWhile (!isDelimiter ·)).drop 1)

def strtok : Nat → Text → List Text
  | 0, _ => []
  | n + 1, text =>
    match strtokR text with
    | none => []
    | some (token, rest) => token :: strtok n rest

/-- The entries of a list, cut in the buffer `deps_copy` of 256 bytes. -/
def listed (deps : Text) : List Text := (strtok 256 (deps.take 255)).map trimWhitespace

inductive Resolution where
  /-- The queue, and whether the call has moved the pointer of `strtok`. -/
  | ok (queue : List Text) (moved : Bool)
  | failed
  /-- `strtok` goes on in a buffer that is gone. -/
  | undefined
  deriving DecidableEq

def tokenLoop (installed : Text → Bool) (resolve : Text → List Text → Resolution) :
    List Text → List Text → Resolution
  | [], queue => .ok queue true
  | token :: rest, queue =>
    if token ≠ [] ∧ installed token = false ∧ token ∉ queue then
      match resolve token queue with
      | .ok queue false => tokenLoop installed resolve rest queue
      | .ok _ true => .undefined
      | other => other
    else tokenLoop installed resolve rest queue

def maxQueue : Nat := 256

/-- The end of a call: the package goes into the queue after its dependencies. -/
def enqueue (name : Text) : Resolution → Resolution
  | .ok queue moved =>
    if name ∈ queue then .ok queue moved
    else if maxQueue ≤ queue.length then .failed
    else .ok (queue ++ [name.take 63]) moved
  | other => other

/-- `resolve_dependencies`, by the levels left before `MAX_RECURSION_DEPTH` is passed. -/
def resolveDependencies (repo : Repository) (installed : Text → Bool) :
    Nat → Text → List Text → Resolution
  | 0, _, _ => .failed
  | levels + 1, name, queue =>
    match repo.find name with
    | none => if installed name then .ok queue false else .failed
    | some [] => enqueue name (.ok queue false)
    | some deps =>
      enqueue name
        (tokenLoop installed (resolveDependencies repo installed levels) (listed deps) queue)

def resolve (repo : Repository) (installed : Text → Bool) (name : Text) : Resolution :=
  resolveDependencies repo installed 33 name []

/-! ## What the queue is for -/

section Needs

variable (repo : Repository) (installed : Text → Bool)

/-- A dependency that has to be installed first. -/
def Needs (a b : Text) : Prop :=
  ∃ deps, repo.find a = some deps ∧ b ∈ listed deps ∧ b ≠ [] ∧ installed b = false

def Wanted (name a : Text) : Prop := Relation.ReflTransGen (Needs repo installed) name a

structure Queued (name : Text) (queue : List Text) : Prop where
  once : queue.Nodup
  complete : ∀ a, Wanted repo installed name a → a ∈ queue
  ordered : queue.Pairwise fun a b => ¬ Needs repo installed a b
  acyclic : ∀ a, Wanted repo installed name a → ¬ Relation.TransGen (Needs repo installed) a a
  found : ∀ a, Wanted repo installed name a → repo.find a ≠ none

/-- Success gives a full queue, and is not possible with a package missing or a circle. -/
def Resolves (name : Text) : Prop :=
  match resolve repo installed name with
  | .ok queue _ => Queued repo installed name queue
  | .failed => True
  | .undefined => False

/-- The entries of a list that are looked at, in its order. -/
def needed (deps : Text) : List Text :=
  (listed deps).filter fun b => b ≠ [] ∧ installed b = false

/-- A call for a package with a list succeeds: its entries are leaves, and there is room for what
is not in the queue. -/
def Closes : Nat → Finset Text → Text → Prop
  | 0, _, _ => False
  | levels + 1, queue, a => ∃ deps, repo.find a = some deps ∧ deps ≠ [] ∧
      (∀ b ∈ needed installed deps, repo.find b = some []) ∧
      ((needed installed deps).toFinset ⊆ queue ∨ 0 < levels) ∧
      (queue ∪ (needed installed deps).toFinset).card < maxQueue

/-- Down the first entries that are no leaves there is a package for which the call succeeds. -/
def Loses : Nat → Finset Text → Text → Prop
  | 0, _, _ => False
  | levels + 1, queue, a => ∃ deps front b rest, repo.find a = some deps ∧
      needed installed deps = front ++ b :: rest ∧ (∀ c ∈ front, repo.find c = some []) ∧
      (queue ∪ front.toFinset).card ≤ maxQueue ∧
      (Closes repo installed levels (queue ∪ front.toFinset) b ∨
        Loses levels (queue ∪ front.toFinset) b)

end Needs

section Resolve

variable {repo : Repository} (installed : Text → Bool) {name a : Text}

theorem needs_iff {deps : Text} (h : repo.find a = some deps) (b : Text) :
    Needs repo installed a b ↔ b ∈ needed installed deps := by
  simp [Needs, needed, h]

theorem needed_nil : needed installed [] = [] := by
  simp [needed, listed, strtok, strtokR]

theorem not_needs_of_leaf (h : repo.find a = some []) (b : Text) : ¬ Needs repo installed a b := by
  simp [needs_iff installed h, needed_nil]

/-- The queue after the leaves `front`. -/
def pushAll (queue front : List Text) : List Text :=
  front.foldl (fun queue b => if b ∈ queue then queue else queue ++ [b]) queue

structure Leaves (repo : Repository) (queue : List Text) : Prop where
  once : queue.Nodup
  leaf : ∀ b ∈ queue, repo.find b = some []

variable {installed}

theorem Leaves.push {queue : List Text} (h : Leaves repo queue) {b : Text} (hnew : b ∉ queue)
    (hleaf : repo.find b = some []) : Leaves repo (queue ++ [b]) where
  once := nodup_append_comm.mp (nodup_cons.mpr ⟨hnew, h.once⟩)
  leaf c hc := by
    rcases mem_append.mp hc with hold | hlast
    · exact h.leaf c hold
    · rw [mem_singleton.mp hlast, hleaf]

theorem toFinset_pushAll (queue front : List Text) :
    (pushAll queue front).toFinset = queue.toFinset ∪ front.toFinset := by
  induction front generalizing queue with
  | nil => simp [pushAll]
  | cons b front ih =>
    rw [pushAll, foldl_cons, ← pushAll, ih]
    ext c
    split_ifs with hb
    · simp
      grind
    · simp

theorem Leaves.pushAll {queue front : List Text} (h : Leaves repo queue)
    (hfront : ∀ b ∈ front, repo.find b = some []) : Leaves repo (pushAll queue front) := by
  induction front generalizing queue with
  | nil => exact h
  | cons b front ih =>
    have hrest := fun c hc => hfront c (mem_cons_of_mem b hc)
    rw [Pkg.pushAll, foldl_cons, ← Pkg.pushAll]
    split_ifs with hb
    · exact ih h hrest
    · exact ih (h.push hb (hfront b mem_cons_self)) hrest

theorem tokenLoop_needed (call : Text → List Text → Resolution) (tokens queue : List Text) :
    tokenLoop installed call (tokens.filter fun b => b ≠ [] ∧ installed b = false) queue =
      tokenLoop installed call tokens queue := by
  induction tokens generalizing queue with
  | nil => rfl
  | cons token rest ih =>
    rw [filter_cons]
    split_ifs with hneeded
    · simp only [tokenLoop, ih]
    · rw [ih, tokenLoop, if_neg fun h => hneeded (by simp [h])]

theorem resolve_leaf (levels : Nat) {queue : List Text} (hnew : a ∉ queue)
    (hleaf : repo.find a = some []) : resolveDependencies repo installed (levels + 1) a queue =
      if maxQueue ≤ queue.length then .failed else .ok (queue ++ [a]) false := by
  have hname : a.take 63 = a := take_of_length_le (repo.name_fits hleaf)
  simp [resolveDependencies, hleaf, enqueue, hnew, hname]

/-- The loop over leaves that are needed puts those in the queue that are not in it, or fails. -/
theorem tokenLoop_front (levels : Nat) {front queue : List Text} (more : List Text)
    (hqueue : Leaves repo queue) (hneeded : ∀ b ∈ front, b ≠ [] ∧ installed b = false)
    (hfront : ∀ b ∈ front, repo.find b = some []) (hroom : queue.length ≤ maxQueue) :
    tokenLoop installed (resolveDependencies repo installed levels) (front ++ more) queue =
      if (queue.toFinset ∪ front.toFinset).card ≤ maxQueue ∧
          (front.toFinset ⊆ queue.toFinset ∨ 0 < levels) then
        tokenLoop installed (resolveDependencies repo installed levels) more (pushAll queue front)
      else .failed := by
  induction front generalizing queue with
  | nil => simp [pushAll, toFinset_card_of_nodup hqueue.once, hroom]
  | cons b front ih =>
    have hb := hneeded b mem_cons_self
    have hleaf := hfront b mem_cons_self
    simp only [forall_mem_cons] at hneeded hfront
    rw [cons_append, tokenLoop, pushAll, foldl_cons, ← pushAll]
    by_cases hmem : b ∈ queue
    · have hin : b ∈ queue.toFinset := mem_toFinset.mpr hmem
      have hunion : queue.toFinset ∪ (b :: front).toFinset = queue.toFinset ∪ front.toFinset := by
        rw [toFinset_cons, Finset.union_insert, Finset.insert_eq_of_mem (by simp [hmem])]
      rw [if_neg (by simp [hmem]), if_pos hmem, ih hqueue hneeded.2 hfront.2 hroom, hunion]
      simp only [toFinset_cons, Finset.insert_subset_iff, hin, true_and]
    rw [if_pos ⟨hb.1, hb.2, hmem⟩, if_neg hmem]
    have hsub : ¬ (b :: front).toFinset ⊆ queue.toFinset := fun h =>
      hmem (mem_toFinset.mp (h (by simp)))
    rcases levels with _ | levels
    · rw [if_neg fun h => h.2.elim hsub (lt_irrefl 0)]
      rfl
    rw [resolve_leaf levels hmem hleaf]
    have hpush := toFinset_card_of_nodup (hqueue.push hmem hleaf).once
    have hunion : (queue ++ [b]).toFinset ∪ front.toFinset =
        queue.toFinset ∪ (b :: front).toFinset := by
      ext c
      simp
    by_cases hfull : maxQueue ≤ queue.length
    · have hgrown : (queue ++ [b]).toFinset.card ≤ (queue.toFinset ∪ (b :: front).toFinset).card :=
        Finset.card_le_card (hunion ▸ Finset.subset_union_left)
      rw [if_pos hfull, if_neg fun h => by
        simp only [length_append, length_singleton] at hpush
        omega]
    · have hroom' : (queue ++ [b]).length ≤ maxQueue := by
        simpa [Nat.succ_le_iff] using hfull
      rw [if_neg hfull]
      simp only [ih (hqueue.push hmem hleaf) hneeded.2 hfront.2 hroom', hunion, Nat.succ_pos,
        or_true]

theorem queued_of_leaves (after : List Text) (hok : Leaves repo after)
    (hall : ∀ b, Needs repo installed name b → b ∈ after) (hself : name ∉ after)
    (hfound : repo.find name ≠ none) : Queued repo installed name (after ++ [name]) := by
  have hleaf := fun b hb => not_needs_of_leaf installed (hok.leaf b hb)
  have hwanted : ∀ b, Wanted repo installed name b → b = name ∨ b ∈ after := by
    intro b hb
    induction hb with
    | refl => exact .inl rfl
    | tail _ hstep ih =>
      rcases ih with rfl | hmem
      · exact .inr (hall _ hstep)
      · exact absurd hstep (hleaf _ hmem _)
  constructor
  · rw [nodup_append]
    exact ⟨hok.once, by simp, fun b hb c hc heq => hself (mem_singleton.mp hc ▸ heq ▸ hb)⟩
  · intro b hb
    rcases hwanted b hb with rfl | hmem <;> simp [*]
  · rw [pairwise_append]
    exact ⟨List.Pairwise.imp_of_mem (fun hb _ _ => hleaf _ hb _) hok.once, by simp,
      fun b hb c _ => hleaf b hb c⟩
  · intro b hb hcycle
    obtain ⟨c, hstep, hback⟩ := Relation.TransGen.head'_iff.mp hcycle
    rcases hwanted b hb with rfl | hmem
    · -- the first step away from the package ends at a leaf, and there is no way back
      rcases Relation.ReflTransGen.cases_head hback with rfl | ⟨d, hnext, -⟩
      · exact hself (hall _ hstep)
      · exact hleaf c (hall c hstep) d hnext
    · exact hleaf b hmem c hstep
  · intro b hb
    rcases hwanted b hb with rfl | hmem
    · exact hfound
    · simp [hok.leaf b hmem]

theorem needed_spec {deps : Text} : ∀ b ∈ needed installed deps, b ≠ [] ∧ installed b = false := by
  intro b hb
  simpa using (mem_filter.mp hb).2

theorem Closes.has_list {levels : Nat} {queue : Finset Text}
    (h : Closes repo installed levels queue a) : 0 < levels ∧ repo.find a ≠ some [] := by
  rcases levels with _ | levels
  · exact h.elim
  obtain ⟨deps, hfind, hne, -⟩ := h
  exact ⟨levels.succ_pos, by simpa [hfind] using hne⟩

theorem Loses.has_list {levels : Nat} {queue : Finset Text}
    (h : Loses repo installed levels queue a) : 0 < levels ∧ repo.find a ≠ some [] := by
  rcases levels with _ | levels
  · exact h.elim
  obtain ⟨deps, front, b, rest, hfind, hneeded, -⟩ := h
  refine ⟨levels.succ_pos, fun hleaf => ?_⟩
  rw [hfind, Option.some.injEq] at hleaf
  simp [hleaf, needed_nil] at hneeded

/-- The entries of a list are leaves, or there is a first one that is none. -/
theorem leaves_or_first (repo : Repository) (entries : List Text) :
    (∀ b ∈ entries, repo.find b = some []) ∨ ∃ front b rest, entries = front ++ b :: rest ∧
      (∀ c ∈ front, repo.find c = some []) ∧ repo.find b ≠ some [] := by
  induction entries with
  | nil => exact .inl (by simp)
  | cons entry entries ih =>
    by_cases hleaf : repo.find entry = some []
    · rcases ih with hall | ⟨front, b, rest, rfl, hfront, hb⟩
      · exact .inl (forall_mem_cons.mpr ⟨hleaf, hall⟩)
      · exact .inr ⟨entry :: front, b, rest, rfl, forall_mem_cons.mpr ⟨hleaf, hfront⟩, hb⟩
    · exact .inr ⟨[], entry, entries, rfl, by simp, hleaf⟩

theorem first_unique {front front' rest rest' : List Text} {b b' : Text}
    (h : front ++ b :: rest = front' ++ b' :: rest')
    (hfront : ∀ c ∈ front, repo.find c = some []) (hb : repo.find b ≠ some [])
    (hfront' : ∀ c ∈ front', repo.find c = some []) (hb' : repo.find b' ≠ some []) :
    front = front' ∧ b = b' := by
  induction front generalizing front' with
  | nil => cases front' <;> simp_all
  | cons c front ih =>
    rcases front' with _ | ⟨c', front'⟩
    · simp_all
    · simp only [cons_append, cons.injEq, forall_mem_cons] at h hfront hfront'
      obtain ⟨hf, heq⟩ := ih h.2 hfront.2 hfront'.2
      exact ⟨by rw [h.1, hf], heq⟩

/-- A call for an entry that is no leaf does not come back with the pointer in its place. -/
theorem resolve_ne_unmoved (levels : Nat) (queue : List Text)
    (hnew : repo.find a = none → installed a = false) (hlist : repo.find a ≠ some [])
    (after : List Text) :
    resolveDependencies repo installed levels a queue ≠ .ok after false := by
  have hloop : ∀ call tokens queue after,
      tokenLoop installed call tokens queue ≠ .ok after false := by
    intro call tokens queue
    fun_induction tokenLoop installed call tokens queue <;> simp_all
  rcases levels with _ | levels
  · simp [resolveDependencies]
  rw [resolveDependencies]
  split
  · rename_i hnone
    simp [hnew hnone]
  · exact absurd ‹_› hlist
  · rename_i deps _ _
    have := hloop (resolveDependencies repo installed levels) (listed deps) queue
    unfold enqueue
    split <;> grind

/-- What a call for a package with a list does, by its first entry that is no leaf. -/
theorem resolve_list (levels : Nat) {deps : Text} {queue : List Text}
    (hfind : repo.find a = some deps)
    (hne : deps ≠ []) (hqueue : Leaves repo queue) (hroom : queue.length ≤ maxQueue)
    {front more : List Text} (hneeded : needed installed deps = front ++ more)
    (hfront : ∀ c ∈ front, repo.find c = some []) :
    resolveDependencies repo installed (levels + 1) a queue = enqueue a
      (if (queue.toFinset ∪ front.toFinset).card ≤ maxQueue ∧
          (front.toFinset ⊆ queue.toFinset ∨ 0 < levels) then
        tokenLoop installed (resolveDependencies repo installed levels) more (pushAll queue front)
      else .failed) := by
  have hspec : ∀ b ∈ front ++ more, b ≠ [] ∧ installed b = false := hneeded ▸ needed_spec
  rw [← tokenLoop_front levels more hqueue (fun b hb => hspec b (mem_append_left _ hb)) hfront hroom,
    ← hneeded, needed, tokenLoop_needed, resolveDependencies]
  split <;> simp_all

/-- The calls that succeed and the calls that go astray, as the lists show them. -/
theorem resolve_spec (levels : Nat) (a : Text) {queue : List Text} (hqueue : Leaves repo queue)
    (hroom : queue.length ≤ maxQueue) :
    ((∃ after, resolveDependencies repo installed levels a queue = .ok after true) ↔
        Closes repo installed levels queue.toFinset a) ∧
      (resolveDependencies repo installed levels a queue = .undefined ↔
        Loses repo installed levels queue.toFinset a) := by
  induction levels generalizing a queue with
  | zero => simp [resolveDependencies, Closes, Loses]
  | succ levels ih =>
    rcases hfind : repo.find a with _ | deps
    · simp [resolveDependencies, hfind, Closes, Loses]
      split_ifs <;> simp
    by_cases hne : deps = []
    · subst hne
      simp [resolveDependencies, hfind, Closes, Loses, enqueue, needed_nil]
      split_ifs <;> simp
    rcases leaves_or_first repo (needed installed deps) with
      hall | ⟨front, b, rest, hsplit, hfront, hb⟩
    · -- the loop goes through, and what is left is the package itself
      have hafter := hqueue.pushAll hall
      have hlength := toFinset_card_of_nodup hafter.once
      rw [toFinset_pushAll] at hlength
      have hself : a ∉ pushAll queue (needed installed deps) := fun hmem =>
        hne (Option.some.inj (hfind.symm.trans (hafter.leaf a hmem)))
      rw [resolve_list levels hfind hne hqueue hroom (append_nil _).symm hall]
      have hnone : ¬ Loses repo installed (levels + 1) queue.toFinset a := by
        rintro ⟨deps', front, b, rest, hfind', hsplit, -, -, hnext⟩
        rw [← Option.some.inj (hfind.symm.trans hfind')] at hsplit
        have hb := hall b (by simp [hsplit])
        exact hnext.elim (fun h => h.has_list.2 hb) fun h => h.has_list.2 hb
      have hcloses : Closes repo installed (levels + 1) queue.toFinset a ↔
          ((needed installed deps).toFinset ⊆ queue.toFinset ∨ 0 < levels) ∧
            (queue.toFinset ∪ (needed installed deps).toFinset).card < maxQueue := by
        simp only [Closes, hfind, Option.some.injEq, exists_eq_left']
        exact ⟨fun h => h.2.2, fun h => ⟨hne, hall, h⟩⟩
      rw [hcloses]
      split_ifs with hfits
      · by_cases hfull : maxQueue ≤ (pushAll queue (needed installed deps)).length
        · simp [tokenLoop, enqueue, hself, hnone, hlength, hfull]
        · simp [tokenLoop, enqueue, hself, hnone, hlength, hfull, hfits.2, not_le.mp hfull]
      · refine ⟨⟨by simp [enqueue], fun h => absurd ⟨h.2.le, h.1⟩ hfits⟩, by simp [enqueue, hnone]⟩
    · -- the call for the first entry that is no leaf is the last one
      have hb' := needed_spec b (hsplit ▸ mem_append_right front mem_cons_self)
      have hqueue' := hqueue.pushAll hfront
      have hlength := toFinset_card_of_nodup hqueue'.once
      have hnot : b ∉ pushAll queue front := fun hmem => hb (hqueue'.leaf b hmem)
      have hloses : Loses repo installed (levels + 1) queue.toFinset a ↔
          (queue.toFinset ∪ front.toFinset).card ≤ maxQueue ∧
            (Closes repo installed levels (queue.toFinset ∪ front.toFinset) b ∨
              Loses repo installed levels (queue.toFinset ∪ front.toFinset) b) := by
        constructor
        · rintro ⟨deps', front', b', rest', hfind', hsplit', hfront', hcard, hnext⟩
          rw [← Option.some.inj (hfind.symm.trans hfind'), hsplit] at hsplit'
          have hlist := hnext.elim (fun h => h.has_list.2) fun h => h.has_list.2
          obtain ⟨rfl, rfl⟩ := first_unique hsplit' hfront hb hfront' hlist
          exact ⟨hcard, hnext⟩
        · exact fun h => ⟨deps, front, b, rest, hfind, hsplit, hfront, h.1, h.2⟩
      have hcloses : ¬ Closes repo installed (levels + 1) queue.toFinset a := by
        rintro ⟨deps', hfind', -, hall, -⟩
        rw [← Option.some.inj (hfind.symm.trans hfind')] at hall
        exact hb (hall b (by simp [hsplit]))
      rw [resolve_list levels hfind hne hqueue hroom hsplit hfront, iff_false_right hcloses, hloses]
      split_ifs with hfits
      · rw [toFinset_pushAll] at hlength
        obtain ⟨hok, hlost⟩ := ih b hqueue' (hlength ▸ hfits.1)
        rw [toFinset_pushAll] at hok hlost
        have hmoved := resolve_ne_unmoved levels (pushAll queue front) (fun _ => hb'.2) hb
        rw [tokenLoop, if_pos ⟨hb'.1, hb'.2, hnot⟩, ← hok, ← hlost]
        rcases hcall : resolveDependencies repo installed levels b (pushAll queue front) with
          ⟨after, _ | _⟩ | _ | _
        · exact absurd hcall (hmoved after)
        all_goals simp [enqueue, hfits.1]
      · refine ⟨by simp [enqueue], by simp [enqueue], fun h => absurd ⟨h.1, .inr ?_⟩ hfits⟩
        exact h.2.elim (fun h => h.has_list.1) fun h => h.has_list.1

theorem queued_of_resolve {after : List Text} {moved : Bool} (hfound : repo.find name ≠ none)
    (h : resolveDependencies repo installed 33 name [] = .ok after moved) :
    Queued repo installed name after := by
  have hempty : Leaves repo [] := ⟨nodup_nil, by simp⟩
  obtain ⟨deps, hfind⟩ := Option.ne_none_iff_exists'.mp hfound
  by_cases hne : deps = []
  · subst hne
    rw [resolve_leaf 32 (by simp) hfind, if_neg (by decide), Resolution.ok.injEq] at h
    rw [← h.1]
    exact queued_of_leaves [] hempty (fun b hb => absurd hb (not_needs_of_leaf installed hfind b))
      (by simp) hfound
  have hmoved : moved = true := by
    rcases moved with _ | _
    · exact absurd h (resolve_ne_unmoved 33 [] (absurd · hfound) (by simp [hfind, hne]) after)
    · rfl
  subst hmoved
  -- the call succeeds with a list of leaves only
  obtain ⟨deps', hfind', -, hall, -⟩ := (resolve_spec 33 name hempty (by simp)).1.mp ⟨after, h⟩
  rw [← Option.some.inj (hfind.symm.trans hfind')] at hall
  have hafter := hempty.pushAll hall
  have hself : name ∉ pushAll [] (needed installed deps) := fun hmem =>
    hne (Option.some.inj (hfind.symm.trans (hafter.leaf name hmem)))
  have hcomplete : ∀ b, Needs repo installed name b → b ∈ pushAll [] (needed installed deps) := by
    intro b hb
    rw [← mem_toFinset, toFinset_pushAll]
    simpa using (needs_iff installed hfind b).mp hb
  have hname : name.take 63 = name := take_of_length_le (repo.name_fits hfind)
  rw [resolve_list 32 hfind hne hempty (by simp) (append_nil _).symm hall] at h
  split_ifs at h
  · simp only [tokenLoop, enqueue, hself, if_false, hname] at h
    split_ifs at h
    rw [← (Resolution.ok.inj h).1]
    exact queued_of_leaves _ hafter hcomplete hself hfound
  · simp [enqueue] at h

/-- The code keeps its promise unless it is asked for a package that is installed and in no
repository, or a call below the first one succeeds for a package with a list. -/
theorem resolves_iff (repo : Repository) (installed : Text → Bool) (name : Text) :
    Resolves repo installed name ↔
      (repo.find name = none → installed name = false) ∧ ¬ Loses repo installed 33 ∅ name := by
  have hlost : _ ↔ Loses repo installed 33 ∅ name :=
    (resolve_spec 33 name ⟨nodup_nil, by simp⟩ (by simp [maxQueue])).2
  rw [← hlost, Resolves, resolve]
  rcases hfind : repo.find name with _ | deps
  · have hqueued : ¬ Queued repo installed name [] := fun h => by
      simpa using h.complete name .refl
    cases hinst : installed name <;> simp [resolveDependencies, hfind, hinst, hqueued]
  · rcases hcall : resolveDependencies repo installed 33 name [] with ⟨after, moved⟩ | _ | _
    · simpa using queued_of_resolve (by simp [hfind]) hcall
    all_goals simp

end Resolve

/-! ## A list in a list -/

def letter (c : Char) : Text := [UInt8.ofNat c.toNat]

def nested : Repository where
  find name :=
    if name = letter 'A' then some [66, 44, 32, 67]
    else if name = letter 'B' then some [68]
    else if name = letter 'C' ∨ name = letter 'D' then some []
    else none
  name_fits {name deps} h := by
    split_ifs at h with hA hB hC
    · simp [hA, letter]
    · simp [hB, letter]
    · rcases hC with rfl | rfl <;> simp [letter]
  deps_fit {name deps} h := by
    split_ifs at h <;> simp [← Option.some.inj h]

/-- Nothing is missing, but after the call for `B` the rest of the list of `A` is lost. -/
theorem nested_not_resolved : resolve nested (fun _ => false) (letter 'A') = .undefined ∧
      ¬ Resolves nested (fun _ => false) (letter 'A') := by
  have hlost : resolve nested (fun _ => false) (letter 'A') = .undefined := by decide +kernel
  exact ⟨hlost, by simp [Resolves, hlost]⟩

/-! ## Versions

`compare_versions` goes over two versions field by field: a run of digits goes through `strtol`, any
other byte is a `char`.  This is a total preorder, but of a number `strtol` keeps 64 bits only.
-/

section Versions

open Libc

variable {c : UInt8} (more : Text)

theorem strtol_digits (h : isDigit 10 c) :
    strtol (c :: more) 10 = ⟨wrapLong (digitsValue 10 ((c :: more).takeWhile (isDigit 10))),
      (c :: more).length - (more.dropWhile (isDigit 10)).length, none⟩ := by
  obtain ⟨hspace, hminus, hplus⟩ := isDigit_not_space h
  have hscan : takeSign ((c :: more).dropWhile Libc.isBlank) = (false, c :: more) := by
    rw [dropWhile_isBlank (by simp [hspace])]
    simp [hspace, takeSign, hminus, hplus]
  simp [strtol_eq, longBody, longMinus, hscan, chooseLongBase, h, signed]

theorem drop_strtol (h : isDigit 10 c) :
    (c :: more).drop (strtol (c :: more) 10).stop = more.dropWhile (isDigit 10) := by
  rw [strtol_digits more h]
  exact (suffix_iff_eq_drop.mp ((dropWhile_suffix _).trans (suffix_cons c more))).symm

def signedChar (c : UInt8) : Int := if c.toNat < 128 then c.toNat else c.toNat - 256

/-- `compare_versions`, with `gt` for 1 and `lt` for -1; it goes on where two fields are equal. -/
def compareVersions : Text → Text → Ordering
  | [], [] => .eq
  | _ :: _, [] => .gt
  | [], _ :: _ => .lt
  | c :: more, d :: more' =>
    if isDigit 10 c ∧ isDigit 10 d then
      let n := strtol (c :: more) 10
      let n' := strtol (d :: more') 10
      (compare n.value n'.value).then
        (compareVersions ((c :: more).drop n.stop) ((d :: more').drop n'.stop))
    else (compare (signedChar c) (signedChar d)).then (compareVersions more more')
termination_by v => v.length
decreasing_by
  · rename_i h
    rw [drop_strtol more h.1]
    exact Nat.lt_succ_of_le (length_dropWhile_le _ more)
  · simp

structure PkgInfo where
  name : Text
  version : Text

def findRepoPkg (repo : List PkgInfo) (name : Text) : Option PkgInfo :=
  repo.foldl (fun best pkg =>
    if pkg.name = name ∧ ∀ b ∈ best, compareVersions pkg.version b.version = .gt then some pkg
    else best) none

/-- The fields of a version: a number, at the place of the digits, or one byte. -/
def fields : Text → List (Int × Int)
  | [] => []
  | c :: more =>
    if isDigit 10 c then
      (48, digitsValue 10 ((c :: more).takeWhile (isDigit 10))) ::
        fields (more.dropWhile (isDigit 10))
    else (signedChar c, 0) :: fields more
termination_by v => v.length
decreasing_by
  · exact Nat.lt_succ_of_le (length_dropWhile_le _ more)
  · simp

abbrev compareFields : List (Int × Int) → List (Int × Int) → Ordering :=
  List.compareLex (compareLex (compareOn Prod.fst) (compareOn Prod.snd))

/-- What the code has of the fields: the numbers as `long`. -/
def storedFields (v : Text) : List (Int × Int) :=
  (fields v).map fun field => (field.1, wrapLong field.2)

theorem compareFields_cons (p q n m : Int) (v w : List (Int × Int)) :
    compareFields ((p, n) :: v) ((q, m) :: w) =
      ((compare p q).then (compare n m)).then (compareFields v w) :=
  List.compareLex_cons_cons

theorem isDigit_iff : isDigit 10 c ↔ 48 ≤ signedChar c ∧ signedChar c ≤ 57 := by
  have hc := c.toNat_lt
  unfold isDigit asciiDigitValue signedChar
  simp only [UInt8.le_iff_toNat_le, UInt8.reduceToNat]
  split_ifs <;> simp <;> omega

theorem storedFields_digit (h : isDigit 10 c) :
    storedFields (c :: more) = (48, (strtol (c :: more) 10).value) ::
      storedFields ((c :: more).drop (strtol (c :: more) 10).stop) := by
  rw [drop_strtol more h, strtol_digits more h]
  simp [storedFields, fields, h]

theorem storedFields_head (c : UInt8) : ∃ n rest, storedFields (c :: more) =
    (if isDigit 10 c then 48 else signedChar c, n) :: rest := by
  unfold storedFields fields
  split_ifs <;> exact ⟨_, _, map_cons⟩

/-- Next to a byte that is no digit a number has the place of its first digit. -/
theorem compareFields_byte {d : UInt8} (h : ¬ (isDigit 10 c ∧ isDigit 10 d)) (v w : Text) :
    compareFields (storedFields (c :: v)) (storedFields (d :: w)) = (compare (signedChar c)
      (signedChar d)).then (compareFields (storedFields v) (storedFields w)) := by
  by_cases heq : c = d
  · have hbyte : ¬ isDigit 10 d := fun hd => h (by simp [heq, hd])
    simp [heq, storedFields, fields, hbyte, compareFields_cons]
  obtain ⟨n, rest, hleft⟩ := storedFields_head v c
  obtain ⟨n', rest', hright⟩ := storedFields_head w d
  have hne : signedChar c ≠ signedChar d := by
    have hc := c.toNat_lt
    have hd := d.toNat_lt
    rw [← UInt8.toNat_inj] at heq
    unfold signedChar
    split_ifs <;> omega
  rw [hleft, hright, compareFields_cons]
  simp only [isDigit_iff] at h ⊢
  rcases lt_or_gt_of_ne hne with hlt | hgt
  · rw [compare_lt_iff_lt.mpr hlt, compare_lt_iff_lt.mpr (by split_ifs <;> omega)]
    rfl
  · rw [compare_gt_iff_gt.mpr hgt, compare_gt_iff_gt.mpr (by split_ifs <;> omega)]
    rfl

theorem compareVersions_eq (v w : Text) :
    compareVersions v w = compareFields (storedFields v) (storedFields w) := by
  fun_induction compareVersions v w with
  | case1 =>
    rw [storedFields, fields]
    exact List.compareLex_nil_nil.symm
  | case2 c more =>
    obtain ⟨n, rest, h⟩ := storedFields_head more c
    rw [h, storedFields, fields]
    exact List.compareLex_cons_nil.symm
  | case3 c more =>
    obtain ⟨n, rest, h⟩ := storedFields_head more c
    rw [h, storedFields, fields]
    exact List.compareLex_nil_cons.symm
  | case4 c more d more' h n n' ih =>
    rw [storedFields_digit more h.1, storedFields_digit more' h.2, compareFields_cons, ih,
      compare_eq_iff_eq.mpr rfl]
    rfl
  | case5 c more d more' h ih => rw [compareFields_byte h, ih]

theorem compareVersions_preorder : Std.TransCmp compareVersions := by
  have heq : compareVersions = fun v w => compareFields (storedFields v) (storedFields w) :=
    funext₂ compareVersions_eq
  rw [heq]
  exact { eq_swap := Std.OrientedCmp.eq_swap, isLE_trans := Std.TransCmp.isLE_trans }

/-- No package of the name exceeds the one that is found. -/
def Lookup (repo : List PkgInfo) (name : Text) (found : Option PkgInfo) : Prop :=
  (∀ best ∈ found, best ∈ repo ∧ best.name = name) ∧
    ∀ pkg ∈ repo, pkg.name = name →
      ∃ best ∈ found, compareVersions pkg.version best.version ≠ .gt

theorem findRepoPkg_spec (repo : List PkgInfo) (name : Text) :
    Lookup repo name (findRepoPkg repo name) := by
  have horder := compareVersions_preorder
  induction repo using List.reverseRecOn with
  | nil => simp [findRepoPkg, Lookup]
  | append_singleton repo pkg ih =>
    rw [findRepoPkg, foldl_append, foldl_cons, foldl_nil, ← findRepoPkg]
    split_ifs with hnew
    · refine ⟨by simp [hnew.1], fun other hother hname => ⟨pkg, rfl, fun hgt => ?_⟩⟩
      rcases mem_append.mp hother with hold | hlast
      · obtain ⟨best, hbest, hle⟩ := ih.2 other hold hname
        exact hle (Std.TransCmp.gt_trans hgt (hnew.2 best hbest))
      · simp [mem_singleton.mp hlast, Std.ReflCmp.compare_self] at hgt
    · refine ⟨fun best hbest => (ih.1 best hbest).imp_left (mem_append_left _), ?_⟩
      intro other hother hname
      rcases mem_append.mp hother with hold | hlast
      · exact ih.2 other hold hname
      · rw [mem_singleton.mp hlast] at hname ⊢
        simpa [hname] using hnew

def Fits (v : Text) : Prop := ∀ field ∈ fields v, field.2 ≤ llongMax

theorem fields_nonneg (v : Text) : ∀ field ∈ fields v, 0 ≤ field.2 := by
  fun_induction fields v <;> simp_all only [mem_cons, not_mem_nil, forall_eq_or_imp] <;> simp_all

theorem wrapLong_of_fits {n : Int} (hpos : 0 ≤ n) (h : n ≤ llongMax) : wrapLong n = n := by
  have hlong : llongMax = 2 ^ 63 - 1 := rfl
  exact Int.bmod_eq_of_le (by omega) (by omega)

theorem storedFields_of_fits {v : Text} (h : Fits v) : storedFields v = fields v := by
  refine (map_congr_left fun field hfield => ?_).trans (map_id _)
  rw [wrapLong_of_fits (fields_nonneg v field hfield) (h field hfield), id]

/-- The last number of the type `long`, and the one behind it. -/
def limit (last : UInt8) : Text :=
  [57, 50, 50, 51, 51, 55, 50, 48, 51, 54, 56, 53, 52, 55, 55, 53, 56, 48, last]

theorem fields_number {digits rest : Text} (hne : digits ≠ []) (hdigits : ∀ c ∈ digits, isDigit 10 c)
    (hrest : ∀ c ∈ rest.head?, isDigit 10 c = false) :
    fields (digits ++ rest) = (48, (digitsValue 10 digits : Int)) :: fields rest := by
  have hstop : rest.takeWhile (isDigit 10) = [] ∧ rest.dropWhile (isDigit 10) = rest := by
    cases rest <;> simp_all
  rcases digits with _ | ⟨c, digits⟩
  · exact absurd rfl hne
  rw [cons_append, fields, if_pos (hdigits c mem_cons_self), ← cons_append,
    takeWhile_append_of_pos hdigits, hstop.1, append_nil,
    dropWhile_append_of_pos fun d hd => hdigits d (mem_cons_of_mem c hd), hstop.2]

theorem fields_limit (rest : Text) (hrest : ∀ c ∈ rest.head?, isDigit 10 c = false) :
    fields (limit 55 ++ rest) = (48, (llongMax : Int)) :: fields rest ∧
      fields (limit 56 ++ rest) = (48, 2 ^ 63) :: fields rest := by
  constructor
  all_goals
    rw [fields_number (by simp [limit]) (by decide +kernel) hrest]
    congr

theorem fields_replicate (n : Nat) : fields (replicate n 127) = replicate n (127, 0) := by
  have hbyte : ¬ isDigit 10 127 := by decide
  induction n with
  | zero => simp [fields]
  | succ n ih =>
    rw [replicate_succ, fields, if_neg hbyte, ih]
    rfl

/-- Enough bytes 127 exceed any version. -/
theorem compareFields_replicate (v : Text) :
    compareFields (storedFields v) (replicate (v.length + 1) (127, 0)) = .lt := by
  fun_induction fields v with
  | case1 =>
    rw [storedFields, fields]
    exact List.compareLex_nil_cons
  | case2 c more hdigit ih =>
    rw [storedFields, fields, if_pos hdigit, map_cons, replicate_succ, compareFields_cons]
    rfl
  | case3 c more hbyte ih =>
    have hle : signedChar c ≤ 127 := by
      have hc := c.toNat_lt
      unfold signedChar
      split_ifs <;> omega
    rw [storedFields, fields, if_neg hbyte, map_cons, replicate_succ, compareFields_cons,
      length_cons, ← storedFields, ih]
    rcases hle.lt_or_eq with hlt | heq
    · rw [compare_lt_iff_lt.mpr hlt]
      rfl
    · rw [heq]
      rfl

/-- A version that does not fit is put below one that it exceeds. -/
theorem exists_misplaced (v : Text) (h : ¬ Fits v) : ∃ w, Fits w ∧
    compareFields (storedFields v) (fields w) = .lt ∧ compareFields (fields v) (fields w) = .gt ∧
    ((∀ c ∈ v.head?, isDigit 10 c = false) → ∀ c ∈ w.head?, isDigit 10 c = false) := by
  have hlong : llongMax = 2 ^ 63 - 1 := rfl
  induction v using fields.induct with
  | case1 => simp [Fits, fields] at h
  | case2 c more hdigit ih =>
    have hstart : ∀ {p : Prop}, (∀ d ∈ (c :: more).head?, isDigit 10 d = false) → p := by
      intro p hnone
      simp [hdigit] at hnone
    have hv : fields (c :: more) =
        (48, (digitsValue 10 ((c :: more).takeWhile (isDigit 10)) : Int)) ::
          fields (more.dropWhile (isDigit 10)) := by rw [fields, if_pos hdigit]
    unfold Fits at h
    rw [storedFields, hv, map_cons, ← storedFields]
    rw [hv, forall_mem_cons, not_and_or] at h
    by_cases hbig : (digitsValue 10 ((c :: more).takeWhile (isDigit 10)) : Int) ≤ llongMax
    · -- the version for the rest, behind the same number
      obtain ⟨w, hfits, hlt, hgt, hhead⟩ := ih (h.resolve_left (not_not_intro hbig))
      have hrest : ∀ d ∈ (more.dropWhile (isDigit 10)).head?, isDigit 10 d = false := by
        intro d hd
        have hnot := head?_dropWhile_not (isDigit 10) more
        rw [Option.mem_def.mp hd] at hnot
        exact hnot
      have hw : fields ((c :: more).takeWhile (isDigit 10) ++ w) = _ :=
        fields_number (by simp [hdigit]) (fun d hd => mem_takeWhile_imp hd) (hhead hrest)
      refine ⟨(c :: more).takeWhile (isDigit 10) ++ w, ?_, ?_, ?_, hstart⟩
      · rw [Fits, hw, forall_mem_cons]
        exact ⟨hbig, hfits⟩
      · rw [hw, compareFields_cons, wrapLong_of_fits (Int.natCast_nonneg _) hbig, hlt,
          compare_eq_iff_eq.mpr rfl, compare_eq_iff_eq.mpr rfl]
        rfl
      · rw [hw, compareFields_cons, hgt, compare_eq_iff_eq.mpr rfl, compare_eq_iff_eq.mpr rfl]
        rfl
    · -- the greatest number that fits, and behind it more than any rest
      have hw := (fields_limit (replicate ((more.dropWhile (isDigit 10)).length + 1) 127)
        (by simp [replicate_succ]; decide)).1
      rw [fields_replicate] at hw
      refine ⟨limit 55 ++ replicate ((more.dropWhile (isDigit 10)).length + 1) 127, ?_, ?_, ?_,
        hstart⟩
      · rw [Fits, hw, forall_mem_cons]
        refine ⟨le_rfl, fun field hfield => ?_⟩
        rw [eq_of_mem_replicate hfield]
        decide
      · have hle : wrapLong (digitsValue 10 ((c :: more).takeWhile (isDigit 10))) ≤ llongMax := by
          have hwrapped := Int.bmod_lt
            (x := (digitsValue 10 ((c :: more).takeWhile (isDigit 10)) : Int)) (m := 2 ^ 64)
            (by decide)
          unfold wrapLong
          omega
        rw [hw, compareFields_cons, compareFields_replicate, compare_eq_iff_eq.mpr rfl]
        rcases hle.lt_or_eq with hlt | heq
        · rw [compare_lt_iff_lt.mpr hlt]
          rfl
        · rw [compare_eq_iff_eq.mpr heq]
          rfl
      · rw [hw, compareFields_cons, compare_eq_iff_eq.mpr rfl,
          compare_gt_iff_gt.mpr (not_le.mp hbig)]
        rfl
  | case3 c more hbyte ih =>
    have hfields : ∀ w, fields (c :: w) = (signedChar c, 0) :: fields w := by
      intro w
      rw [fields, if_neg hbyte]
    have hzero : wrapLong 0 = 0 := rfl
    unfold Fits at h
    rw [hfields, forall_mem_cons, not_and_or] at h
    obtain ⟨w, hfits, hlt, hgt, -⟩ := ih (h.resolve_left (by simp))
    refine ⟨c :: w, ?_, ?_, ?_, by simp⟩
    · rw [Fits, hfields, forall_mem_cons]
      exact ⟨by simp, hfits⟩
    · rw [storedFields, hfields, hfields, map_cons, ← storedFields, hzero, compareFields_cons, hlt,
        compare_eq_iff_eq.mpr rfl]
      rfl
    · rw [hfields, hfields, compareFields_cons, hgt, compare_eq_iff_eq.mpr rfl]
      rfl

end Versions

end XsCore.Tools.Pkg
