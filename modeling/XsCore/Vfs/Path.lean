import Mathlib.Data.List.TakeWhile
import XsCore.Vfs.Vnode

/-!
# Paths

`split_path` and the component scan of `xscore_vfs_resolve_path_at`.  The one
fact later modules need is `components_splitPath`: the last component of a path
is the name `split_path` returns, and the components before it are those of the
parent path.
-/

namespace XsCore.Vfs

open List

variable (current path : Name)

def slash : UInt8 := 47
def dot : UInt8 := 46

/-- The path buffers of the callers of `split_path`. -/
def parentBufferSize : Nat := 128
def nameBufferSize : Nat := nameMax + 1

/-- The component scan: `current` holds the bytes of the component being read,
last byte first. -/
def componentsFrom (current : Name) : Name → List Name
  | [] => if current = [] then [] else [current.reverse]
  | c :: rest =>
      if c = slash then
        if current = [] then componentsFrom [] rest
        else current.reverse :: componentsFrom [] rest
      else componentsFrom (c :: current) rest

def components (path : Name) : List Name := componentsFrom [] path

/-- Trailing slashes are dropped as long as more than one byte is left. -/
def trimSlashes (path : Name) : Name :=
  match path.reverse.dropWhile (· = slash) with
  | [] => path.take 1
  | kept => kept.reverse

/-- `split_path`: the parent path and the last name, if both fit their buffers. -/
def splitPath (path : Name) : Option (Name × Name) :=
  if path = [] then none
  else
    let trimmed := trimSlashes path
    let name := (trimmed.reverse.takeWhile (· ≠ slash)).reverse
    match trimmed.reverse.dropWhile (· ≠ slash) with
    | [] => if nameBufferSize < trimmed.length + 1 then none else some ([dot], trimmed)
    | _ :: [] => if nameBufferSize < trimmed.length then none else some ([slash], name)
    | _ :: before =>
        if parentBufferSize < before.length + 1 then none
        else if nameBufferSize < name.length + 1 then none
        else some (before.reverse, name)

/-! ## Components -/

theorem componentsFrom_append_slash (before after : Name) :
    componentsFrom current (before ++ slash :: after) =
      componentsFrom current before ++ components after := by
  induction before generalizing current with
  | nil =>
    by_cases hc : current = [] <;> simp [componentsFrom, components, hc]
  | cons c before ih =>
    by_cases hs : c = slash
    · by_cases hc : current = [] <;> simp [componentsFrom, hs, hc, ih]
    · simp [componentsFrom, hs, ih]

theorem components_append_slash (before after : Name) :
    components (before ++ slash :: after) = components before ++ components after :=
  componentsFrom_append_slash [] before after

@[simp] theorem components_slash_cons : components (slash :: path) = components path :=
  components_append_slash [] path

theorem componentsFrom_of_notMem (name : Name) (h : slash ∉ name) (hne : current ≠ [] ∨ name ≠ []) :
    componentsFrom current name = [current.reverse ++ name] := by
  induction name generalizing current with
  | nil =>
    have hc : current ≠ [] := by simpa using hne
    simp [componentsFrom, hc]
  | cons c name ih =>
    have hc : c ≠ slash := fun heq => h (by simp [heq])
    have hrest : slash ∉ name := fun hmem => h (by simp [hmem])
    simp [componentsFrom, hc, ih (c :: current) hrest (Or.inl (by simp))]

theorem components_of_notMem {name : Name} (h : slash ∉ name) (hne : name ≠ []) :
    components name = [name] := componentsFrom_of_notMem [] name h (Or.inr hne)

theorem components_replicate_slash (n : Nat) :
    components (path ++ replicate n slash) = components path := by
  induction n with
  | zero => simp
  | succ n ih =>
    rw [replicate_succ', ← append_assoc, components_append_slash, ih]
    simp [components, componentsFrom]

theorem dropWhile_eq_slash :
    ∃ n, path.reverse = replicate n slash ++ path.reverse.dropWhile (· = slash) := by
  refine ⟨(path.reverse.takeWhile (· = slash)).length, ?_⟩
  have hall : path.reverse.takeWhile (· = slash) =
      replicate (path.reverse.takeWhile (· = slash)).length slash := by
    apply eq_replicate_of_mem
    intro c hc
    simpa using mem_takeWhile_imp hc
  rw [← hall]
  exact (takeWhile_append_dropWhile ..).symm

/-- Trimming removes only slashes, keeps the first byte, and leaves a trailing
slash only when nothing else is left. -/
theorem trimSlashes_spec (path : Name) (h : path ≠ []) :
    ∃ n, path = trimSlashes path ++ replicate n slash ∧ trimSlashes path ≠ [] ∧
      ∀ before, trimSlashes path = before ++ [slash] → before = [] := by
  obtain ⟨n, hn⟩ := dropWhile_eq_slash path
  have hhead := head?_dropWhile_not (fun b => decide (b = slash)) path.reverse
  unfold trimSlashes
  cases hkept : path.reverse.dropWhile (· = slash) with
  | nil =>
    rw [hkept, append_nil] at hn
    have hpath : path = replicate n slash := by rw [← reverse_reverse path, hn, reverse_replicate]
    rcases n with _ | n
    · exact absurd hpath h
    refine ⟨n, ?_, ?_, ?_⟩
    · simp [hpath, replicate_succ]
    · simp [hpath, replicate_succ]
    · intro before hbefore
      have hlen := congrArg length hbefore
      simp [hpath] at hlen
      exact hlen
  | cons c kept =>
    rw [hkept] at hn hhead
    refine ⟨n, ?_, by simp, ?_⟩
    · rw [← reverse_reverse path, hn]
      simp
    · intro before hbefore
      have hc : c = slash := by
        have hrev := congrArg reverse hbefore
        simp at hrev
        exact hrev.1
      simp [hc] at hhead

theorem components_trimSlashes (path : Name) (h : path ≠ []) :
    components (trimSlashes path) = components path := by
  obtain ⟨n, hn, -, -⟩ := trimSlashes_spec path h
  conv_rhs => rw [hn]
  exact (components_replicate_slash _ n).symm

theorem head_trimSlashes (h : path ≠ []) : (trimSlashes path).head? = path.head? := by
  obtain ⟨n, hn, hne, -⟩ := trimSlashes_spec path h
  conv_rhs => rw [hn]
  rw [head?_append_of_ne_nil _ hne]

theorem lastSlash_cases : (slash ∉ path ∧ path.reverse.dropWhile (· ≠ slash) = []) ∨
      ∃ before, path = before.reverse ++
          slash :: (path.reverse.takeWhile (· ≠ slash)).reverse ∧
        path.reverse.dropWhile (· ≠ slash) = slash :: before := by
  have hsplit : path.reverse.takeWhile (· ≠ slash) ++ path.reverse.dropWhile (· ≠ slash) =
      path.reverse := takeWhile_append_dropWhile ..
  rcases hdrop : path.reverse.dropWhile (· ≠ slash) with _ | ⟨c, before⟩
  · left
    refine ⟨?_, rfl⟩
    intro hmem
    have hall := dropWhile_eq_nil_iff.mp hdrop slash (mem_reverse.mpr hmem)
    simp at hall
  right
  have hc : c = slash := by
    have hhead := head?_dropWhile_not (fun b => decide (b ≠ slash)) path.reverse
    rw [hdrop] at hhead
    simpa using hhead
  refine ⟨before, ?_, by rw [hc]⟩
  rw [hdrop, hc] at hsplit
  conv_lhs => rw [← reverse_reverse path, ← hsplit]
  simp

theorem slash_notMem_lastName : slash ∉ (path.reverse.takeWhile (· ≠ slash)).reverse := by
  intro hmem
  have h := mem_takeWhile_imp (mem_reverse.mp hmem)
  simp at h

structure Split (path parent name : Name) : Prop where
  path_ne : path ≠ []
  parent_ne : parent ≠ []
  parent_fits : parent.length < parentBufferSize
  name_fits : name.length ≤ nameMax
  name_plain : slash ∉ name
  absolute : parent.head? = some slash ↔ path.head? = some slash
  nameless : name = [] → components path = []
  last : name ≠ [] → (parent = [dot] ∧ components path = [name]) ∨
    components path = components parent ++ [name]

theorem splitPath_spec {path parent name : Name} (h : splitPath path = some (parent, name)) :
    Split path parent name := by
  unfold splitPath at h
  split_ifs at h with hpath
  dsimp only at h
  have hhead := head_trimSlashes path hpath
  have hcomp := components_trimSlashes path hpath
  obtain ⟨-, -, htrim, hend⟩ := trimSlashes_spec path hpath
  have hplain := slash_notMem_lastName (trimSlashes path)
  generalize trimSlashes path = trimmed at *
  obtain ⟨hno, hdrop⟩ | ⟨before, hcut, hdrop⟩ := lastSlash_cases trimmed
  · -- no slash at all
    simp only [hdrop] at h
    split_ifs at h with hfits
    cases h
    refine ⟨hpath, by simp, by decide, ?_, hno, ?_, fun hnil => absurd hnil htrim, ?_⟩
    · simp only [nameBufferSize] at hfits
      omega
    · rw [← hhead]
      constructor
      · intro hdot
        simp [dot, slash] at hdot
      · intro hs
        exact absurd (mem_of_head? hs) hno
    · intro hne
      exact Or.inl ⟨rfl, hcomp ▸ components_of_notMem hno hne⟩
  · have hlast : ∀ name, trimmed = before.reverse ++ slash :: name → slash ∉ name → name ≠ [] →
        components path = components before.reverse ++ [name] := by
      intro name heq hname hne
      rw [← hcomp, heq, components_append_slash, components_of_notMem hname hne]
    generalize (trimmed.reverse.takeWhile (· ≠ slash)).reverse = last at *
    simp only [hdrop] at h
    cases before with
    | nil =>
      -- the only slash is the leading one
      simp only at h
      split_ifs at h with hfits
      cases h
      refine ⟨hpath, by simp, by decide, ?_, hplain, ?_, ?_, ?_⟩
      · have hlen := congrArg length hcut
        simp only [nameBufferSize, reverse_nil, nil_append, length_cons] at *
        omega
      · rw [← hhead, hcut]
        simp
      · intro hnil
        rw [← hcomp, hcut, hnil]
        simp [components, componentsFrom]
      · intro hne
        right
        rw [hlast _ hcut hplain hne]
        simp [components, componentsFrom]
    | cons c before =>
      simp only at h
      split_ifs at h
      rename_i hparent hfits
      cases h
      refine ⟨hpath, by simp, ?_, ?_, hplain, ?_, ?_, ?_⟩
      · simp only [length_reverse]
        omega
      · simp only [nameBufferSize] at hfits
        omega
      · rw [← hhead]
        conv_rhs => rw [hcut]
        rw [head?_append_of_ne_nil _ (by simp)]
      · intro hnil
        rw [hnil] at hcut
        have hbefore := hend _ hcut
        simp at hbefore
      · intro hne
        exact Or.inr (hlast _ hcut hplain hne)

end XsCore.Vfs
