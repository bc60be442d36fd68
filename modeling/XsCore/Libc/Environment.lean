import XsCore.Foundation.Machine
import XsCore.Libc.Strtol

/-! # The environment

`getenv`, `setenv`, `unsetenv` and `putenv` of `userspace/libc/src/syscall.c`.  The first call that
changes something copies the vector the process was started with, and every search takes the first
entry of a name.  If a vector has a name twice, the second is left after `unsetenv`.
-/

namespace XsCore.Libc

open Function List Machine

/-! ## The code -/

def environmentCapacity : Nat := 64

/-- The vector that `environ` points to; `owned_environment_count` is its length once it is owned
and 0 before. -/
structure Environment where
  environ : List (List UInt8)
  owned : Bool
  deriving DecidableEq

namespace Environment

variable (environ : List (List UInt8)) (name value : List UInt8) (copies room overwrite : Bool)
  (e : Environment)

def nameValid : Bool := name ≠ [] ∧ 61 ∉ name

def nameMatches (entry : List UInt8) : Bool := (name ++ [61]).isPrefixOf entry

def getenv : Option (List UInt8) :=
  if name = [] then none
  else (environ.find? (nameMatches name)).map (·.drop (name.length + 1))

/-- `copies` says whether `malloc` serves the copies of all entries. -/
def ensureOwned : Option Environment :=
  if e.owned then some e
  else if environmentCapacity ≤ e.environ.length then none
  else if copies then some ⟨e.environ, true⟩ else none

def findEntry : Option Nat :=
  if e.owned then e.environ.findIdx? (nameMatches name) else none

def setenv : Environment × Option Errno :=
  if nameValid name = false then (e, some .invalid)
  else if 2 ^ 64 - 3 - value.length < name.length then (e, some .noMemory)
  else if e.owned = false ∧ findEntry name e ≠ none ∧ overwrite = false then (e, none)
  else
    match ensureOwned copies e with
    | none => (e, some .noMemory)
    | some e =>
      if findEntry name e ≠ none ∧ overwrite = false then (e, none)
      else if room = false then (e, some .noMemory)
      else
        match findEntry name e with
        | some i => ({ e with environ := e.environ.set i (name ++ 61 :: value) }, none)
        | none =>
          if environmentCapacity ≤ e.environ.length + 1 then (e, some .noMemory)
          else ({ e with environ := e.environ ++ [name ++ 61 :: value] }, none)

def unsetenv : Environment × Option Errno :=
  if nameValid name = false then (e, some .invalid)
  else
    match ensureOwned copies e with
    | none => (e, some .noMemory)
    | some e =>
      match findEntry name e with
      | none => (e, none)
      | some i => ({ e with environ := e.environ.eraseIdx i }, none)

def putenv (string : List UInt8) : Environment × Option Errno :=
  let name := string.takeWhile (· ≠ 61)
  if 61 ∉ string ∨ name = [] ∨ 128 ≤ name.length then (e, some .invalid)
  else setenv name (string.drop (name.length + 1)) copies room true e

/-- A call, and what `malloc` does in it.  With a null pointer a call returns `EINVAL` at once. -/
inductive Call where
  | setenv (name value : List UInt8) (copies room overwrite : Bool)
  | unsetenv (name : List UInt8) (copies : Bool)
  | putenv (string : List UInt8) (copies room : Bool)

def call : Call → Environment × Option Errno
  | .setenv name value copies room overwrite => setenv name value copies room overwrite e
  | .unsetenv name copies => unsetenv name copies e
  | .putenv string copies room => putenv copies room e string

def step (e : Environment) (c : Call) : Environment := (e.call c).1

/-! ## The map -/

def view : Option (List UInt8) := if nameValid name then getenv environ name else none

/-- What a call that succeeds does to the map of names. -/
def Call.meaning (m : List UInt8 → Option (List UInt8)) : Call → List UInt8 → Option (List UInt8)
  | .setenv name value _ _ overwrite =>
    if m name ≠ none ∧ overwrite = false then m else update m name (some value)
  | .unsetenv name _ => update m name none
  | .putenv string _ _ =>
    let name := string.takeWhile (· ≠ 61)
    update m name (some (string.drop (name.length + 1)))

/-- From the vector to the outcome of a call, the map changes as given, or the call fails and
nothing of it changes. -/
def Acts (m : List UInt8 → Option (List UInt8)) (r : Environment × Option Errno) : Prop :=
  view r.1.environ = if r.2 = none then m else view environ

def Maps (c : Call) : Prop := Acts e.environ (c.meaning (view e.environ)) (e.call c)

/-- The map after a call: its meaning if it succeeds. -/
def follow (c : Call) (m : List UInt8 → Option (List UInt8)) : List UInt8 → Option (List UInt8) :=
  if (e.call c).2 = none then c.meaning m else m

/-- A name that is removed stands in the vector once. -/
def Once : Call → Prop
  | .unsetenv name copies => nameValid name = true → ensureOwned copies e ≠ none →
      e.environ.countP (nameMatches name) ≤ 1
  | _ => True

section Entries

variable {environ name copies e} {entry : List UInt8} {front olds news back : List (List UInt8)}
  {e' : Environment} (hname : nameValid name)
include hname

theorem takeWhile_of_matches (h : nameMatches name entry) : entry.takeWhile (· ≠ 61) = name := by
  obtain ⟨rest, rfl⟩ := isPrefixOf_iff_prefix.mp h
  rw [append_assoc, takeWhile_append_of_pos]
  · simp
  · intro c hc
    simpa using fun heq : c = 61 => (of_decide_eq_true hname).2 (heq ▸ hc)

theorem view_eq_none : view environ name = none ↔ ∀ a ∈ environ, ¬ nameMatches name a := by
  rw [view, if_pos hname, getenv, if_neg (of_decide_eq_true hname).1]
  simp

/-- Entries of one name in place of others of that name, with none before. -/
theorem splice_view (hfront : ∀ a ∈ front, ¬ nameMatches name a)
    (holds : ∀ a ∈ olds, nameMatches name a) (hnews : ∀ a ∈ news, nameMatches name a) :
    view (front ++ (news ++ back)) =
      update (view (front ++ (olds ++ back))) name (view (news ++ back) name) := by
  funext other
  rw [update_apply]
  split_ifs with heq
  · rw [heq, view, view, if_pos hname, if_pos hname, getenv, getenv, find?_append,
      find?_eq_none.mpr hfront, Option.none_or]
  unfold view getenv
  split_ifs with hother
  · rfl
  · have hmiss : ∀ a, nameMatches name a → ¬ nameMatches other a := fun a ha ha' =>
      heq ((takeWhile_of_matches hother ha').symm.trans (takeWhile_of_matches hname ha))
    rw [find?_append, find?_append, find?_append, find?_append,
      find?_eq_none.mpr fun a ha => hmiss a (hnews a ha),
      find?_eq_none.mpr fun a ha => hmiss a (holds a ha)]
  · rfl

/-- A new entry in the place of the one with its name, or of none. -/
theorem store_view (hfront : ∀ a ∈ front, ¬ nameMatches name a)
    (holds : ∀ a ∈ olds, nameMatches name a) (value : List UInt8) :
    view (front ++ ([name ++ 61 :: value] ++ back)) =
      update (view (front ++ (olds ++ back))) name (some value) := by
  have hentry : nameMatches name (name ++ 61 :: value) :=
    isPrefixOf_iff_prefix.mpr ⟨value, by simp⟩
  rw [splice_view hname hfront holds (by simpa using hentry), view, if_pos hname, getenv,
    if_neg (of_decide_eq_true hname).1, singleton_append, find?_cons_of_pos hentry]
  simp

omit hname

theorem findEntry_none (h : findEntry name ⟨environ, true⟩ = none) :
    ∀ a ∈ environ, ¬ nameMatches name a := by
  simpa [findEntry] using h

theorem findEntry_some {i : Nat} (h : findEntry name ⟨environ, true⟩ = some i) :
    ∃ front old back, environ = front ++ ([old] ++ back) ∧ i = front.length ∧
      (∀ a ∈ front, ¬ nameMatches name a) ∧ ∀ a ∈ [old], nameMatches name a := by
  obtain ⟨hlt, hold, hfront⟩ := findIdx?_eq_some_iff_getElem.mp h
  change i < environ.length at hlt
  refine ⟨environ.take i, environ[i], environ.drop (i + 1), by simp, by simp; omega, ?_,
    by simpa using hold⟩
  intro a ha
  obtain ⟨j, hj, rfl⟩ := mem_iff_getElem.mp ha
  rw [getElem_take]
  exact hfront j (by simp at hj; omega)

theorem ensureOwned_eq (h : ensureOwned copies e = some e') : e' = ⟨e.environ, true⟩ := by
  unfold ensureOwned at h
  split_ifs at h with howned
  · cases h
    rw [← howned]
  · exact (Option.some.inj h).symm

/-! ## One call -/

theorem setenv_acts (name : List UInt8) (copies : Bool) (e : Environment) :
    Acts e.environ ((Call.setenv name value copies room overwrite).meaning (view e.environ))
      (setenv name value copies room overwrite e) := by
  generalize hm : (Call.setenv name value copies room overwrite).meaning (view e.environ) = m
  rw [Call.meaning] at hm
  unfold setenv
  split
  · rfl
  split
  · rfl
  split
  · rename_i hearly
    simp [findEntry, hearly.1] at hearly
  split
  · rfl
  rename_i hvalid _ _ _ e' hens
  obtain rfl := ensureOwned_eq hens
  have hname := Bool.eq_true_of_not_eq_false hvalid
  have hfound : view e.environ name = none ↔ findEntry name ⟨e.environ, true⟩ = none := by
    rw [view_eq_none hname]
    simp [findEntry]
  simp only [ne_eq, hfound] at hm
  generalize e.environ = environ at *
  split
  · rename_i hkept
    rw [if_pos hkept] at hm
    exact hm
  rename_i hchanged
  rw [if_neg hchanged] at hm
  subst hm
  split
  · rfl
  split
  · rename_i i hfind
    obtain ⟨front, old, back, rfl, rfl, hfront, hold⟩ := findEntry_some hfind
    rw [set_append_right _ _ le_rfl, Nat.sub_self]
    exact store_view hname hfront hold value
  rename_i hfind
  split
  · rfl
  have hstored : view (environ ++ ([name ++ 61 :: value] ++ [])) =
      update (view (environ ++ ([] ++ []))) name (some value) :=
    store_view hname (findEntry_none hfind) (fun _ ha => absurd ha not_mem_nil) value
  simpa [Acts] using hstored

/-- Only removing a name that stands in the vector twice is no operation on the map. -/
theorem maps_iff (e : Environment) (c : Call) : e.Maps c ↔ e.Once c := by
  cases c with
  | setenv name value copies room overwrite =>
    exact iff_of_true (setenv_acts value room overwrite name copies e) trivial
  | putenv string copies room =>
    refine iff_of_true ?_ trivial
    unfold Maps call putenv
    dsimp only
    split
    · rfl
    have hset := setenv_acts (string.drop ((string.takeWhile (· ≠ 61)).length + 1)) room true
      (string.takeWhile (· ≠ 61)) copies e
    rwa [Call.meaning, if_neg (by simp)] at hset
  | unsetenv name copies =>
    show Acts e.environ (update (view e.environ) name none) (unsetenv name copies e) ↔
      (nameValid name → ensureOwned copies e ≠ none → _ ≤ 1)
    unfold unsetenv
    split
    · rename_i hvalid
      exact iff_of_true rfl (by simp [hvalid])
    split
    · rename_i hens
      exact iff_of_true rfl (by simp [hens])
    rename_i hvalid _ e' hens
    have hname := Bool.eq_true_of_not_eq_false hvalid
    simp only [hname, hens, ne_eq, reduceCtorEq, not_false_eq_true, forall_const]
    obtain rfl := ensureOwned_eq hens
    generalize e.environ = environ at *
    split
    · rename_i hfind
      have hnone := findEntry_none hfind
      refine iff_of_true ?_ (by rw [countP_eq_zero.mpr hnone]; exact Nat.zero_le 1)
      exact (update_eq_self_iff.mpr ((view_eq_none hname).mpr hnone).symm).symm
    rename_i i hfind
    obtain ⟨front, old, back, rfl, rfl, hfront, hold⟩ := findEntry_some hfind
    rw [eraseIdx_append_of_length_le le_rfl, Nat.sub_self, countP_append, countP_append,
      countP_eq_zero.mpr hfront, countP_eq_length.mpr hold, length_singleton]
    show view (front ++ ([] ++ back)) = update _ name none ↔ _
    rw [splice_view hname hfront hold fun _ ha => absurd ha not_mem_nil, nil_append,
      (update_injective _ _).eq_iff, view_eq_none hname, ← countP_eq_zero]
    omega

theorem environment_map_iff (e : Environment) (calls : List Call) :
    (∀ n, view (run step e (calls.take n)).environ =
      shadow step follow e (view e.environ) (calls.take n)) ↔ Guarded step Once e calls :=
  shadow_eq_iff (v := view ∘ environ) maps_iff

/-- `A=1` and `A=2`: after `unsetenv` the second is found. -/
theorem second_value_left : call ⟨[[65, 61, 49], [65, 61, 50]], false⟩ (.unsetenv [65] true) =
      (⟨[[65, 61, 50]], true⟩, none) ∧ getenv [[65, 61, 50]] [65] = some [50] := by
  decide

end Entries

end Environment

end XsCore.Libc
