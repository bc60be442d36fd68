import Mathlib.Algebra.GroupWithZero.Nat
import Mathlib.Data.List.TakeWhile
import Mathlib.Logic.Function.Iterate

/-!
# The password database

`akaos_account_set_password` and `akaos_account_verify` of `userspace/libc/src/account.c`, over the
bytes of `/etc/shadow`.  The digest of SHA-256 is a parameter; nothing depends on its value.
-/

namespace XsCore.Libc.Account

open Option

variable {front line field output file : List UInt8}

def accountFileMax : Nat := 4096
def passwordRounds : Nat := 4096
def passwordMax : Nat := 63

def newline : UInt8 := 10
def dollar : UInt8 := 36
def colon : UInt8 := 58

def hex : Vector UInt8 16 :=
  #v[48, 49, 50, 51, 52, 53, 54, 55, 56, 57, 97, 98, 99, 100, 101, 102]

def hexDigit (n : Nat) : UInt8 := hex.get (Fin.ofNat 16 n)

/-- The loop of `generate_salt`, which starts with a mix of its seed, the process number and an
address. -/
def saltLoop : Nat → UInt64 → List UInt8
  | 0, _ => []
  | n + 1, v =>
    let v := v ^^^ (v <<< 13)
    let v := v ^^^ (v >>> 7)
    let v := v ^^^ (v <<< 17)
    hexDigit v.toNat :: saltLoop n v

def generateSalt (v : UInt64) : List UInt8 := saltLoop 16 v

def records : List UInt8 → List (List UInt8)
  | [] => []
  | c :: rest =>
    if c = newline then [] :: records rest
    else match records rest with
      | [] => [[c]]
      | line :: lines => (c :: line) :: lines

/-- What follows the name and a colon, in a line of that name. -/
def fieldOf (name line : List UInt8) : Option (List UInt8) :=
  match line.dropWhile (· ≠ colon) with
  | [] => none
  | _ :: field => if line.takeWhile (· ≠ colon) = name then some field else none

def locked : List UInt8 → Bool
  | [] => true
  | c :: _ => c = 33 || c = 42

/-- The salt and the hash of a field; an unsalted hash has an empty salt. -/
def saltAndHash (field : List UInt8) : Option (List UInt8 × List UInt8) :=
  match field.dropWhile (· ≠ dollar) with
  | [] => if field.length = 64 then some ([], field) else none
  | _ :: hash =>
    let salt := field.takeWhile (· ≠ dollar)
    if 0 < salt.length ∧ salt.length ≤ 32 ∧ hash.length = 64 then some (salt, hash) else none

def shadowHash (name : List UInt8) : List (List UInt8) → Option (List UInt8 × List UInt8)
  | [] => none
  | line :: lines =>
    match fieldOf name line with
    | none => shadowHash name lines
    | some field =>
      if locked field then none
      else match saltAndHash field with
        | some found => some found
        | none => shadowHash name lines

def readFile (file : List UInt8) : List UInt8 := file.take (accountFileMax - 1)

/-- What opening the file for writing, which empties it, and the writes to it come to. -/
structure Device where
  opens : Bool
  takes : Nat

/-- A line of the account gives way to the new entry. -/
def replaced (name entry line : List UInt8) : List UInt8 :=
  if (fieldOf name line).isSome then entry else line

/-- The loop of `akaos_account_set_password`; it gives up when the buffer is full. -/
def rewriteLoop (name entry : List UInt8) : List (List UInt8) → List UInt8 → Option (List UInt8)
  | [], output => some output
  | line :: lines, output =>
    if output.length + (replaced name entry line).length + 1 ≥ accountFileMax then none
    else rewriteLoop name entry lines (output ++ (replaced name entry line ++ [newline]))

section Digest

variable (sha256 : List UInt8 → Vector UInt8 32)

def passwordHash (name salt password : List UInt8) : List UInt8 :=
  let tail := (if salt = [] then name else salt) ++ colon :: password
  let digest := (fun d => sha256 (d.toList ++ tail))^[passwordRounds - 1]
    (sha256 ([97, 107, 97, 79, 83, 58] ++ tail))
  digest.toList.flatMap fun b => [hexDigit (b.toNat / 16), hexDigit b.toNat]

def newField (v : UInt64) (name password : List UInt8) : List UInt8 :=
  generateSalt v ++ dollar :: passwordHash sha256 name (generateSalt v) password

/-- `akaos_account_verify`; there is no file if it cannot be read. -/
def verify (shadow : Option (List UInt8)) (name password : List UInt8) : Bool :=
  match shadow.bind fun file => shadowHash name (records (readFile file)) with
  | none => false
  | some (salt, expected) => expected = passwordHash sha256 name (salt.takeWhile (· ≠ 0)) password

/-- `akaos_account_set_password`: the file afterwards, and the result. -/
def setPassword (d : Device) (v : UInt64) (name password : List UInt8)
    (shadow : Option (List UInt8)) : Option (List UInt8) × Bool :=
  match shadow with
  | none => (none, false)
  | some file =>
    let lines := records (readFile file)
    if password.length > passwordMax then (shadow, false)
    else match rewriteLoop name (name ++ colon :: newField sha256 v name password) lines [] with
      | none => (shadow, false)
      | some output =>
        if !lines.any (fun line => (fieldOf name line).isSome) || !d.opens then (shadow, false)
        else (some (output.take d.takes), output.length ≤ d.takes)

/-- Setting a password changes nothing else, or nothing at all; a locked account stays locked. -/
structure Consistent (d : Device) (v : UInt64) (name password : List UInt8)
    (shadow : Option (List UInt8)) : Prop where
  accepted : (setPassword sha256 d v name password shadow).2 = true →
    verify sha256 (setPassword sha256 d v name password shadow).1 name password = true ∧
    ∀ other, other ≠ name → ∀ q, verify sha256 (setPassword sha256 d v name password shadow).1
      other q = verify sha256 shadow other q
  refused : (setPassword sha256 d v name password shadow).2 = false → ∀ other q,
    verify sha256 (setPassword sha256 d v name password shadow).1 other q =
      verify sha256 shadow other q
  lockedOut : ∀ file other field, shadow = some file →
    (records file).findSome? (fieldOf other) = some field → locked field = true →
    ∀ q, verify sha256 shadow other q = false

end Digest

/-! ## Lines and fields -/

/-- The bytes that mean something in a line, and the one that ends a string. -/
def marks : List UInt8 := [0, newline, 33, dollar, 42]

theorem hexDigit_plain (n : Nat) : hexDigit n ∉ marks := by
  have hall : ∀ i : Fin 16, hex.get i ∉ marks := by decide
  exact hall _

theorem saltLoop_plain (n : Nat) (v : UInt64) :
    (saltLoop n v).length = n ∧ ∀ c ∈ saltLoop n v, c ∉ marks := by
  induction n generalizing v with
  | zero => exact ⟨rfl, nofun⟩
  | succ n ih =>
    rw [saltLoop, List.length_cons, List.forall_mem_cons]
    exact ⟨congrArg (· + 1) (ih _).1, hexDigit_plain _, (ih _).2⟩

theorem passwordHash_plain (sha256 : List UInt8 → Vector UInt8 32)
    (name salt password : List UInt8) :
    (passwordHash sha256 name salt password).length = 64 ∧
      newline ∉ passwordHash sha256 name salt password := by
  constructor
  · simp [passwordHash, List.length_flatMap, List.map_const']
  · intro hmem
    obtain ⟨b, -, hb⟩ := List.mem_flatMap.mp hmem
    have hdigit : ∃ n, hexDigit n = newline := by
      rcases List.mem_cons.mp hb with hb | hb
      · exact ⟨_, hb.symm⟩
      · exact ⟨_, (List.mem_singleton.mp hb).symm⟩
    obtain ⟨n, hn⟩ := hdigit
    exact hexDigit_plain n (by rw [hn]; decide)

theorem cut_at {b : UInt8} (h : b ∉ front) (back : List UInt8) :
    (front ++ b :: back).takeWhile (· ≠ b) = front ∧
      (front ++ b :: back).dropWhile (· ≠ b) = b :: back := by
  have hfront : ∀ c ∈ front, decide (c ≠ b) := by
    intro c hc
    exact decide_eq_true fun heq => h (heq ▸ hc)
  rw [List.takeWhile_append_of_pos hfront, List.dropWhile_append_of_pos hfront]
  simp

theorem fieldOf_eq_some {name : List UInt8} :
    fieldOf name line = some field ↔ colon ∉ name ∧ line = name ++ colon :: field := by
  constructor
  · intro h
    rw [fieldOf] at h
    split at h
    · cases h
    next c rest hdrop =>
    have hc : c = colon := by
      have hhead := List.head?_dropWhile_not (· ≠ colon) line
      rw [hdrop] at hhead
      simpa using hhead
    split at h
    · next hname =>
      cases h
      constructor
      · intro hmem
        rw [← hname] at hmem
        simpa using List.mem_takeWhile_imp hmem
      · rw [← hc, ← hdrop, ← hname, List.takeWhile_append_dropWhile]
    · cases h
  · rintro ⟨hname, rfl⟩
    rw [fieldOf, (cut_at hname field).2]
    exact if_pos (cut_at hname field).1

theorem newField_spec (sha256 : List UInt8 → Vector UInt8 32) (v : UInt64)
    (name password : List UInt8) : saltAndHash (newField sha256 v name password) =
        some (generateSalt v, passwordHash sha256 name (generateSalt v) password) ∧
      locked (newField sha256 v name password) = false ∧
      newline ∉ newField sha256 v name password ∧ (newField sha256 v name password).length = 81 ∧
      (generateSalt v).takeWhile (· ≠ 0) = generateSalt v := by
  have hlength : (generateSalt v).length = 16 := (saltLoop_plain 16 v).1
  have hsalt : ∀ c ∈ generateSalt v, c ∉ marks := (saltLoop_plain 16 v).2
  have hhash := passwordHash_plain sha256 name (generateSalt v) password
  rw [newField]
  generalize generateSalt v = salt, passwordHash sha256 name (generateSalt v) password = hash at *
  have hcut := cut_at (fun hmem => hsalt dollar hmem (by decide)) hash
  refine ⟨?_, ?_, ?_, ?_, ?_⟩
  · rw [saltAndHash, hcut.2]
    dsimp only
    rw [hcut.1, if_pos (by omega)]
  · cases salt with
    | nil => cases hlength
    | cons c salt =>
      have hc := hsalt c List.mem_cons_self
      simp only [marks, List.mem_cons, not_or] at hc
      simp [locked, hc]
  · simp only [List.mem_append, List.mem_cons, not_or]
    exact ⟨fun hmem => hsalt _ hmem (by decide), by decide, hhash.2⟩
  · rw [List.length_append, List.length_cons, hlength, hhash.1]
  · apply List.takeWhile_eq_self_iff.mpr
    intro c hc
    exact decide_eq_true fun hzero => hsalt c hc (hzero ▸ by decide)

theorem records_plain (file : List UInt8) : ∀ line ∈ records file, newline ∉ line := by
  induction file with
  | nil => exact nofun
  | cons c rest ih =>
    rw [records]
    split
    · exact List.forall_mem_cons.mpr ⟨List.not_mem_nil, ih⟩
    next hc =>
    generalize records rest = lines at ih
    cases lines with
    | nil => simpa using fun h => hc h.symm
    | cons line lines =>
      rw [List.forall_mem_cons] at ih ⊢
      exact ⟨List.not_mem_cons_of_ne_of_not_mem (fun h => hc h.symm) ih.1, ih.2⟩

theorem records_line (h : newline ∉ line) (rest : List UInt8) :
    records (line ++ newline :: rest) = line :: records rest := by
  induction line with
  | nil => exact if_pos rfl
  | cons c line ih =>
    rw [List.mem_cons, not_or] at h
    rw [List.cons_append, records, if_neg fun hc => h.1 hc.symm, ih h.2]

theorem records_flatten {lines : List (List UInt8)} (h : ∀ line ∈ lines, newline ∉ line) :
    records (lines.flatMap (· ++ [newline])) = lines := by
  induction lines with
  | nil => rfl
  | cons line lines ih =>
    rw [List.forall_mem_cons] at h
    rw [List.flatMap_cons, List.append_assoc, List.singleton_append, records_line h.1, ih h.2]

/-! ## A file that does not fit the buffer -/

/-- The lines that are left of a file that is cut off. -/
inductive Cut : List (List UInt8) → List (List UInt8) → Prop where
  | nil (lines : List (List UInt8)) : Cut lines []
  | last (line rest : List UInt8) (lines : List (List UInt8)) : Cut ((line ++ rest) :: lines) [line]
  | cons (line : List UInt8) {lines left : List (List UInt8)} (h : Cut lines left) :
      Cut (line :: lines) (line :: left)

theorem records_take (file : List UInt8) (n : Nat) : Cut (records file) (records (file.take n)) := by
  induction file generalizing n with
  | nil =>
    rw [List.take_nil]
    exact .nil []
  | cons c rest ih =>
    rcases n with _ | n
    · exact .nil _
    have ih := ih n
    rw [List.take_succ_cons, records, records]
    split
    · exact .cons [] ih
    generalize records rest = lines, records (rest.take n) = left at ih
    cases ih with
    | nil =>
      cases lines with
      | nil => exact .last [c] [] []
      | cons line lines => exact .last [c] line lines
    | last line more lines => exact .last (c :: line) more lines
    | cons line h => exact .cons (c :: line) h

theorem locked_of_append {back : List UInt8} (h : locked (front ++ back)) : locked front := by
  cases front with
  | nil => rfl
  | cons c front => exact h

theorem shadowHash_locked {name : List UInt8} {lines left : List (List UInt8)}
    (hcut : Cut lines left) (h : lines.findSome? (fieldOf name) = some field)
    (hlocked : locked field) : shadowHash name left = none := by
  induction hcut with
  | nil => rfl
  | last line rest lines =>
    rw [shadowHash]
    split
    · rfl
    next found hfound =>
    obtain ⟨hname, rfl⟩ := fieldOf_eq_some.mp hfound
    have hwhole : fieldOf name (name ++ colon :: found ++ rest) = some (found ++ rest) :=
      fieldOf_eq_some.mpr ⟨hname, by rw [List.append_assoc, List.cons_append]⟩
    rw [List.findSome?_cons_of_isSome (by rw [hwhole]; rfl), hwhole] at h
    rw [← some.inj h] at hlocked
    exact if_pos (locked_of_append hlocked)
  | cons line _ ih =>
    rw [shadowHash]
    rw [List.findSome?_cons] at h
    split
    · next hnone =>
      rw [hnone] at h
      exact ih h
    next found hfound =>
    rw [hfound] at h
    rw [some.inj h]
    exact if_pos hlocked

/-! ## Setting a password -/

section Set

variable {name entry : List UInt8} {lines : List (List UInt8)}

theorem rewriteLoop_eq {result : List UInt8} (h : rewriteLoop name entry lines output = some result)
    (hroom : output.length < accountFileMax) : result.length < accountFileMax ∧ result = output ++
      (lines.map (replaced name entry)).flatMap (· ++ [newline]) := by
  induction lines generalizing output with
  | nil =>
    cases h
    exact ⟨hroom, (List.append_nil _).symm⟩
  | cons line lines ih =>
    rw [rewriteLoop] at h
    split_ifs at h
    next hfits =>
    have hnext := ih h (by simp only [List.length_append, List.length_singleton]; omega)
    rw [List.map_cons, List.flatMap_cons, ← List.append_assoc]
    exact hnext

theorem shadowHash_other {other : List UInt8} (hne : other ≠ name) (hname : colon ∉ name)
    (lines : List (List UInt8)) :
    shadowHash other (lines.map (replaced name (name ++ colon :: field))) =
      shadowHash other lines := by
  have hnone : ∀ value, fieldOf other (name ++ colon :: value) = none := by
    intro value
    rw [fieldOf, (cut_at hname value).2]
    exact if_neg fun h => hne ((cut_at hname value).1 ▸ h).symm
  induction lines with
  | nil => rfl
  | cons line lines ih =>
    have hline : fieldOf other (replaced name (name ++ colon :: field) line) =
        fieldOf other line := by
      rw [replaced]
      cases hvalue : fieldOf name line with
      | none => rfl
      | some value =>
        rw [(fieldOf_eq_some.mp hvalue).2, hnone]
        exact hnone field
    rw [List.map_cons, shadowHash, shadowHash, ih, hline]

theorem shadowHash_self {found : List UInt8 × List UInt8} (hfound : saltAndHash field = some found)
    (hopen : locked field = false) (hany : lines.any (fun line => (fieldOf name line).isSome)) :
    shadowHash name (lines.map (replaced name (name ++ colon :: field))) = some found := by
  induction lines with
  | nil => cases hany
  | cons line lines ih =>
    rw [List.map_cons, shadowHash, replaced]
    rw [List.any_cons] at hany
    rcases hline : fieldOf name line with _ | value
    · rw [hline] at hany
      rw [if_neg (by simp), hline]
      exact ih hany
    have hself : fieldOf name (name ++ colon :: field) = some field :=
      fieldOf_eq_some.mpr ⟨(fieldOf_eq_some.mp hline).1, rfl⟩
    rw [if_pos isSome_some, hself]
    dsimp only
    rw [hopen, if_neg Bool.false_ne_true, hfound]

/-- The lines of the file after a set are the old ones, but for the account. -/
theorem records_rewritten (hentry : newline ∉ entry)
    (h : rewriteLoop name entry (records file) [] = some output) :
    records (readFile output) = (records file).map (replaced name entry) := by
  obtain ⟨hlength, houtput⟩ := rewriteLoop_eq h (by decide)
  rw [readFile, List.take_of_length_le (Nat.le_sub_one_of_lt hlength), houtput]
  apply records_flatten
  intro new hnew
  obtain ⟨old, hold, rfl⟩ := List.mem_map.mp hnew
  rw [replaced]
  split
  · exact hentry
  · exact records_plain _ old hold

theorem verify_rewritten (sha256 : List UInt8 → Vector UInt8 32)
    (v : UInt64) (password : List UInt8)
    (hany : (records (readFile file)).any (fun line => (fieldOf name line).isSome))
    (h : rewriteLoop name (name ++ colon :: newField sha256 v name password)
      (records (readFile file)) [] = some output) :
    verify sha256 (some output) name password ∧ ∀ other ≠ name, ∀ q,
      verify sha256 (some output) other q = verify sha256 (some file) other q := by
  obtain ⟨line, hline, hmatch⟩ := List.any_eq_true.mp hany
  obtain ⟨value, hvalue⟩ := isSome_iff_exists.mp hmatch
  obtain ⟨hname, hsplit⟩ := fieldOf_eq_some.mp hvalue
  obtain ⟨hfound, hopen, hplain, -, hstring⟩ := newField_spec sha256 v name password
  have hread := records_rewritten (by
    have hold := records_plain _ line hline
    rw [hsplit, List.mem_append, not_or] at hold
    simp only [List.mem_append, List.mem_cons, not_or]
    exact ⟨hold.1, by decide, hplain⟩) h
  constructor
  · rw [verify, bind_some, hread, shadowHash_self hfound hopen hany]
    dsimp only
    rw [hstring, decide_eq_true rfl]
  · intro other hne q
    rw [verify, verify, bind_some, bind_some, hread, shadowHash_other hne hname]

end Set

/-- The length of the file with the new entry: a name, a colon, salt and hash, or the old line. -/
def rewrittenLength (name : List UInt8) (lines : List (List UInt8)) : Nat :=
  (lines.map fun line =>
    (if (fieldOf name line).isSome then name.length + 82 else line.length) + 1).sum

/-- If a set comes so far as to empty the file, the device takes the new one. -/
def Device.TakesWhole (d : Device) (name password file : List UInt8) : Prop :=
  d.opens = true → password.length ≤ passwordMax →
    (records (readFile file)).any (fun line => (fieldOf name line).isSome) = true →
    rewrittenLength name (records (readFile file)) < accountFileMax →
    rewrittenLength name (records (readFile file)) ≤ d.takes

theorem length_rewritten (sha256 : List UInt8 → Vector UInt8 32) (v : UInt64)
    (name password : List UInt8) (lines : List (List UInt8)) :
    ((lines.map (replaced name (name ++ colon :: newField sha256 v name password))).flatMap
      (· ++ [newline])).length = rewrittenLength name lines := by
  obtain ⟨-, -, -, hlength, -⟩ := newField_spec sha256 v name password
  rw [rewrittenLength, List.length_flatMap, List.map_map]
  congr 2
  funext line
  simp only [Function.comp_apply, replaced, List.length_append, List.length_singleton]
  split <;> simp [hlength]

/-- A set is refused before the file is opened, or goes through if the device takes the file. -/
theorem setPassword_cases (sha256 : List UInt8 → Vector UInt8 32) (d : Device) (v : UInt64)
    (name password file : List UInt8) (hd : d.TakesWhole name password file) :
    setPassword sha256 d v name password (some file) = (some file, false) ∨ ∃ output,
      setPassword sha256 d v name password (some file) = (some output, true) ∧
      verify sha256 (some output) name password ∧ ∀ other ≠ name, ∀ q,
        verify sha256 (some output) other q = verify sha256 (some file) other q := by
  rw [setPassword]
  split
  · exact Or.inl rfl
  next hshort =>
  split
  · exact Or.inl rfl
  next output houtput =>
  split
  · exact Or.inl rfl
  next hready =>
  simp only [Bool.or_eq_true, Bool.not_eq_true', not_or, Bool.not_eq_false] at hready
  obtain ⟨hlength, heq⟩ := rewriteLoop_eq houtput (by decide)
  rw [heq, List.nil_append, length_rewritten] at hlength
  have htakes : output.length ≤ d.takes := by
    rw [heq, List.nil_append, length_rewritten]
    exact hd hready.2 (not_lt.mp hshort) hready.1 hlength
  refine Or.inr ⟨output, ?_, verify_rewritten sha256 v password hready.1 houtput⟩
  rw [List.take_of_length_le htakes, decide_eq_true htakes]

def lockedAccount : List UInt8 := [97, 58, 33, 10]

theorem rewriteLoop_one {name entry : List UInt8} (h : (fieldOf name line).isSome)
    (hfits : entry.length + 1 < accountFileMax) :
    rewriteLoop name entry [line] [] = some (entry ++ [newline]) := by
  rw [rewriteLoop, replaced, if_pos h, if_neg (by rw [List.length_nil]; omega), rewriteLoop,
    List.nil_append]

end XsCore.Libc.Account
