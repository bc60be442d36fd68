import XsCore.File.Tables

/-! # Creating descriptions

A creator takes its object, fills in a free description and installs it; when it fails, everything
it took goes back.  Every creator keeps `FilesOk`, with the one exception of the socket call.
-/

namespace XsCore.File

open XsCore.Ipc Function Multiset

variable {leak : Nat → Prop} {base : Base} {locals : Multiset Nat}
  {pledged : Multiset Handle} {k : Files} {f i t : Nat} {h : Handle} {table : Table}
variable {n j : Nat} {k' : Files}

/-- What holds after a call, by whether it succeeded. -/
structure Outcome {α : Type} (success : α → Files → Prop) (failure : Files → Prop)
    (r : Files × Except FdError α) : Prop where
  ok : ∀ k x, r = (k, .ok x) → success x k
  error : ∀ k e, r = (k, .error e) → failure k

section Outcome

variable {α : Type} {P : α → Files → Prop} {Q : Files → Prop}

theorem Outcome.success {x : α} (h : P x k) : Outcome P Q (k, .ok x) := by
  constructor
  · intro k' x' hr
    rw [← (Prod.mk.inj hr).1, ← Except.ok.inj (Prod.mk.inj hr).2]
    exact h
  · intro k' e hr
    exact absurd (Prod.mk.inj hr).2 (by simp)

theorem Outcome.failure {e : FdError} (h : Q k) :
    Outcome P Q ((k, .error e) : Files × Except FdError α) := by
  constructor
  · intro k' x hr
    exact absurd (Prod.mk.inj hr).2 (by simp)
  · intro k' e' hr
    rw [← (Prod.mk.inj hr).1]
    exact h

theorem Outcome.both {R : Files → Prop} {r : Files × Except FdError α}
    (hr : Outcome P Q r) (hs : ∀ x k, P x k → R k) (hf : ∀ k, Q k → R k) : R r.1 := by
  rcases r with ⟨k, e | x⟩
  · exact hf k (hr.error k e rfl)
  · exact hs x k (hr.ok k x rfl)

end Outcome

/-! ## Creators -/

theorem Files.fileAllocate_spec (hi : k.fileAllocate = some i) :
    i < filePoolSize ∧ (k.files i).references = 0 ∧ (k.files i).object = none := by
  have hmem := List.mem_of_find?_eq_some hi
  have hfree := List.find?_some hi
  exact ⟨List.mem_range.mp hmem, by simpa using hfree⟩

theorem Files.files_setFile (k : Files) (i : Nat) (d : Description) :
    (k.setFile i d).files i = d := by
  simp [Files.setFile]

variable {o : Objects} {d : Description} {p : Nat}

section

variable (hk : FilesOk leak base locals pledged k)
include hk

theorem FilesOk.setObjects
    {pledged' : Multiset Handle} (hqueue : queued o.sockets = queued k.objects.sockets)
    (hbacked : Backed base (k.live + pledged') o) :
    FilesOk leak base locals pledged' { k with objects := o } where
  sound :=
    { hk.sound with
      counted := by
        rw [hqueue]
        exact hk.sound.counted
      passed := by
        rw [hqueue]
        exact hk.sound.passed
      log := hk.sound.log
      backed := hbacked }
  tables := hk.tables

theorem FilesOk.pledge (hqueue : queued o.sockets = queued k.objects.sockets)
    (hbacked : Backed base (h ::ₘ (k.live + pledged)) o) :
    FilesOk leak base locals (h ::ₘ pledged) { k with objects := o } :=
  hk.setObjects hqueue (by rwa [add_cons])

omit hk in
theorem FilesOk.unpledge (hk : FilesOk leak base locals (h ::ₘ pledged) k)
    (hqueue : queued o.sockets = queued k.objects.sockets)
    (hbacked : Backed base (h ::ₘ (k.live + pledged)) k.objects →
      Backed base (k.live + pledged) o) :
    FilesOk leak base locals pledged { k with objects := o } := by
  have hbefore := hk.sound.backed
  rw [add_cons] at hbefore
  exact hk.setObjects hqueue (hbacked hbefore)

theorem FilesOk.setFile {leak' : Nat → Prop} (hzero : (k.files i).references = 0)
    (hd : d.references = 0) (hleak : ∀ j ≠ i, leak j → leak' j)
    (hslot : leak' i ∨ d.object = none) : FilesOk leak' base locals pledged (k.setFile i d) :=
  ⟨hk.sound.setFile hzero hd hleak hslot, hk.tables⟩

end

structure Installed (k : Files) (t i flags d : Nat) (k' : Files) : Prop where
  files : k'.files = (k.fileAcquire i).files
  objects : k'.objects = k.objects
  slot : k'.slot t d = some ⟨some i, flags⟩

/-- Nothing but the size of a table has changed. -/
structure Unchanged (k : Files) (t : Nat) (k' : Files) : Prop where
  files : k'.files = k.files
  objects : k'.objects = k.objects
  slots : ∀ d slot, k.slot t d = some slot → k'.slot t d = some slot

theorem Files.slot_setTable (hn : k.tables[t]? = some table) (grown : Table) (d : Nat) :
    (k.setTable t grown).slot t d = grown.slots[d]? := by
  have ht : t < k.tables.length := (List.getElem?_eq_some_iff.mp hn).1
  simp [Files.slot, Files.setTable, ht]

theorem Grown.slot {grown : Table} (h : Grown table grown) {d : Nat} {slot : Slot}
    (hd : table.slots[d]? = some slot) : grown.slots[d]? = some slot := by
  obtain ⟨n, hn⟩ := h.slots
  have hlt : d < table.slots.length := (List.getElem?_eq_some_iff.mp hd).1
  rw [hn, List.getElem?_append_left hlt, hd]

theorem Unchanged.grown {grown : Table} (hn : k.tables[t]? = some table)
    (hgrown : Grown table grown) : Unchanged k t (k.setTable t grown) where
  files := rfl
  objects := rfl
  slots d slot hd := by
    rw [Files.slot_setTable hn]
    rw [Files.slot, hn] at hd
    exact hgrown.slot hd

/-- `fd_install` of a description without references: it becomes live, or nothing but the size of
the table has changed. -/
theorem FilesOk.fdInstall (leak' : Nat → Prop) (hk : FilesOk leak base locals (h ::ₘ pledged) k)
    (t : Nat) (heap : Nat → Bool) (hi : i < filePoolSize) (hzero : (k.files i).references = 0)
    (hh : (k.files i).handle = some h) (hleak : ∀ j ≠ i, leak j → leak' j) (flags : Nat) :
    Outcome (fun d k' => FilesOk leak' base locals pledged k' ∧ Installed k t i flags d k')
      (fun k' => FilesOk leak base locals (h ::ₘ pledged) k' ∧ Unchanged k t k')
      (k.fdInstall t heap i flags) := by
  unfold Files.fdInstall
  rcases ht : k.tables[t]? with _ | table
  · exact .failure ⟨hk, rfl, rfl, fun _ _ hd => hd⟩
  have hclaim := Table.claim_spec heap 0 fdMax table
  dsimp only
  generalize table.claim heap 0 fdMax = result at hclaim ⊢
  rcases result with ⟨grown, e | d⟩
  · exact .failure ⟨hk.grown ht hclaim.1, .grown ht hclaim.1⟩
  obtain ⟨slot, hslot, hfree⟩ := hclaim.2 d rfl
  have hlt : d < grown.slots.length := (List.getElem?_eq_some_iff.mp hslot).1
  refine .success ⟨hk.first hi hzero hh hleak ht hclaim.1 hslot hfree flags, rfl, rfl, ?_⟩
  show (k.setTable t (grown.put d ⟨some i, flags⟩)).slot t d = _
  rw [Files.slot_setTable ht]
  simp [Table.put, hlt]

/-- The common course of the creators, for a handle that has been pledged. -/
theorem FilesOk.openFile (hk : FilesOk leak base locals (h ::ₘ pledged) k) (t : Nat)
    (heap : Nat → Bool) (hd : d.references = 0) (hh : d.handle = some h) (flags : Nat) :
    Outcome (fun _ => FilesOk leak base locals pledged)
      (fun k' => FilesOk leak base locals (h ::ₘ pledged) k' ∧ k'.objects = k.objects)
      (k.openFile t heap d flags) := by
  unfold Files.openFile
  rcases halloc : k.fileAllocate with _ | i
  · exact .failure ⟨hk, rfl⟩
  have hfree := Files.fileAllocate_spec halloc
  have hfilled : FilesOk (fun j => leak j ∨ j = i) base locals (h ::ₘ pledged) (k.setFile i d) :=
    hk.setFile hfree.2.1 hd (fun _ _ => .inl) (.inl (.inr rfl))
  have hfile : (k.setFile i d).files i = d := k.files_setFile i d
  have hinstall := hfilled.fdInstall leak t heap hfree.1 (by rw [hfile, hd]) (by rw [hfile, hh])
    (fun j hj hjf => hjf.resolve_right hj) flags
  dsimp only
  generalize (k.setFile i d).fdInstall t heap i flags = result at hinstall ⊢
  rcases result with ⟨k', e | fd⟩
  · have hfailed := hinstall.error k' e rfl
    have hzero : (k'.files i).references = 0 := by rw [hfailed.2.files, hfile, hd]
    exact .failure ⟨hfailed.1.setFile hzero rfl (fun j hj hjf => hjf.resolve_right hj) (.inr rfl),
      hfailed.2.objects⟩
  · exact .success (hinstall.ok k' fd rfl).1

theorem FilesOk.openPlain (hk : FilesOk leak base locals pledged k) (hd : d.references = 0)
    (hh : d.handle = some h) (hplain : h.object.plain) (t : Nat) (heap : Nat → Bool)
    (flags : Nat) : FilesOk leak base locals pledged (k.openFile t heap d flags).1 := by
  have hpledged : FilesOk leak base locals (h ::ₘ pledged) k :=
    hk.pledge rfl (hk.sound.backed.plain hplain)
  refine (hpledged.openFile t heap hd hh flags).both (fun _ _ hopened => hopened) ?_
  intro k' hfailed
  exact hfailed.1.unpledge rfl fun hb => hb.unplain hplain

theorem describe_handle (object : Object) (readable writable : Bool) :
    (describe object readable writable).handle = some ⟨object, readable, writable⟩ := rfl

theorem Objects.nodeAcquire_sockets {o' : Objects} (h : o.nodeAcquire n = some o') :
    o'.sockets = o.sockets := by
  unfold Objects.nodeAcquire at h
  dsimp only at h
  split_ifs at h
  rw [← Option.some.inj h]

section

variable (hk : FilesOk leak base locals pledged k)
include hk

theorem FilesOk.openNode (hd : d.references = 0)
    (hh : d.handle = some h) (hobject : h.object = .vnode n ∨ h.object = .directory n) (t : Nat)
    (heap : Nat → Bool) : FilesOk leak base locals pledged (k.openNode t heap n d).1 := by
  unfold Files.openNode
  rcases hacquire : k.objects.nodeAcquire n with _ | o
  · exact hk
  have hpledged : FilesOk leak base locals (h ::ₘ pledged) { k with objects := o } :=
    hk.pledge (by rw [Objects.nodeAcquire_sockets hacquire])
      (hk.sound.backed.nodeAcquire hacquire hobject)
  have hopen := hpledged.openFile t heap hd hh 0
  dsimp only
  generalize Files.openFile t heap _ d 0 = result at hopen ⊢
  rcases result with ⟨k', e | fd⟩
  · have hgiven : queued (k'.objects.nodeRelease n).sockets = queued k'.objects.sockets := by
      rw [Objects.nodeRelease_sockets]
    exact (hopen.error k' e rfl).1.unpledge hgiven fun hb => hb.nodeRelease hobject
  · exact hopen.ok k' fd rfl

theorem FilesOk.openDirectory (t : Nat) (heap : Nat → Bool) (n : Nat) :
    FilesOk leak base locals pledged (k.openDirectory t heap n).1 := by
  unfold Files.openDirectory
  split_ifs with hn
  · exact hk.openNode rfl (describe_handle _ _ _) (.inr rfl) t heap
  -- A directory outside the table: no count changes, on the way in or out.
  have hpledged : FilesOk leak base locals (⟨.directory n, true, false⟩ ::ₘ pledged) k :=
    hk.pledge rfl (hk.sound.backed.outside (by omega) (.inr rfl))
  have hopen := hpledged.openFile t heap rfl (describe_handle _ _ _) 0
  refine hopen.both (fun _ _ hopened => hopened) fun k' hfailed => ?_
  refine hfailed.1.unpledge rfl fun hb => ?_
  have hreleased := hb.nodeRelease (n := n) (.inr rfl)
  rwa [Objects.nodeRelease, if_pos (by omega)] at hreleased

theorem FilesOk.openPtmx (t : Nat) (heap : Nat → Bool) (device : Bool) :
    FilesOk leak base locals pledged (k.openPtmx t heap device).1 := by
  unfold Files.openPtmx
  rcases hfind : (List.range ptyMax).find? fun n => !(k.objects.ptys n).inUse with _ | n
  · exact hk
  have hfree : (k.objects.ptys n).inUse = false := by simpa using List.find?_some hfind
  have hnone := (hk.sound.backed.ptys n).unused hfree
  -- Without its master the terminal has no handle left.
  have hback : ∀ (k' : Files) (pty : Pty),
      FilesOk leak base locals (⟨.ptyMaster n, true, true⟩ ::ₘ pledged) k' → pty.inUse = false →
      tally (k'.live + pledged) (.master n) = 0 → tally (k'.live + pledged) (.slave n) = 0 →
      FilesOk leak base locals pledged (k'.setPty n pty) := by
    intro k' pty hk' huse hm hs
    refine hk'.unpledge rfl fun hb => hb.setPty (fun r hrm hrs => ?_) (.of_unused huse hm hs)
    rw [tally_cons, Handle.plays_pty hrm hrs (.inl rfl)]
    simp
  have hpledged : FilesOk leak base locals (⟨.ptyMaster n, true, true⟩ ::ₘ pledged)
      (k.setPty n freshPty) := hk.pledge rfl (hk.sound.backed.newPty hfree true true)
  rcases device with _ | _
  · have hagain := hback (k.setPty n freshPty) { freshPty with inUse := false } hpledged rfl
      hnone.1 hnone.2
    exact hagain
  have hopen := hpledged.openFile t heap rfl (describe_handle _ _ _) 0
  simp only [Bool.not_true, Bool.false_eq_true, if_false]
  generalize (k.setPty n freshPty).openFile t heap _ 0 = result at hopen ⊢
  rcases result with ⟨k', e | fd⟩
  · have hfailed := hopen.error k' e rfl
    have hobjects : k'.objects = (k.setPty n freshPty).objects := hfailed.2
    have hpty : k'.objects.ptys n = freshPty := by
      rw [hobjects]
      simp [Files.setPty]
    have hcounts := hfailed.1.sound.backed.ptys n
    rw [hpty, add_cons] at hcounts
    have hmasters := hcounts.masters rfl
    have hslaves := hcounts.slaves rfl
    rw [tally_cons] at hmasters hslaves
    simp only [freshPty, Handle.plays, decide_true, if_true] at hmasters hslaves
    exact hback k' _ hfailed.1 rfl (by omega) (by omega)
  · exact hopen.ok k' fd rfl

theorem FilesOk.openPts (t : Nat) (heap : Nat → Bool) (n : Nat) (readable writable : Bool) :
    FilesOk leak base locals pledged (k.openPts t heap n readable writable).1 := by
  unfold Files.openPts
  split_ifs with hrefuse
  · exact hk
  rw [not_or, not_or] at hrefuse
  have huse : (k.objects.ptys n).inUse := by simpa using hrefuse.2.1
  rcases halloc : k.fileAllocate with _ | i
  · exact hk
  have hpledged : FilesOk leak base locals (⟨.ptySlave n, readable, writable⟩ ::ₘ pledged)
      (k.setPty n (k.objects.ptys n).addSlave) :=
    hk.pledge rfl (hk.sound.backed.newSlave huse readable writable)
  have hopen := hpledged.openFile t heap rfl (describe_handle (.ptySlave n) readable writable) 0
  unfold Files.openFile at hopen
  rw [show (k.setPty n _).fileAllocate = some i from halloc] at hopen
  dsimp only at hopen ⊢
  generalize Files.fdInstall t heap _ i 0 = result at hopen ⊢
  rcases result with ⟨k', e | fd⟩
  · obtain ⟨hfailed, hobjects⟩ := hopen.error _ e rfl
    have hpty : k'.objects.ptys n = (k.objects.ptys n).addSlave := by
      rw [show k'.objects = _ from hobjects]
      simp [Files.setPty]
    refine hfailed.unpledge rfl fun hb => hb.setPty (fun r hm hs => ?_) ?_
    · rw [tally_cons, Handle.plays_pty hm hs (.inr rfl)]
      simp
    · have hcounts : PtyBacked _ n (k'.objects.ptys n) := hb.ptys n
      rw [hpty] at hcounts ⊢
      have hmasters := hcounts.masters huse
      have hslaves := hcounts.slaves huse
      rw [tally_cons] at hmasters hslaves
      simp only [Pty.addSlave, Handle.plays, decide_true, if_true] at hmasters hslaves
      have hbefore := hk.sound.backed.ptys n
      have hsome := hbefore.used.mp huse
      rw [← hbefore.masters huse, ← hbefore.slaves huse] at hsome
      simp only [reduceCtorEq, decide_false, Bool.false_eq_true, if_false] at hmasters
      refine ⟨fun _ => hmasters, fun _ => ?_, ?_⟩
      · show (k.objects.ptys n).slaves + 1 - 1 = _
        omega
      · simp only [Pty.addSlave, huse, true_iff]
        omega
  · exact hopen.ok k' fd rfl

end

/-! ## Pipes -/

theorem Files.release_last (hf : f < filePoolSize) (hone : (k.files f).references = 1)
    (hh : (k.files f).handle = some h) (hflat : ∀ s, h.object ≠ .socket s) :
    (k.release f).objects = (k.objects.release h).1 ∧
      ∀ g ≠ f, (k.release f).files g = k.files g := by
  have hnil : (k.objects.release h).2 = [] := Objects.release_nil hflat
  unfold Files.release fileRelease
  rw [if_neg (by omega), if_pos ⟨hone, hf⟩, hh]
  simp only [Files.releaseObject, Files.setFile, hnil, List.foldl_nil]
  refine ⟨trivial, fun g hg => ?_⟩
  rw [update_of_ne hg, update_of_ne hg]

theorem FilesOk.dropPipe {ends : Multiset Handle} (hk : FilesOk leak base locals (ends + pledged) k)
    (hends : ∀ h ∈ ends, h = readEnd p ∨ h = writeEnd p)
    (hr : tally (k.live + pledged) (.reader p) = 0)
    (hw : tally (k.live + pledged) (.writer p) = 0) :
    FilesOk leak base locals pledged
      (k.setPipe p { k.objects.pipes p with inUse := false }) := by
  refine hk.setObjects rfl (hk.sound.backed.dropPipe (fun r hrr hrw => ?_) hr hw)
  have hnone : tally ends r = 0 := by
    unfold tally
    rw [countP_eq_zero]
    intro h hmem
    rcases hends h hmem with rfl | rfl
    · simp [readEnd, Handle.plays_pipe hrr hrw]
    · simp [writeEnd, Handle.plays_pipe hrr hrw]
  simp only [tally_add, hnone]
  omega

structure PipeFilled (leak : Nat → Prop) (base : Base) (locals : Multiset Nat)
    (pledged : Multiset Handle) (p i j : Nat) (k : Files) : Prop where
  ok : FilesOk (fun x => (leak x ∨ x = j) ∨ x = i) base locals
    (readEnd p ::ₘ writeEnd p ::ₘ pledged) k
  reader : (k.files i).references = 0 ∧ (k.files i).handle = some (readEnd p)
  writer : (k.files j).references = 0 ∧ (k.files j).handle = some (writeEnd p)
  pipe : ∃ ring, k.objects.pipes p = freshPipe ring

theorem FilesOk.pipeFilled (hk : FilesOk leak base locals pledged k) (hij : i ≠ j)
    (hfree : (k.objects.pipes p).inUse = false)
    (hfresh : base.rings p (k.objects.pipes p).ring.clear) (hi : (k.files i).references = 0)
    (hj : (k.files j).references = 0) (nonblock : Bool) : PipeFilled leak base locals pledged p i j
      (((k.setPipe p (freshPipe (k.objects.pipes p).ring)).setFile i
        { describe (.pipe p) true false with nonblock := nonblock }).setFile j
        { describe (.pipe p) false true with nonblock := nonblock }) := by
  have hpledged : FilesOk leak base locals (readEnd p ::ₘ writeEnd p ::ₘ pledged)
      (k.setPipe p (freshPipe (k.objects.pipes p).ring)) := by
    refine hk.setObjects rfl ?_
    rw [add_cons, add_cons]
    exact hk.sound.backed.newPipe hfree hfresh
  have hread : FilesOk (fun x => leak x ∨ x = i) base locals
      (readEnd p ::ₘ writeEnd p ::ₘ pledged)
      ((k.setPipe p (freshPipe (k.objects.pipes p).ring)).setFile i
        { describe (.pipe p) true false with nonblock := nonblock }) :=
    hpledged.setFile hi rfl (fun _ _ => .inl) (.inl (.inr rfl))
  constructor
  · refine hread.setFile ?_ rfl ?_ (.inl (.inl (.inr rfl)))
    · simpa [Files.setFile, Files.setPipe, update_of_ne hij.symm] using hj
    · exact fun x _ hx => hx.imp_left .inl
  · simp only [Files.setFile, update_of_ne hij, update_self]
    exact ⟨rfl, rfl⟩
  · simp only [Files.setFile, update_self]
    exact ⟨rfl, rfl⟩
  · exact ⟨(k.objects.pipes p).ring, by simp [Files.setFile, Files.setPipe]⟩

theorem PipeFilled.abandon (hk : PipeFilled leak base locals pledged p i j k)
    (hk' : FilesOk (fun x => (leak x ∨ x = j) ∨ x = i) base locals
      (readEnd p ::ₘ writeEnd p ::ₘ pledged) k') (hsame : Unchanged k t k') :
    FilesOk leak base locals pledged
      (((k'.setPipe p { k'.objects.pipes p with inUse := false }).setFile i .blank).setFile j
        .blank) := by
  obtain ⟨ring, hring⟩ := hk.pipe
  have hpipe := hk'.sound.backed.pipes p
  rw [hsame.objects, hring, add_cons, add_cons] at hpipe
  have hreaders := hpipe.readers rfl
  have hwriters := hpipe.writers rfl
  simp only [freshPipe, tally_cons, readEnd, writeEnd, Handle.plays, decide_true, Bool.and_true,
    Bool.and_false, Bool.false_eq_true, if_true, if_false] at hreaders hwriters
  have hends : FilesOk (fun x => (leak x ∨ x = j) ∨ x = i) base locals
      ((readEnd p ::ₘ {writeEnd p}) + pledged) k' := by
    simpa [cons_add] using hk'
  have hdropped := hends.dropPipe (fun h hh => by simpa using hh) (by omega) (by omega)
  refine (hdropped.setFile ?_ rfl (fun x hx hxi => hxi.resolve_right hx) (.inr rfl)).setFile ?_ rfl
    (fun x hx hxj => hxj.resolve_right hx) (.inr rfl)
  · show (k'.files i).references = 0
    rw [hsame.files]
    exact hk.reader.1
  · show (update k'.files i Description.blank j).references = 0
    rw [update_apply, hsame.files]
    split_ifs
    · rfl
    · exact hk.writer.1

theorem PipeFilled.retreat {d flags : Nat} {k'' : Files} (hij : i ≠ j) (hi : i < filePoolSize)
    (hk : PipeFilled leak base locals pledged p i j k) (hread : Installed k t i flags d k')
    (hk'' : FilesOk (fun x => leak x ∨ x = j) base locals (writeEnd p ::ₘ pledged) k'')
    (hsame : Unchanged k' t k'') : let cleared := (k''.putSlot t d .empty).release i
    FilesOk leak base locals pledged
      ((cleared.setPipe p { cleared.objects.pipes p with inUse := false }).setFile j .blank) := by
  intro cleared
  have hframe := k''.putSlot_frame t d .empty
  have hfiles : (k''.putSlot t d .empty).files = (k.fileAcquire i).files := by
    rw [hframe.1, hsame.files, hread.files]
  have hreader : (k''.putSlot t d .empty).files i =
      { k.files i with references := (k.files i).references + 1 } := by
    rw [hfiles]
    simp [Files.fileAcquire, Files.setFile]
  have hwriter : (k''.putSlot t d .empty).files j = k.files j := by
    rw [hfiles]
    simp [Files.fileAcquire, Files.setFile, update_of_ne hij.symm]
  have hhandle : ((k''.putSlot t d .empty).files i).handle = some (readEnd p) := by
    rw [hreader, ← hk.reader.2]
    rfl
  have hslot := hk''.clear (hsame.slots d _ hread.slot)
  have hcleared : FilesOk (fun x => leak x ∨ x = j) base locals (writeEnd p ::ₘ pledged) cleared :=
    hslot.release
  have hlast := Files.release_last (k := k''.putSlot t d .empty) hi
    (by rw [hreader, hk.reader.1]) hhandle (fun s => by simp [readEnd])
  obtain ⟨ring, hring⟩ := hk.pipe
  have hpipe : cleared.objects.pipes p = ⟨ring.clear, 0, 1, true⟩ := by
    rw [hlast.1, hframe.2.1, hsame.objects, hread.objects]
    simp [Objects.release, readEnd, hring, freshPipe, Pipe.close]
  have hcounts := hcleared.sound.backed.pipes p
  rw [hpipe, add_cons] at hcounts
  have hreaders := hcounts.readers rfl
  have hwriters := hcounts.writers rfl
  simp only [tally_cons, writeEnd, Handle.plays, decide_true, Bool.and_true, Bool.and_false,
    Bool.false_eq_true, if_true, if_false] at hreaders hwriters
  have hends : FilesOk (fun x => leak x ∨ x = j) base locals ({writeEnd p} + pledged) cleared := by
    simpa using hcleared
  have hdropped := hends.dropPipe (fun h hh => .inr (by simpa using hh)) (by omega) (by omega)
  refine hdropped.setFile ?_ rfl (fun x hx hxj => hxj.resolve_right hx) (.inr rfl)
  show (((k''.putSlot t d .empty).release i).files j).references = 0
  rw [hlast.2 j hij.symm, hwriter]
  exact hk.writer.1

theorem FilesOk.pipeCreate (hk : FilesOk leak base locals pledged k) (t : Nat) (heap : Nat → Bool)
    (cloexec nonblock : Bool) (hfresh : ∀ p, (k.objects.pipes p).inUse = false →
      base.rings p (k.objects.pipes p).ring.clear) :
    FilesOk leak base locals pledged (k.pipeCreate t heap cloexec nonblock).1 := by
  unfold Files.pipeCreate
  rcases hfind : (List.range pipePoolSize).find? fun p => !(k.objects.pipes p).inUse with _ | p
  · exact hk
  have hfree : (k.objects.pipes p).inUse = false := by simpa using List.find?_some hfind
  have hfilter : ∀ x ∈ (List.range filePoolSize).filter fun i =>
      decide ((k.files i).references = 0 ∧ (k.files i).object = none),
      x < filePoolSize ∧ (k.files x).references = 0 := by
    intro x hx
    rw [List.mem_filter, List.mem_range] at hx
    have hfree := of_decide_eq_true hx.2
    exact ⟨hx.1, hfree.1⟩
  have hnodup : ((List.range filePoolSize).filter fun i =>
      decide ((k.files i).references = 0 ∧ (k.files i).object = none)).Nodup :=
    List.nodup_range.filter _
  generalize (List.range filePoolSize).filter _ = free at hfilter hnodup ⊢
  rcases free with _ | ⟨i, _ | ⟨j, rest⟩⟩
  · exact hk
  · exact hk
  have hi := hfilter i (by simp)
  have hj := hfilter j (by simp)
  have hij : i ≠ j := by
    rintro rfl
    simp at hnodup
  have hfilled := hk.pipeFilled hij hfree (hfresh p hfree) hi.2 hj.2 nonblock
  dsimp only
  generalize ((k.setPipe p (freshPipe (k.objects.pipes p).ring)).setFile i _).setFile j _ = k₁
    at hfilled ⊢
  have hread := hfilled.ok.fdInstall (fun x => leak x ∨ x = j) t heap hi.1 hfilled.reader.1
    hfilled.reader.2 (fun x hx hxi => hxi.resolve_right hx) (if cloexec then fdCloexec else 0)
  generalize k₁.fdInstall t heap i _ = result at hread ⊢
  rcases result with ⟨k₂, e | rfd⟩
  · have hfailed := hread.error k₂ e rfl
    exact hfilled.abandon hfailed.1 hfailed.2
  have hopened := hread.ok k₂ rfd rfl
  have hwriter : k₂.files j = k₁.files j := by
    rw [hopened.2.files]
    simp [Files.fileAcquire, Files.setFile, update_of_ne hij.symm]
  have hwrite := hopened.1.fdInstall leak t heap hj.1 (by rw [hwriter, hfilled.writer.1])
    (by rw [hwriter, hfilled.writer.2]) (fun x hx hxj => hxj.resolve_right hx)
    (if cloexec then fdCloexec else 0)
  dsimp only
  generalize k₂.fdInstall t heap j _ = result at hwrite ⊢
  rcases result with ⟨k₃, e | wfd⟩
  · have hfailed := hwrite.error k₃ e rfl
    exact hfilled.retreat hij hi.1 hopened.2 hfailed.1 hfailed.2
  · exact (hwrite.ok k₃ wfd rfl).1

end XsCore.File
