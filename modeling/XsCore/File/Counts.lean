import XsCore.File.Descriptors

/-! # References to descriptions

`Sound` relates the pool to the multiset of references that tables and calls hold: a count is the
number of references held and queued, and the objects are backed by the handles of the descriptions
that have references, together with handles pledged to descriptions about to be installed.
Acquiring and releasing keep it so.
-/

namespace XsCore.File

open XsCore.Ipc Function Multiset

variable (files : Nat → Description)

def Description.live (d : Description) : Multiset Handle :=
  if d.references = 0 then 0 else d.handle.elim 0 fun h => {h}

@[irreducible]
def liveOf (files : Nat → Description) : Multiset Handle :=
  ∑ i ∈ Finset.range filePoolSize, (files i).live

def Files.live (k : Files) : Multiset Handle := liveOf k.files

/-- `leak` are slots that may be taken without having a reference. -/
structure Sound (leak : Nat → Prop) (base : Base) (holders : Multiset Nat)
    (pledged : Multiset Handle) (k : Files) : Prop where
  counted : ∀ f, (k.files f).references = holders.count f + (queued k.objects.sockets).count f
  slots : ∀ i < filePoolSize, (k.files i).references = 0 → leak i ∨ (k.files i).object = none
  kinds : ∀ i < filePoolSize, (k.files i).references ≠ 0 → (k.files i).object ≠ none
  passed : ∀ f ∈ queued k.objects.sockets, ∀ s, (k.files f).object ≠ some (.socket s)
  log : (k.opened : Multiset Handle) = k.live + (k.released : Multiset Handle)
  backed : Backed base (k.live + pledged) k.objects

variable {leak leak' : Nat → Prop} {base : Base} {holders : Multiset Nat}
  {pledged : Multiset Handle} {k : Files} {f i : Nat} {h : Handle}

theorem liveOf_update (hi : i < filePoolSize) (d : Description) :
    liveOf (update files i d) + (files i).live = liveOf files + d.live := by
  unfold liveOf
  exact Tally.sum_range_update Description.live files hi d

theorem liveOf_update_outside (hi : filePoolSize ≤ i) (d : Description) :
    liveOf (update files i d) = liveOf files := by
  unfold liveOf
  refine Finset.sum_congr rfl fun j hj => ?_
  have hlt := Finset.mem_range.mp hj
  rw [update_of_ne (by omega)]

variable {d : Description}

theorem liveOf_update_same (hsame : d.live = (files i).live) :
    liveOf (update files i d) = liveOf files := by
  by_cases hi : i < filePoolSize
  · have hupdate := liveOf_update files hi d
    rw [hsame] at hupdate
    exact add_right_cancel hupdate
  · exact liveOf_update_outside files (by omega) d

theorem Description.live_zero (h : d.references = 0) : d.live = 0 := if_pos h

theorem Description.live_some (hd : d.references ≠ 0) (hh : d.handle = some h) : d.live = {h} := by
  rw [Description.live, if_neg hd, hh]
  rfl

theorem Description.handle_some (h : d.object ≠ none) : ∃ h, d.handle = some h := by
  cases hobject : d.object with
  | none => exact absurd hobject h
  | some object => exact ⟨⟨object, d.readable, d.writable⟩, by simp [Description.handle, hobject]⟩

section

variable (hs : Sound leak base holders pledged k)
include hs

theorem Sound.mono (hle : ∀ i, leak i → leak' i) : Sound leak' base holders pledged k :=
  { hs with slots := fun i hi hzero => (hs.slots i hi hzero).imp_left (hle i) }

theorem Sound.congr {k' : Files} (hfiles : k'.files = k.files) (hobjects : k'.objects = k.objects)
    (hopened : k'.opened = k.opened) (hreleased : k'.released = k.released) :
    Sound leak base holders pledged k' := by
  have hlive : k'.live = k.live := by rw [Files.live, Files.live, hfiles]
  constructor
  · rw [hfiles, hobjects]
    exact hs.counted
  · rw [hfiles]
    exact hs.slots
  · rw [hfiles]
    exact hs.kinds
  · rw [hfiles, hobjects]
    exact hs.passed
  · rw [hopened, hlive, hreleased]
    exact hs.log
  · rw [hlive, hobjects]
    exact hs.backed

theorem Sound.not_queued (hzero : (k.files f).references = 0) : f ∉ queued k.objects.sockets := by
  have hcount := hs.counted f
  exact count_eq_zero.mp (by omega)

theorem Sound.passed_update (hd : f ∈ queued k.objects.sockets → d.object = (k.files f).object) :
    ∀ g ∈ queued k.objects.sockets, ∀ s,
      (update k.files f d g).object ≠ some (.socket s) := by
  intro g hg s
  by_cases hgf : g = f
  · subst hgf
    rw [update_self, hd hg]
    exact hs.passed g hg s
  · rw [update_of_ne hgf]
    exact hs.passed g hg s

theorem Sound.slots_update (hleak : ∀ j ≠ i, leak j → leak' j)
    (hslot : i < filePoolSize → d.references = 0 → leak' i ∨ d.object = none) :
    ∀ j < filePoolSize, (update k.files i d j).references = 0 →
      leak' j ∨ (update k.files i d j).object = none := by
  intro j hj hzero
  rw [update_apply] at hzero ⊢
  split_ifs at hzero ⊢ with hji
  · subst hji
    exact hslot hj hzero
  · exact (hs.slots j hj hzero).imp_left (hleak j hji)

theorem Sound.kinds_update (hkind : i < filePoolSize → d.references ≠ 0 → d.object ≠ none) :
    ∀ j < filePoolSize, (update k.files i d j).references ≠ 0 →
      (update k.files i d j).object ≠ none := by
  intro j hj hused
  rw [update_apply] at hused ⊢
  split_ifs at hused ⊢ with hji
  · subst hji
    exact hkind hj hused
  · exact hs.kinds j hj hused

end

/-! ## Filling in a free description -/

theorem Sound.setFile (hs : Sound leak base holders pledged k) (hzero : (k.files i).references = 0)
    (hd : d.references = 0) (hleak : ∀ j ≠ i, leak j → leak' j)
    (hslot : leak' i ∨ d.object = none) : Sound leak' base holders pledged (k.setFile i d) := by
  have hlive : (k.setFile i d).live = k.live :=
    liveOf_update_same k.files (by rw [Description.live_zero hd, Description.live_zero hzero])
  constructor
  · intro f
    show (update k.files i d f).references = _
    by_cases hf : f = i
    · subst hf
      rw [update_self, hd, ← hzero]
      exact hs.counted f
    · rw [update_of_ne hf]
      exact hs.counted f
  · exact hs.slots_update hleak fun _ _ => hslot
  · exact hs.kinds_update fun _ hused => absurd hd hused
  · exact hs.passed_update fun hq => absurd hq (hs.not_queued hzero)
  · rw [hlive]
    exact hs.log
  · rw [hlive]
    exact hs.backed

/-! ## Acquiring -/

theorem count_cons_update (holders : Multiset Nat) (files : Nat → Description) (q : Multiset Nat)
    (hcounted : ∀ f, (files f).references = holders.count f + q.count f) (f : Nat)
    (hd : d.references = (files f).references + 1) (g : Nat) :
    (update files f d g).references = (f ::ₘ holders).count g + q.count g := by
  by_cases hg : g = f
  · subst hg
    rw [update_self, count_cons_self, hd, hcounted]
    omega
  · rw [update_of_ne hg, count_cons_of_ne hg]
    exact hcounted g

theorem Sound.acquire (hs : Sound leak base holders pledged k)
    (hf : (k.files f).references ≠ 0 ∨ filePoolSize ≤ f) :
    Sound leak base (f ::ₘ holders) pledged (k.fileAcquire f) := by
  have hopened : (k.fileAcquire f).opened = k.opened := by
    unfold Files.fileAcquire
    dsimp only
    rw [if_neg (by omega)]
  have hlive : (k.fileAcquire f).live = k.live := by
    rcases hf with hused | hconsole
    · refine liveOf_update_same k.files ?_
      simp [Description.live, Description.handle, hused]
    · exact liveOf_update_outside k.files hconsole _
  constructor
  · exact count_cons_update holders k.files _ hs.counted f rfl
  · exact hs.slots_update (fun _ _ => id) fun _ hzero => absurd hzero (Nat.succ_ne_zero _)
  · exact hs.kinds_update fun hlt _ => hs.kinds f hlt (by omega)
  · exact hs.passed_update fun _ => rfl
  · rw [hopened, hlive]
    exact hs.log
  · rw [hlive]
    exact hs.backed

theorem Sound.create (hs : Sound leak base holders (h ::ₘ pledged) k) (hi : i < filePoolSize)
    (hzero : (k.files i).references = 0) (hh : (k.files i).handle = some h)
    (hleak : ∀ j ≠ i, leak j → leak' j) :
    Sound leak' base (i ::ₘ holders) pledged (k.fileAcquire i) := by
  have hopened : (k.fileAcquire i).opened = h :: k.opened := by
    unfold Files.fileAcquire
    dsimp only
    rw [if_pos ⟨hzero, hi⟩, hh]
    rfl
  have hnew : ({ k.files i with references := (k.files i).references + 1 } : Description).live =
      {h} := Description.live_some (Nat.succ_ne_zero _) hh
  have hlive : (k.fileAcquire i).live = h ::ₘ k.live := by
    have hupdate := liveOf_update k.files hi
      { k.files i with references := (k.files i).references + 1 }
    rw [hnew, Description.live_zero hzero, add_zero] at hupdate
    show liveOf (update k.files i _) = _
    rw [hupdate, ← singleton_add, add_comm]
    rfl
  constructor
  · exact count_cons_update holders k.files _ hs.counted i rfl
  · exact hs.slots_update hleak fun _ hzero => absurd hzero (Nat.succ_ne_zero _)
  · refine hs.kinds_update fun _ _ hnone => ?_
    simp [Description.handle, show (k.files i).object = none from hnone] at hh
  · exact hs.passed_update fun _ => rfl
  · rw [hopened, hlive, ← cons_coe, hs.log, cons_add]
    rfl
  · rw [hlive, cons_add, ← add_cons]
    exact hs.backed

/-! ## Releasing -/

/-- What a release may do to a description. -/
def Shrinks (d d' : Description) : Prop :=
  d'.references ≤ d.references ∧ (d'.object = d.object ∨ d'.object = none)

theorem Shrinks.refl (d : Description) : Shrinks d d := ⟨le_rfl, .inl rfl⟩

theorem Shrinks.trans {d' d'' : Description} (h : Shrinks d d') (h' : Shrinks d' d'') :
    Shrinks d d'' := by
  refine ⟨Nat.le_trans h'.1 h.1, ?_⟩
  rcases h'.2 with hsame | hnone
  · rw [hsame]
    exact h.2
  · exact .inr hnone

theorem shrinks_foldl {release : Files → Nat → Files}
    (hrelease : ∀ k g f, Shrinks (k.files f) ((release k g).files f)) (gs : List Nat) (k : Files)
    (f : Nat) : Shrinks (k.files f) ((gs.foldl release k).files f) :=
  List.foldlRecOn (motive := fun k' => Shrinks (k.files f) (k'.files f)) gs release (.refl _)
    fun k' h g _ => h.trans (hrelease k' g f)

theorem shrinks_setFile (k : Files) {g : Nat} (hd : Shrinks (k.files g) d) (f : Nat) :
    Shrinks (k.files f) ((k.setFile g d).files f) := by
  show Shrinks (k.files f) (update k.files g d f)
  rw [update_apply]
  split_ifs with hf
  · subst hf
    exact hd
  · exact .refl _

theorem fileRelease_shrinks (n : Nat) (k : Files) (g f : Nat) :
    Shrinks (k.files f) ((fileRelease n k g).files f) := by
  induction n generalizing k g f with
  | zero => exact .refl _
  | succ n ih =>
    unfold fileRelease
    dsimp only
    let k' := k.setFile g { k.files g with references := (k.files g).references - 1 }
    have hless : Shrinks (k.files g)
        { k.files g with references := (k.files g).references - 1 } :=
      ⟨Nat.sub_le _ _, .inl rfl⟩
    have hfirst : Shrinks (k.files f) (k'.files f) := shrinks_setFile k hless f
    split
    · exact .refl _
    have hblank : ∀ k' : Files, Shrinks (k'.files g) .blank := fun _ => ⟨Nat.zero_le _, .inr rfl⟩
    split_ifs
    · cases (k.files g).handle with
      | none => exact hfirst.trans (shrinks_setFile k' (hblank _) f)
      | some h =>
        have hnested := shrinks_foldl ih (k'.releaseObject h).2 (k'.releaseObject h).1 f
        exact (hfirst.trans hnested).trans (shrinks_setFile _ (hblank _) f)
    · exact hfirst

theorem Objects.release_nil {o : Objects} (hflat : ∀ s, h.object ≠ .socket s) :
    (o.release h).2 = [] := by
  unfold Objects.release
  cases hobject : h.object with
  | socket s => exact absurd hobject (hflat s)
  | _ => rfl

theorem Sound.foldl_release {release : Files → Nat → Files} (gs : List Nat)
    (hshrinks : ∀ k g f, Shrinks (k.files f) ((release k g).files f))
    (hrelease : ∀ holders k g, Sound leak base (g ::ₘ holders) pledged k →
      (∀ s, (k.files g).object ≠ some (.socket s)) → Sound leak base holders pledged (release k g))
    (hs : Sound leak base ((gs : Multiset Nat) + holders) pledged k)
    (hflat : ∀ g ∈ gs, ∀ s, (k.files g).object ≠ some (.socket s)) :
    Sound leak base holders pledged (gs.foldl release k) := by
  induction gs generalizing k with
  | nil => simpa using hs
  | cons g gs ih =>
    rw [← cons_coe, cons_add] at hs
    refine ih (hrelease _ k g hs (hflat g (by simp))) fun g' hg' s => ?_
    rcases (hshrinks k g g').2 with hsame | hnone
    · rw [hsame]
      exact hflat g' (by simp [hg']) s
    · rw [hnone]
      simp

/-- The state in which the object of a description without further references is released. -/
theorem Sound.releaseObject (hs : Sound leak base (f ::ₘ holders) pledged k)
    (hf : f < filePoolSize) (hone : (k.files f).references = 1) (hh : (k.files f).handle = some h) :
    let k' := k.setFile f { k.files f with references := (k.files f).references - 1 }
    let r := k'.releaseObject h
    Sound (fun j => leak j ∨ j = f) base ((r.2 : Multiset Nat) + holders) pledged r.1 ∧
      ∀ g ∈ r.2, ∀ s, (r.1.files g).object ≠ some (.socket s) := by
  intro k' r
  have hcounted := hs.counted f
  rw [hone, count_cons_self] at hcounted
  have hlive : k.live = h ::ₘ k'.live := by
    have hupdate := liveOf_update k.files hf
      { k.files f with references := (k.files f).references - 1 }
    rw [Description.live_some (by omega) hh, Description.live_zero (by simp [hone]), add_zero]
      at hupdate
    show liveOf k.files = h ::ₘ liveOf (update k.files f _)
    rw [← hupdate, ← singleton_add, add_comm]
  have hbacked := hs.backed
  rw [hlive, cons_add] at hbacked
  have hrelease := hbacked.release
  have hqueue : ∀ g, (queued k.objects.sockets).count g =
      (queued (k.objects.release h).1.sockets).count g +
        ((k.objects.release h).2 : Multiset Nat).count g := by
    intro g
    rw [hrelease.2, count_add]
  have hpassed : ∀ g ∈ queued k.objects.sockets, ∀ s,
      (k'.files g).object ≠ some (.socket s) := hs.passed_update fun _ => rfl
  refine ⟨?_, fun g hg => hpassed g (hrelease.2 ▸ mem_add.mpr (.inr hg))⟩
  constructor
  · intro g
    show (update k.files f _ g).references = _
    rw [count_add]
    show _ = ((k.objects.release h).2 : Multiset Nat).count g + holders.count g +
      (queued (k.objects.release h).1.sockets).count g
    have hg := hqueue g
    by_cases hgf : g = f
    · subst hgf
      rw [update_self]
      simp only [hone]
      omega
    · have hold := hs.counted g
      rw [count_cons_of_ne hgf] at hold
      rw [update_of_ne hgf]
      omega
  · exact hs.slots_update (fun _ _ => .inl) fun _ _ => .inl (.inr rfl)
  · exact hs.kinds_update fun hlt _ => hs.kinds f hlt (by omega)
  · exact fun g hg => hpassed g (hrelease.2 ▸ mem_add.mpr (.inl hg))
  · show (k.opened : Multiset Handle) = k'.live + (h :: k.released : List Handle)
    rw [hs.log, hlive, ← cons_coe, cons_add, add_cons]
  · exact hrelease.1

theorem Sound.releaseStep (n : Nat) (hs : Sound leak base (f ::ₘ holders) pledged k)
    (hnested : (∀ s, (k.files f).object ≠ some (.socket s)) ∨
      ∀ leak holders k g, Sound leak base (g ::ₘ holders) pledged k →
        (∀ s, (k.files g).object ≠ some (.socket s)) →
        Sound leak base holders pledged (fileRelease n k g)) :
    Sound leak base holders pledged (fileRelease (n + 1) k f) := by
  have hcounted := hs.counted f
  rw [count_cons_self] at hcounted
  unfold fileRelease
  rw [if_neg (by omega)]
  split_ifs with hlast
  · obtain ⟨h, hh⟩ := Description.handle_some (hs.kinds f hlast.2 (by omega))
    have hobject : (k.files f).object = some h.object := by
      cases hobject : (k.files f).object with
      | none => simp [Description.handle, hobject] at hh
      | some object =>
        simp only [Description.handle, hobject, Option.map_some, Option.some.injEq] at hh
        rw [← hh]
    obtain ⟨hreleased, hflat⟩ := hs.releaseObject hlast.2 hlast.1 hh
    simp only [hh]
    generalize hk' : k.setFile f { k.files f with references := (k.files f).references - 1 } = k'
      at hreleased hflat ⊢
    have hfirst : ((k'.releaseObject h).1.files f).references = 0 := by
      show (k'.files f).references = 0
      rw [← hk']
      simp [Files.setFile, hlast.1]
    have hzero := (shrinks_foldl (fileRelease_shrinks n) (k'.releaseObject h).2
      (k'.releaseObject h).1 f).1
    -- The descriptions queued at a socket are not sockets, so their release goes no deeper.
    have hfold : Sound (fun j => leak j ∨ j = f) base holders pledged
        ((k'.releaseObject h).2.foldl (fileRelease n) (k'.releaseObject h).1) := by
      rcases hnested with hplain | hdeep
      · have hnil : (k'.releaseObject h).2 = [] :=
          Objects.release_nil fun s hs => hplain s (by rw [hobject, hs])
        rw [hnil] at hreleased ⊢
        simpa using hreleased
      · exact Sound.foldl_release _ (fileRelease_shrinks n) (hdeep _) hreleased hflat
    exact hfold.setFile (by omega) rfl (fun j hj hjf => hjf.resolve_right hj) (.inr rfl)
  · have hlive : (k.setFile f { k.files f with references := (k.files f).references - 1 }).live =
        k.live := by
      by_cases hf : f < filePoolSize
      · refine liveOf_update_same k.files ?_
        simp only [Description.live, Description.handle]
        rw [if_neg (by omega), if_neg (by omega)]
      · exact liveOf_update_outside k.files (by omega) _
    constructor
    · intro g
      show (update k.files f _ g).references = _
      by_cases hgf : g = f
      · subst hgf
        rw [update_self]
        show (k.files g).references - 1 =
          holders.count g + (queued k.objects.sockets).count g
        omega
      · have hold := hs.counted g
        rw [count_cons_of_ne hgf] at hold
        rw [update_of_ne hgf]
        exact hold
    · refine hs.slots_update (fun _ _ => id) fun hlt hzero => ?_
      exact absurd (show (k.files f).references - 1 = 0 from hzero) (by omega)
    · exact hs.kinds_update fun hlt _ => hs.kinds f hlt (by omega)
    · exact hs.passed_update fun _ => rfl
    · rw [hlive]
      exact hs.log
    · rw [hlive]
      exact hs.backed

theorem Sound.release (hs : Sound leak base (f ::ₘ holders) pledged k) :
    Sound leak base holders pledged (k.release f) :=
  hs.releaseStep (socketMax + 1) (.inr fun _ _ _ _ hs hflat =>
    hs.releaseStep socketMax (.inl hflat))

end XsCore.File
