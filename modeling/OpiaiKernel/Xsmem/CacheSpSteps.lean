import OpiaiKernel.Xsmem.CacheSpDev

/-!
# The steps of the cached share pool

Every section that a call runs keeps the invariant, in whatever order the calls
take their turns.
-/

namespace OpiaiKernel.Xsmem

open AugTree Span

variable {P : PageSize}

/-! ## Areas -/

theorem spAlgoFree_of_mem {sp : List Span} {a : Span} (hapart : sp.Pairwise Apart)
    (hpos : ∀ b ∈ sp, 0 < b.size) (ha : a ∈ sp) : spAlgoFree sp a.start = (.ok (), sp.erase a) := by
  unfold spAlgoFree
  cases hfind : sp.find? fun b => b.start = a.start with
  | none =>
      have := List.find?_eq_none.mp hfind a ha
      simp at this
  | some b =>
      have hb := List.mem_of_find?_eq_some hfind
      have hstart : b.start = a.start := by simpa using List.find?_some hfind
      have heq : b = a := by
        by_contra hne
        have hbpos := hpos b hb
        have hapos := hpos a ha
        have : Std.Symm Apart := ⟨fun _ _ h => h.symm⟩
        have hap : Apart b a := hapart.forall hb ha hne
        rcases hap with hap | hap <;> simp only [stop] at hap <;> omega
      rw [heq]

namespace AreasOk

variable {ctrl ctrl' : CacheSpCtrl} {others others' rest : List Span} {a : Span}

theorem perm (h : AreasOk P ctrl others) : ctrl.spCtrl.Perm (ctrl.cacheAreas ++ others) :=
  List.perm_iff_count.mpr fun a => by rw [h.count, List.count_append]

theorem mem_others (h : AreasOk P ctrl others) (ha : a ∈ others) : a ∈ ctrl.spCtrl :=
  h.perm.mem_iff.mpr (List.mem_append_right _ ha)

/-- The areas of caches and the others do not overlap. -/
theorem cross (h : AreasOk P ctrl others) {b : Span} (ha : a ∈ ctrl.cacheAreas)
    (hb : b ∈ others) : Apart a b :=
  (List.pairwise_append.mp (h.perm.pairwise h.apart fun h => h.symm)).2.2 a ha b hb

/-- An area changes between the caches and the others, or nothing does. -/
theorem regroup (h : AreasOk P ctrl others) (hsp : ctrl'.spCtrl = ctrl.spCtrl)
    (hcount : ∀ a, ctrl'.cacheAreas.count a + others'.count a =
      ctrl.cacheAreas.count a + others.count a) : AreasOk P ctrl' others' where
  count := fun a => by rw [hsp, h.count, hcount]
  ok := hsp ▸ h.ok
  apart := hsp ▸ h.apart

theorem alloc (h : AreasOk P ctrl others) (hok : AreaOk P a)
    (hfree : ∀ b ∈ ctrl.spCtrl, Apart a b) (hsp : ctrl'.spCtrl = a :: ctrl.spCtrl)
    (hcaches : ctrl'.cacheAreas = ctrl.cacheAreas)
    (hcount : ∀ b, others'.count b = (a :: others).count b) : AreasOk P ctrl' others' where
  count := fun b => by
    rw [hsp, hcaches, hcount, List.count_cons, List.count_cons, h.count]
    omega
  ok := by
    intro b hb
    rw [hsp] at hb
    rcases List.mem_cons.mp hb with rfl | hb
    · exact hok
    · exact h.ok b hb
  apart := by
    rw [hsp]
    exact List.pairwise_cons.mpr ⟨hfree, h.apart⟩

theorem free (h : AreasOk P ctrl others) (ha : a ∈ ctrl.spCtrl)
    (hsp : ctrl'.spCtrl = (spAlgoFree ctrl.spCtrl a.start).2)
    (hcount : ∀ b, ctrl'.cacheAreas.count b + others'.count b + [a].count b =
      ctrl.cacheAreas.count b + others.count b) : AreasOk P ctrl' others' := by
  rw [spAlgoFree_of_mem h.apart (fun b hb => (h.ok b hb).pos) ha] at hsp
  constructor
  · intro b
    have herase := (List.perm_cons_erase ha).count_eq b
    have hb := hcount b
    rw [h.count, List.count_cons] at herase
    rw [List.count_singleton] at hb
    rw [hsp]
    dsimp only
    omega
  · intro b hb
    rw [hsp] at hb
    exact h.ok b (List.mem_of_mem_erase hb)
  · rw [hsp]
    exact h.apart.sublist List.erase_sublist

end AreasOk

theorem mem_cacheAreas {ctrl : CacheSpCtrl} {d : ℕ} {dev : CacheDevInfo} {c : CacheSpInfo}
    (hd : d < XSMEM_MAX_DEV_NUM) (hdev : ctrl.devInfo d = some dev) (hc : c ∈ dev.caches) :
    c.area ∈ ctrl.cacheAreas := by
  refine List.mem_flatMap.mpr ⟨d, List.mem_range.mpr hd, ?_⟩
  rw [hdev]
  exact List.mem_map_of_mem hc

theorem spAlgoAlloc_ok {env : SpEnv} {sp sp' : List Span} {allocSize addr size : ℕ}
    (hanswers : env.Answers P sp (P.align allocSize))
    (h : spAlgoAlloc P env sp allocSize = (.ok (addr, size), sp')) :
    AreaOk P ⟨addr, size⟩ ∧ (∀ a ∈ sp, Apart ⟨addr, size⟩ a) ∧ sp' = ⟨addr, size⟩ :: sp := by
  unfold spAlgoAlloc at h
  dsimp only at h
  split at h
  · simp at h
  · split at h
    · simp at h
    · split at h
      · simp at h
      · next vaddr hvaddr =>
          obtain ⟨hstart, hpos, hdvd, hstop, hapart⟩ := hanswers vaddr hvaddr
          simp only [Prod.mk.injEq, Except.ok.injEq] at h
          obtain ⟨⟨rfl, rfl⟩, rfl⟩ := h
          exact ⟨⟨hstart, hpos, hdvd, P.dvd_align _, hstop⟩, hapart, rfl⟩

theorem spAlgoAlloc_error {env : SpEnv} {sp sp' : List Span} {allocSize : ℕ} {e : Errno}
    (h : spAlgoAlloc P env sp allocSize = (.error e, sp')) : sp' = sp := by
  unfold spAlgoAlloc at h
  dsimp only at h
  repeat' split at h
  all_goals simp_all

/-! ## The view of one more call -/

namespace DevView

variable (v : DevView) {d : ℕ}

theorem add_ref {call : CacheCall} (href : call.refDev = some d) (hwalk : call.walk d = none)
    (hfree : call.freeing = none) : v.add d call = { v with refs := v.refs + 1 } := by
  simp [add, href, hwalk, hfree]

theorem add_walk (allocSize flag : ℕ) (pos : Option ℕ) (ret : Errno) :
    v.add (spGetDeviceIdFromFlags flag) (.blkWalk allocSize flag pos ret) =
      { v with refs := v.refs + 1, walks := pos :: v.walks } := by
  simp [add, CacheCall.refDev, CacheCall.walk, CacheCall.freeing]

theorem add_free (blk : SpBlock) :
    v.add blk.devid (.blkFree blk) = { v with refs := v.refs + 1, held := blk :: v.held } := by
  simp [add, CacheCall.refDev, CacheCall.walk, CacheCall.freeing]

end DevView

namespace CacheRun

variable {s : CacheRun}

theorem view_live (s : CacheRun) (b : SpBlock) (d : ℕ) :
    ({ s with live := b :: s.live }.view d).Same
      { s.view d with
        held := ([b].filter fun b : SpBlock => b.devid = d) ++ (s.view d).held } where
  refs := rfl
  walks := .refl _
  held := by
    simp only [view, held]
    rw [← List.filter_append]
    exact .refl _
  lost := .refl _

theorem view_lost (s : CacheRun) (b : SpBlock) (d : ℕ) :
    ({ s with lost := b :: s.lost }.view d).Same
      { s.view d with
        held := ([b].filter fun b : SpBlock => b.devid = d) ++ (s.view d).held
        lost := ([b].filter fun b : SpBlock => b.devid = d) ++ (s.view d).lost } where
  refs := rfl
  walks := .refl _
  held := by
    simp only [view, held]
    rw [← List.filter_append]
    exact List.perm_middle.filter _
  lost := by
    simp only [view]
    rw [← List.filter_append]
    exact .refl _

theorem others_goOn {old : CacheCall} (hold : old ∈ s.calls) (new : CacheCall)
    (ctrl : CacheSpCtrl) (a : Span) :
    (s.goOn old new ctrl).others.count a + old.newArea.toList.count a =
      new.newArea.toList.count a + s.others.count a := by
  have hperm := ((List.perm_cons_erase hold).filterMap CacheCall.newArea).count_eq a
  have hcons : ∀ (c : CacheCall) (l : List CacheCall),
      ((c :: l).filterMap CacheCall.newArea).count a =
        c.newArea.toList.count a + (l.filterMap CacheCall.newArea).count a := by
    intro c l
    cases hc : c.newArea <;> simp [hc, List.count_cons, Nat.add_comm]
  rw [hcons] at hperm
  simp only [others, goOn, List.count_append, hcons]
  omega

end CacheRun

/-! ## One device and its calls -/

namespace CacheInv

variable {s t : CacheRun} {d : ℕ} {old new : CacheCall} {ctrl : CacheSpCtrl}

/-- A step that concerns one device. -/
theorem of_dev (h : CacheInv P s) (d : ℕ)
    (hother : ∀ e, e ≠ d → (s.view e).Same (t.view e) ∧ t.ctrl.devInfo e = s.ctrl.devInfo e)
    (hslot : DevSlot P (t.view d) (t.ctrl.devInfo d))
    (hlt : ∀ dev, t.ctrl.devInfo d = some dev → d < XSMEM_MAX_DEV_NUM)
    (hareas : AreasOk P t.ctrl t.others) (hos : t.ctrl.osInfo = s.ctrl.osInfo)
    (hlive : t.osLive = s.osLive) : CacheInv P t := by
  constructor
  · intro e dev he
    by_cases hed : e = d
    · exact hed ▸ hlt dev (hed ▸ he)
    · exact h.dev_lt e dev ((hother e hed).2 ▸ he)
  · intro e
    by_cases hed : e = d
    · exact hed ▸ hslot
    · obtain ⟨hsame, hdev⟩ := hother e hed
      rw [hdev]
      exact (h.slot e).same hsame
  · exact hareas
  · rw [hos, hlive]
    exact h.os_size
  · rw [hos, hlive]
    exact h.os_cnt

theorem slot_without (h : CacheInv P s) (hold : old ∈ s.calls) (d : ℕ) :
    DevSlot P (((s.without old).view d).add d old) (s.ctrl.devInfo d) :=
  (h.slot d).same (CacheRun.view_without hold d)

/-- The view of a device that the call does not belong to. -/
theorem view_without_of_ne (hold : old ∈ s.calls) {e : ℕ} (hne : old.refDev ≠ some e) :
    (s.view e).Same ((s.without old).view e) := by
  have := CacheRun.view_without hold e
  rwa [DevView.add_of_ne _ hne] at this

theorem view_goOn_of_ne (hold : old ∈ s.calls) {e : ℕ} (hne : old.refDev ≠ some e)
    (hne' : new.refDev ≠ some e) (ctrl : CacheSpCtrl) :
    (s.view e).Same ((s.goOn old new ctrl).view e) := by
  have hnew := (CacheRun.view_goOn s old new ctrl e).symm
  rw [DevView.add_of_ne _ hne'] at hnew
  exact (view_without_of_ne hold hne).trans hnew

/-- A call of the device `d` goes on. -/
theorem goOn (h : CacheInv P s) (hold : old ∈ s.calls) {d : ℕ} {dev : CacheDevInfo}
    (hdev : s.ctrl.devInfo d = some dev)
    (hrefs : ∀ e, e ≠ d → old.refDev ≠ some e ∧ new.refDev ≠ some e)
    (hother : ∀ e, e ≠ d → ctrl.devInfo e = s.ctrl.devInfo e)
    (hslot : ∀ v : DevView, DevOk P (v.add d old) dev → DevSlot P (v.add d new) (ctrl.devInfo d))
    (hareas : AreasOk P ctrl (s.goOn old new ctrl).others)
    (hos : ctrl.osInfo = s.ctrl.osInfo) : CacheInv P (s.goOn old new ctrl) := by
  refine h.of_dev d (fun e he => ⟨?_, hother e he⟩) ?_ (fun _ _ => h.dev_lt d dev hdev) hareas
    hos rfl
  · exact view_goOn_of_ne hold (hrefs e he).1 (hrefs e he).2 ctrl
  · have hwithout := h.slot_without hold d
    rw [hdev] at hwithout
    exact (hslot _ hwithout).same (CacheRun.view_goOn s old new ctrl d).symm

/-- The device of a call is there. -/
theorem exists_dev (h : CacheInv P s) (hold : old ∈ s.calls) (href : old.refDev = some d) :
    ∃ dev, s.ctrl.devInfo d = some dev := by
  cases hdev : s.ctrl.devInfo d with
  | some dev => exact ⟨dev, rfl⟩
  | none =>
      have hslot := h.slot d
      rw [hdev] at hslot
      have hcount : s.calls.countP (fun call => call.refDev = some d) = 0 := hslot.1
      have := List.countP_eq_zero.mp hcount old hold
      simp [href] at this

end CacheInv

end OpiaiKernel.Xsmem
