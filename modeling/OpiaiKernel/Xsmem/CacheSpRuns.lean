import OpiaiKernel.Xsmem.CacheSpSteps

/-!
# Runs of the cached share pool

Each section keeps the invariant, so it holds in every state of every
interleaving of the calls.
-/

namespace OpiaiKernel.Xsmem

open AugTree Span

variable {P : PageSize}

theorem devInfo_setDev_self (ctrl : CacheSpCtrl) (d : ℕ) (o : Option CacheDevInfo) :
    (ctrl.setDev d o).devInfo d = o := by
  simp [CacheSpCtrl.setDev]

theorem devInfo_setDev_of_ne (ctrl : CacheSpCtrl) {d e : ℕ} (o : Option CacheDevInfo)
    (h : e ≠ d) : (ctrl.setDev d o).devInfo e = ctrl.devInfo e := by
  simp [CacheSpCtrl.setDev, h]

theorem cacheAreas_setDev (ctrl : CacheSpCtrl) (d : ℕ) {o : Option CacheDevInfo}
    (h : areasOf o = areasOf (ctrl.devInfo d)) :
    (ctrl.setDev d o).cacheAreas = ctrl.cacheAreas := by
  unfold CacheSpCtrl.cacheAreas
  refine List.flatMap_congr fun e _ => ?_
  by_cases hed : e = d
  · subst hed
    rw [devInfo_setDev_self, h]
  · rw [devInfo_setDev_of_ne ctrl o hed]

theorem modifyInfo_areas {dev : CacheDevInfo} {addr : ℕ} {f : CacheSpInfo → CacheSpInfo}
    (hf : ∀ c, (f c).area = c.area) :
    (dev.modifyInfo addr f).caches.map CacheSpInfo.area = dev.caches.map CacheSpInfo.area :=
  map_modifyInfo CacheSpInfo.area hf

theorem cacheSpBlkTry_areas (bal : Rotations) (dev : CacheDevInfo) (c : CacheSpInfo)
    (size : ℕ) : (cacheSpBlkTry P bal dev c size).2.caches.map CacheSpInfo.area =
      dev.caches.map CacheSpInfo.area := by
  unfold cacheSpBlkTry
  split <;> exact modifyInfo_areas fun _ => rfl

theorem cacheSpFreeToCache_areas (kmalloc : Bool) (bal : Rotations) (dev : CacheDevInfo)
    (blk : SpBlock) : (cacheSpFreeToCache kmalloc bal dev blk).2.caches.map CacheSpInfo.area =
      dev.caches.map CacheSpInfo.area := by
  unfold cacheSpFreeToCache
  split
  · rfl
  · split <;> exact modifyInfo_areas fun _ => rfl

namespace CacheInv

variable {s t : CacheRun} {d : ℕ} {dev : CacheDevInfo} {old new call : CacheCall}
  {ctrl : CacheSpCtrl} {env : CallEnv}

theorem areas_goOn (h : CacheInv P s) (hold : old ∈ s.calls) (hnone : old.newArea = none)
    (hnone' : new.newArea = none) (hsp : ctrl.spCtrl = s.ctrl.spCtrl)
    (hcaches : ctrl.cacheAreas = s.ctrl.cacheAreas) :
    AreasOk P ctrl (s.goOn old new ctrl).others := by
  refine h.areas.regroup hsp fun a => ?_
  have := CacheRun.others_goOn hold new ctrl a
  rw [hnone, hnone'] at this
  rw [hcaches]
  simpa using this

theorem areas_without (h : CacheInv P s) (hold : old ∈ s.calls) (hnone : old.newArea = none)
    (hsp : ctrl.spCtrl = s.ctrl.spCtrl) (hcaches : ctrl.cacheAreas = s.ctrl.cacheAreas) :
    AreasOk P ctrl (s.without old).others := by
  refine h.areas.regroup hsp fun a => ?_
  have hperm := (List.perm_cons_erase hold).filterMap CacheCall.newArea
  simp only [List.filterMap_cons, hnone] at hperm
  simp only [hcaches, CacheRun.others, CacheRun.without, List.count_append, hperm.count_eq]

/-- A call has one device. -/
theorem refDev_ne (href : call.refDev = some d) {e : ℕ} (he : e ≠ d) : call.refDev ≠ some e :=
  fun heq => he (Option.some.inj (heq.symm.trans href))

/-- A section that changes no area. -/
theorem section_ok (h : CacheInv P s) (hold : old ∈ s.calls)
    (hdev : s.ctrl.devInfo d = some dev) (href : old.refDev = some d)
    (href' : new.refDev = some d) (hnone : old.newArea = none) (hnone' : new.newArea = none)
    {dev' : CacheDevInfo}
    (hareas : dev'.caches.map CacheSpInfo.area = dev.caches.map CacheSpInfo.area)
    (hslot : ∀ v : DevView, DevOk P (v.add d old) dev → DevOk P (v.add d new) dev') :
    CacheInv P (s.goOn old new (s.ctrl.setDev d (some dev'))) := by
  refine h.goOn hold hdev (fun e he => ⟨refDev_ne href he, refDev_ne href' he⟩)
    (fun e he => devInfo_setDev_of_ne _ _ he) ?_ ?_ rfl
  · intro v hv
    rw [devInfo_setDev_self]
    exact hslot v hv
  · refine h.areas_goOn hold hnone hnone' rfl (cacheAreas_setDev _ _ ?_)
    rw [hdev]
    exact hareas

/-- A section that also hands out or loses a block of the device. -/
theorem section_gain (h : CacheInv P s) (hold : old ∈ s.calls)
    (hdev : s.ctrl.devInfo d = some dev) (href : old.refDev = some d)
    (href' : new.refDev = some d) (hnone : old.newArea = none) (hnone' : new.newArea = none)
    (dev' : CacheDevInfo) (b : SpBlock) (lost : List SpBlock)
    (hareas : dev'.caches.map CacheSpInfo.area = dev.caches.map CacheSpInfo.area)
    (hb : b.devid = d)
    (ht : t.ctrl = s.ctrl.setDev d (some dev') ∧ t.others =
      (s.goOn old new (s.ctrl.setDev d (some dev'))).others ∧ t.osLive = s.osLive)
    (hview : ∀ e, (t.view e).Same
      { (s.goOn old new (s.ctrl.setDev d (some dev'))).view e with
        held := ([b].filter fun b : SpBlock => b.devid = e) ++
          ((s.goOn old new (s.ctrl.setDev d (some dev'))).view e).held
        lost := (lost.filter fun b : SpBlock => b.devid = e) ++
          ((s.goOn old new (s.ctrl.setDev d (some dev'))).view e).lost })
    (hlost : ∀ b ∈ lost, b.devid = d)
    (hslot : ∀ v : DevView, DevOk P (v.add d old) dev →
      DevOk P
        { v.add d new with
          held := b :: (v.add d new).held
          lost := lost ++ (v.add d new).lost } dev') :
    CacheInv P t := by
  obtain ⟨hctrl, hothers, hosLive⟩ := ht
  refine h.of_dev d (fun e he => ⟨?_, ?_⟩) ?_ (fun _ _ => h.dev_lt d dev hdev) ?_ ?_ hosLive
  · have hnil : ∀ l : List SpBlock, (∀ b ∈ l, b.devid = d) →
        (l.filter fun b : SpBlock => b.devid = e) = [] := by
      intro l hl
      rw [List.filter_eq_nil_iff]
      intro k hk
      rw [hl k hk]
      simpa using fun heq => he heq.symm
    have := hview e
    rw [hnil [b] (by simpa using hb), hnil lost hlost] at this
    exact (view_goOn_of_ne hold (refDev_ne href he) (refDev_ne href' he) _).trans this.symm
  · rw [hctrl]
    exact devInfo_setDev_of_ne _ _ he
  · have hwithout := h.slot_without hold d
    rw [hdev] at hwithout
    have hnew := CacheRun.view_goOn s old new (s.ctrl.setDev d (some dev')) d
    have hself := hview d
    rw [List.filter_eq_self.mpr (by simpa using hb),
      List.filter_eq_self.mpr (by simpa using hlost)] at hself
    rw [hctrl, devInfo_setDev_self]
    refine DevSlot.same (o := some dev') (hslot _ hwithout) (DevView.Same.symm (hself.trans ?_))
    exact ⟨hnew.refs, hnew.walks, hnew.held.append_left [b], hnew.lost.append_left lost⟩
  · rw [hctrl, hothers]
    refine h.areas_goOn hold hnone hnone' rfl (cacheAreas_setDev _ _ ?_)
    rw [hdev]
    exact hareas
  · rw [hctrl]
    rfl

/-- A call of no device leaves, or one that does not touch its device goes on. -/
theorem section_same (h : CacheInv P s) (hold : old ∈ s.calls)
    (hdev : s.ctrl.devInfo d = some dev) (href : old.refDev = some d)
    (href' : new.refDev = some d)
    (hslot : ∀ v : DevView, DevOk P (v.add d old) dev → DevOk P (v.add d new) dev)
    (hdevs : ctrl.devInfo = s.ctrl.devInfo) (hos : ctrl.osInfo = s.ctrl.osInfo)
    (hareas : AreasOk P ctrl (s.goOn old new ctrl).others) :
    CacheInv P (s.goOn old new ctrl) := by
  refine h.goOn hold hdev (fun e he => ⟨refDev_ne href he, refDev_ne href' he⟩)
    (fun e _ => by rw [hdevs]) (fun v hv => ?_) hareas hos
  rw [hdevs, hdev]
  exact hslot v hv

/-! ## The sections of a call -/

theorem create_get (h : CacheInv P s) {arg : XsmCacheCreateArg}
    (hold : .create arg ∈ s.calls) (hstep : runCacheCall P s (.create arg) env = some t) :
    CacheInv P t := by
  simp only [runCacheCall, cacheDevGet] at hstep
  cases hdev : s.ctrl.devInfo arg.devId with
  | none =>
      simp only [hdev, Option.map_none, Option.some.injEq] at hstep
      subst hstep
      refine h.of_dev arg.devId (fun e _ => ⟨?_, rfl⟩) ?_ (h.dev_lt arg.devId) ?_ rfl rfl
      · exact view_without_of_ne hold (by simp [CacheCall.refDev])
      · exact (h.slot arg.devId).same (view_without_of_ne hold (by simp [CacheCall.refDev]))
      · exact h.areas_without hold rfl rfl rfl
  | some dev =>
      simp only [hdev, Option.map_some, Option.some.injEq] at hstep
      subst hstep
      refine h.goOn hold hdev (fun e he => ⟨by simp [CacheCall.refDev], refDev_ne rfl he⟩)
        (fun e he => devInfo_setDev_of_ne _ _ he) ?_ ?_ rfl
      · intro v hv
        rw [DevView.add_of_ne _ (by simp [CacheCall.refDev])] at hv
        rw [devInfo_setDev_self, DevView.add_ref _ rfl rfl rfl]
        exact hv.get
      · refine h.areas_goOn hold rfl rfl rfl (cacheAreas_setDev _ _ ?_)
        rw [hdev]
        rfl

theorem infoCreate (h : CacheInv P s) {arg : XsmCacheCreateArg}
    (hold : .infoCreate arg ∈ s.calls)
    (hstep : runCacheCall P s (.infoCreate arg) env = some t) : CacheInv P t := by
  obtain ⟨dev, hdev⟩ := h.exists_dev hold rfl
  have hslot : ∀ new : CacheCall, new.refDev = some arg.devId → new.walk arg.devId = none →
      new.freeing = none → ∀ v : DevView, DevOk P (v.add arg.devId (.infoCreate arg)) dev →
        DevOk P (v.add arg.devId new) dev := by
    intro new href hwalk hfree v hv
    rw [DevView.add_ref _ rfl rfl rfl] at hv
    rwa [DevView.add_ref _ href hwalk hfree]
  simp only [runCacheCall] at hstep
  split at hstep
  · next hanswers =>
      cases hk : env.kmalloc with
      | false =>
          simp only [cacheInfoAlloc, hk, Bool.false_eq_true, if_false, Option.some.injEq] at hstep
          subst hstep
          exact h.section_same hold hdev rfl rfl (hslot _ rfl rfl rfl) rfl rfl
            (h.areas_goOn hold rfl rfl rfl rfl)
      | true =>
          simp only [cacheInfoAlloc, hk, if_true] at hstep
          rcases hres : spAlgoAlloc P env.sp s.ctrl.spCtrl arg.memSize with
            ⟨e | ⟨addr, size⟩, sp⟩
          · simp only [hres, Option.some.injEq] at hstep
            subst hstep
            exact h.section_same hold hdev rfl rfl (hslot _ rfl rfl rfl) rfl rfl
              (h.areas_goOn hold rfl rfl (spAlgoAlloc_error hres) rfl)
          · simp only [hres, Option.some.injEq] at hstep
            subst hstep
            obtain ⟨harea, hfree, hsp⟩ := spAlgoAlloc_ok hanswers hres
            refine h.section_same hold hdev rfl rfl (hslot _ rfl rfl rfl) rfl rfl ?_
            refine h.areas.alloc harea hfree hsp rfl fun b => ?_
            have := CacheRun.others_goOn hold (.infoLink arg ⟨addr, size⟩)
              { s.ctrl with spCtrl := sp } b
            simp only [CacheCall.newArea, Option.toList_none, List.count_nil,
              Option.toList_some, List.count_singleton] at this
            rw [List.count_cons]
            omega
  · simp at hstep

theorem infoLink (h : CacheInv P s) {arg : XsmCacheCreateArg} {area : Span}
    (hold : .infoLink arg area ∈ s.calls)
    (hstep : runCacheCall P s (.infoLink arg area) env = some t) : CacheInv P t := by
  obtain ⟨dev, hdev⟩ := h.exists_dev hold rfl
  have hlt := h.dev_lt _ _ hdev
  have hslot : ∀ ret, ∀ v : DevView, DevOk P (v.add arg.devId (.infoLink arg area)) dev →
      DevOk P (v.add arg.devId (.put arg.devId ret)) dev := by
    intro ret v hv
    rw [DevView.add_ref _ rfl rfl rfl] at hv ⊢
    exact hv
  have hmem : area ∈ s.others := by
    refine List.mem_append_left _ (List.mem_filterMap.mpr ⟨_, hold, rfl⟩)
  have harea := h.areas.ok area (h.areas.mem_others hmem)
  have hothers : ∀ (ret : Option Errno) (ctrl : CacheSpCtrl) (a : Span),
      (s.goOn (.infoLink arg area) (.put arg.devId ret) ctrl).others.count a + [area].count a =
        s.others.count a := by
    intro ret ctrl a
    have := CacheRun.others_goOn hold (.put arg.devId ret) ctrl a
    simpa [CacheCall.newArea] using this
  -- a failure gives the area back
  have hfail : ∀ e, CacheInv P (s.goOn (.infoLink arg area) (.put arg.devId (some e))
      { s.ctrl with spCtrl := (spAlgoFree s.ctrl.spCtrl area.start).2 }) := by
    intro e
    refine h.section_same hold hdev rfl rfl (hslot _) rfl rfl ?_
    refine h.areas.free (h.areas.mem_others hmem) rfl fun b => ?_
    have := hothers (some e) { s.ctrl with spCtrl := (spAlgoFree s.ctrl.spCtrl area.start).2 } b
    have hcaches : CacheSpCtrl.cacheAreas
        { s.ctrl with spCtrl := (spAlgoFree s.ctrl.spCtrl area.start).2 } =
        s.ctrl.cacheAreas := rfl
    rw [hcaches]
    omega
  simp only [runCacheCall, hdev] at hstep
  split at hstep
  · simp at hstep
  · next hsem =>
      cases hcreate : if env.kmalloc then vmaInstCreate P area.size else none with
      | none =>
          simp only [cacheInfoLink, hcreate, Option.some.injEq] at hstep
          exact hstep ▸ hfail _
      | some vmaCtrl =>
          have hcreate' : vmaInstCreate P area.size = some vmaCtrl := by
            split at hcreate
            · exact hcreate
            · simp at hcreate
          have hinsert : ∀ v : DevView, DevOk P v dev → ∃ dev',
              cacheSpRbInsert env.bal dev ⟨area.start, area.size, 0, vmaCtrl⟩ = .ok dev' ∧
              (dev'.caches.map CacheSpInfo.area).Perm (area :: dev.caches.map CacheSpInfo.area) ∧
              DevOk P v
                { dev' with
                  cacheCnt := Word.add 32 dev'.cacheCnt 1
                  totalSize := Word.add 64 dev'.totalSize area.size } := by
            intro v hv
            have hwalks : v.walks = [] :=
              List.length_eq_zero_iff.mp (hv.sem.symm.trans (not_not.mp hsem))
            refine hv.insert hwalks harea (fun c hc => ?_) hcreate' env.bal
            exact (h.areas.cross (mem_cacheAreas hlt hdev hc) hmem).symm
          obtain ⟨dev', hok, hperm, -⟩ := hinsert (s.view arg.devId) (by
            have := h.slot arg.devId
            rwa [hdev] at this)
          simp only [cacheInfoLink, hcreate, hok, Option.some.injEq] at hstep
          subst hstep
          refine h.goOn hold hdev (fun e he => ⟨refDev_ne rfl he, refDev_ne rfl he⟩)
            (fun e he => devInfo_setDev_of_ne _ _ he) ?_ ?_ rfl
          · intro v hv
            rw [DevView.add_ref _ rfl rfl rfl] at hv
            rw [devInfo_setDev_self, DevView.add_ref _ rfl rfl rfl]
            obtain ⟨dev'', hok', -, hnew⟩ := hinsert _ hv
            rw [hok] at hok'
            obtain rfl := Except.ok.inj hok'
            exact hnew
          · refine h.areas.regroup rfl fun a => ?_
            have hcaches := count_setDev s.ctrl hlt (some
              { dev' with
                cacheCnt := Word.add 32 dev'.cacheCnt 1
                totalSize := Word.add 64 dev'.totalSize area.size }) a
            have hcount := hperm.count_eq a
            have := hothers none (s.ctrl.setDev arg.devId (some
              { dev' with
                cacheCnt := Word.add 32 dev'.cacheCnt 1
                totalSize := Word.add 64 dev'.totalSize area.size })) a
            rw [hdev] at hcaches
            rw [List.count_cons] at hcount
            rw [List.count_singleton] at this
            change _ + (dev.caches.map CacheSpInfo.area).count a =
              (dev'.caches.map CacheSpInfo.area).count a + _ at hcaches
            omega

theorem blkAlloc (h : CacheInv P s) {allocSize flag : ℕ}
    (hold : .blkAlloc allocSize flag ∈ s.calls)
    (hstep : runCacheCall P s (.blkAlloc allocSize flag) env = some t) : CacheInv P t := by
  obtain ⟨dev, hdev⟩ := h.exists_dev hold rfl
  simp only [runCacheCall, hdev, Option.some.injEq] at hstep
  subst hstep
  refine h.section_ok hold hdev rfl rfl rfl rfl rfl fun v hv => ?_
  rw [DevView.add_ref _ rfl rfl rfl] at hv
  rw [DevView.add_walk]
  refine hv.enter fun a ha => ?_
  obtain ⟨x, hx, rfl⟩ := Option.map_eq_some_iff.mp ha
  exact ⟨x.a, Loc.mem_toList (root_of_rbFirst hx), rfl⟩

theorem blkWalk (h : CacheInv P s) {allocSize flag : ℕ} {pos : Option ℕ} {ret : Errno}
    (hold : .blkWalk allocSize flag pos ret ∈ s.calls)
    (hstep : runCacheCall P s (.blkWalk allocSize flag pos ret) env = some t) :
    CacheInv P t := by
  obtain ⟨dev, hdev⟩ := h.exists_dev hold rfl
  cases pos with
  | none =>
      simp only [runCacheCall, hdev, Option.some.injEq] at hstep
      subst hstep
      refine h.section_ok hold hdev rfl rfl rfl rfl rfl fun v hv => ?_
      rw [DevView.add_walk] at hv
      rw [DevView.add_ref _ rfl rfl rfl]
      exact DevOk.leave (v := { v with refs := v.refs + 1 }) hv
  | some addr =>
      simp only [runCacheCall, hdev] at hstep
      cases hx : locate (fun c : CacheSpInfo => c.addr == addr) [] dev.cacheRbtree with
      | none => simp [hx] at hstep
      | some x =>
          have hroot := (locate_eq_some hx).1
          have hxmem : x.a ∈ dev.caches := Loc.mem_toList hroot
          have htry := cacheSpBlkTry_areas (P := P) env.bal dev x.a allocSize
          rcases hres : cacheSpBlkTry P env.bal dev x.a allocSize with
            ⟨e | ⟨offset, realSize⟩, dev'⟩
          · simp only [hx, hres, Option.some.injEq] at hstep
            rw [hres] at htry
            subst hstep
            refine h.section_ok hold hdev rfl rfl rfl rfl htry fun v hv => ?_
            rw [DevView.add_walk] at hv ⊢
            obtain ⟨hdev', hmem⟩ := hv.tryAlloc_error hxmem hres
            refine DevOk.walkOn (v := { v with refs := v.refs + 1 }) hdev' fun a ha => ?_
            obtain ⟨y, hy, rfl⟩ := Option.map_eq_some_iff.mp ha
            exact hmem _ ⟨y.a, Loc.mem_toList ((root_of_rbNext hy).trans hroot), rfl⟩
          · simp only [hx, hres, Option.some.injEq] at hstep
            rw [hres] at htry
            subst hstep
            refine h.section_gain hold hdev rfl rfl rfl rfl
              { dev' with cacheSem := dev'.cacheSem - 1 } ⟨flag, offset, realSize⟩ [] htry rfl
              ⟨rfl, rfl, rfl⟩ ?_ (by simp) fun v hv => ?_
            · exact fun e => CacheRun.view_live _ _ e
            · rw [DevView.add_walk] at hv
              rw [DevView.add_ref _ rfl rfl rfl]
              exact DevOk.leave
                (v := { v with refs := v.refs + 1, held := ⟨flag, offset, realSize⟩ :: v.held })
                (hv.tryAlloc_ok hxmem flag hres)

theorem blkFree (h : CacheInv P s) {blk : SpBlock} (hold : .blkFree blk ∈ s.calls)
    (hstep : runCacheCall P s (.blkFree blk) env = some t) : CacheInv P t := by
  obtain ⟨dev, hdev⟩ := h.exists_dev hold rfl
  have hfree := cacheSpFreeToCache_areas env.kmalloc env.bal dev blk
  simp only [runCacheCall, hdev] at hstep
  rcases hres : cacheSpFreeToCache env.kmalloc env.bal dev blk with ⟨e | ⟨⟩, dev'⟩
  · simp only [hres, Option.some.injEq] at hstep
    rw [hres] at hfree
    subst hstep
    refine h.section_gain hold hdev rfl rfl rfl rfl dev' blk [blk] hfree rfl ⟨rfl, rfl, rfl⟩ ?_
      (by simp) fun v hv => ?_
    · exact fun e => CacheRun.view_lost _ blk e
    · rw [DevView.add_free] at hv
      rw [DevView.add_ref _ rfl rfl rfl]
      exact DevOk.free_failed (v := { v with refs := v.refs + 1 }) hv hres
  · simp only [hres, Option.some.injEq] at hstep
    rw [hres] at hfree
    subst hstep
    refine h.section_ok hold hdev rfl rfl rfl rfl hfree fun v hv => ?_
    rw [DevView.add_free] at hv
    rw [DevView.add_ref _ rfl rfl rfl]
    exact DevOk.freed (v := { v with refs := v.refs + 1 }) hv hres

theorem query (h : CacheInv P s) {devid cacheCnt : ℕ} (hold : .query devid cacheCnt ∈ s.calls)
    (hstep : runCacheCall P s (.query devid cacheCnt) env = some t) : CacheInv P t := by
  obtain ⟨dev, hdev⟩ := h.exists_dev hold rfl
  obtain rfl := Option.some.inj hstep
  refine h.section_same hold hdev rfl rfl (fun v hv => ?_) rfl rfl
    (h.areas_goOn hold rfl rfl rfl rfl)
  rw [DevView.add_ref _ rfl rfl rfl] at hv ⊢
  exact hv

theorem put (h : CacheInv P s) {devid : ℕ} {ret : Option Errno}
    (hold : .put devid ret ∈ s.calls)
    (hstep : runCacheCall P s (.put devid ret) env = some t) : CacheInv P t := by
  obtain ⟨dev, hdev⟩ := h.exists_dev hold rfl
  have hput : cacheDevPut s.ctrl devid =
      s.ctrl.setDev devid (some { dev with ref := dev.ref - 1 }) := by
    rw [cacheDevPut, hdev]
  obtain rfl := Option.some.inj hstep
  rw [hput]
  refine h.of_dev devid (fun e he => ⟨?_, devInfo_setDev_of_ne _ _ he⟩) ?_
    (fun _ _ => h.dev_lt devid dev hdev) ?_ rfl rfl
  · exact view_without_of_ne hold (refDev_ne rfl he)
  · have hwithout := h.slot_without hold devid
    rw [hdev, DevView.add_ref _ rfl rfl rfl] at hwithout
    rw [devInfo_setDev_self]
    exact DevOk.put (v := (s.without (.put devid ret)).view devid) hwithout
  · exact h.areas_without hold rfl rfl (cacheAreas_setDev _ _ (by rw [hdev]; rfl))

theorem run (h : CacheInv P s) (hold : call ∈ s.calls)
    (hstep : runCacheCall P s call env = some t) : CacheInv P t := by
  cases call with
  | create arg => exact h.create_get hold hstep
  | infoCreate arg => exact h.infoCreate hold hstep
  | infoLink arg area => exact h.infoLink hold hstep
  | blkAlloc allocSize flag => exact h.blkAlloc hold hstep
  | blkWalk allocSize flag pos ret => exact h.blkWalk hold hstep
  | blkFree blk => exact h.blkFree hold hstep
  | query devid cacheCnt => exact h.query hold hstep
  | put devid ret => exact h.put hold hstep

end CacheInv

end OpiaiKernel.Xsmem
