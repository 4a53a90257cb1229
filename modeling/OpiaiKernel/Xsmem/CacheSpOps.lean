import OpiaiKernel.Xsmem.CacheSpRuns

/-!
# The operations on the cached share pool

Starting a call takes a reference to its device.  A device is destroyed only
without references and without allocated bytes, and then nothing of it is in use;
its areas go back to the share pool.
-/

namespace OpiaiKernel.Xsmem

open AugTree Span

variable {P : PageSize}

/-! ## Blocks of one device -/

namespace DevOk

variable {v : DevView} {dev : CacheDevInfo} {a b : SpBlock}

theorem block (h : DevOk P v dev) (hb : b ∈ v.held) :
    ∃ c ∈ dev.caches, c.addr ≤ b.offset ∧ b.span.stop ≤ c.area.stop ∧ AreaOk P c.area ∧
      0 < b.realSize ∧ P.bytes ∣ b.offset ∧ P.bytes ∣ b.realSize := by
  obtain ⟨c, hc, hholds⟩ := h.home b hb
  have hcache := h.cache c hc
  obtain ⟨hpos, hoff, hsize, hstop⟩ :=
    hcache.block (List.mem_filter.mpr ⟨hb, by simpa using hholds⟩) hholds
  exact ⟨c, hc, hholds.1, hstop, hcache.area, hpos, hoff, hsize⟩

theorem held_apart (h : DevOk P v dev) : (v.held.map SpBlock.span).Pairwise Apart := by
  rw [List.pairwise_map, List.pairwise_iff_forall_sublist]
  intro a b hab
  have ha : a ∈ v.held := hab.subset (by simp)
  have hb : b ∈ v.held := hab.subset (by simp)
  obtain ⟨c, hc, hca⟩ := h.home a ha
  obtain ⟨e, he, heb⟩ := h.home b hb
  by_cases hcb : c.Holds b
  · -- in one cache the allocator keeps them apart
    have hsub := hab.filter fun b => decide (c.Holds b)
    rw [List.filter_cons_of_pos (by simpa using hca),
      List.filter_cons_of_pos (by simpa using hcb)] at hsub
    have hap := (h.cache c hc).fault.tiling.apart.sublist (hsub.map (SpBlock.inside c.addr))
    have hap : Apart (a.inside c.addr) (b.inside c.addr) := by simpa using hap
    obtain ⟨hle, -⟩ := hca
    obtain ⟨hle', -⟩ := hcb
    simp only [Apart, SpBlock.inside, SpBlock.span, stop] at hap ⊢
    omega
  · have hne : c ≠ e := fun heq => hcb (heq ▸ heb)
    have hblock : ∀ k ∈ dev.caches, ∀ b ∈ v.held, k.Holds b →
        b.offset + b.realSize ≤ k.addr + k.totalSize := fun k hk b hb hkb =>
      ((h.cache k hk).block (List.mem_filter.mpr ⟨hb, by simpa using hkb⟩) hkb).2.2.2
    have hstop := hblock c hc a ha hca
    have hstop' := hblock e he b hb heb
    obtain ⟨hle, -⟩ := hca
    obtain ⟨hle', -⟩ := heb
    simp only [Apart, SpBlock.span, stop]
    rcases h.order hc he with heq | hord | hord
    · exact absurd heq hne
    · simp only [CacheSpInfo.area, stop] at hord
      omega
    · simp only [CacheSpInfo.area, stop] at hord
      omega

theorem sum_lt (h : DevOk P v dev) : (v.held.map SpBlock.realSize).sum < 2 ^ 64 := by
  have hle := total_le_of_apart (N := 2 ^ 64 - 1) h.held_apart (by
    intro a ha
    obtain ⟨b, hb, rfl⟩ := List.mem_map.mp ha
    obtain ⟨c, hc, -, hstop, harea, -⟩ := h.block hb
    have := harea.stop_lt
    omega)
  rw [Span.total, List.map_map] at hle
  have hpos := Nat.two_pow_pos 64
  exact lt_of_le_of_lt hle (by omega)

/-- The device counts no bytes exactly when it has no block. -/
theorem allocSize_eq_zero (h : DevOk P v dev) : dev.allocSize = 0 ↔ v.held = [] := by
  rw [h.alloc, Nat.mod_eq_of_lt h.sum_lt]
  constructor
  · intro hsum
    by_contra hne
    obtain ⟨b, hb⟩ := List.exists_mem_of_ne_nil _ hne
    obtain ⟨-, -, -, -, -, hpos, -⟩ := h.block hb
    have hle := size_le_total (List.mem_map_of_mem (f := SpBlock.span) hb)
    rw [Span.total, List.map_map] at hle
    change b.realSize ≤ (v.held.map SpBlock.realSize).sum at hle
    omega
  · rintro hnil
    simp [hnil]

end DevOk

/-! ## Destroying devices -/

theorem foldl_spAlgoFree (l : List CacheSpInfo) {sp : List Span} (hok : ∀ a ∈ sp, AreaOk P a)
    (hapart : sp.Pairwise Apart)
    (hle : ∀ a, (l.map CacheSpInfo.area).count a ≤ sp.count a) :
    (∀ a, (l.foldl (fun sp c => (spAlgoFree sp c.addr).2) sp).count a +
      (l.map CacheSpInfo.area).count a = sp.count a) ∧
    (∀ a ∈ l.foldl (fun sp c => (spAlgoFree sp c.addr).2) sp, AreaOk P a) ∧
    (l.foldl (fun sp c => (spAlgoFree sp c.addr).2) sp).Pairwise Apart := by
  induction l generalizing sp with
  | nil => exact ⟨fun a => rfl, hok, hapart⟩
  | cons c l ih =>
      have hmem : c.area ∈ sp := by
        have := hle c.area
        rw [List.map_cons, List.count_cons_self] at this
        exact List.count_pos_iff.mp (by omega)
      have hfree : spAlgoFree sp c.addr = (.ok (), sp.erase c.area) :=
        spAlgoFree_of_mem hapart (fun b hb => (hok b hb).pos) hmem
      have hperm := List.perm_cons_erase hmem
      simp only [List.foldl_cons, hfree, List.map_cons]
      obtain ⟨hcount, hok', hapart'⟩ := @ih (sp.erase c.area)
        (fun a ha => hok a (List.mem_of_mem_erase ha)) (hapart.sublist List.erase_sublist)
        (fun a => by
          have h₁ := hle a
          have h₂ := hperm.count_eq a
          rw [List.map_cons, List.count_cons] at h₁
          rw [List.count_cons] at h₂
          omega)
      refine ⟨fun a => ?_, hok', hapart'⟩
      have h₁ := hcount a
      have h₂ := hperm.count_eq a
      rw [List.count_cons] at h₂ ⊢
      omega

/-- Destroying a device gives back the areas of its caches. -/
theorem AreasOk.destroy {ctrl : CacheSpCtrl} {others : List Span} (h : AreasOk P ctrl others)
    {d : ℕ} {dev : CacheDevInfo} (hlt : d < XSMEM_MAX_DEV_NUM)
    (hdev : ctrl.devInfo d = some dev) :
    AreasOk P ((cacheSpDestroyDev ctrl dev).setDev d none) others ∧
      ∀ a, ((cacheSpDestroyDev ctrl dev).setDev d none).spCtrl.count a +
        (dev.caches.map CacheSpInfo.area).count a = ctrl.spCtrl.count a := by
  have hset : ∀ a, ((cacheSpDestroyDev ctrl dev).setDev d none).cacheAreas.count a +
      (dev.caches.map CacheSpInfo.area).count a = ctrl.cacheAreas.count a := by
    intro a
    have := count_setDev (cacheSpDestroyDev ctrl dev) hlt none a
    have hareas : areasOf ((cacheSpDestroyDev ctrl dev).devInfo d) =
        dev.caches.map CacheSpInfo.area := by
      change areasOf (ctrl.devInfo d) = _
      rw [hdev]
      rfl
    rw [hareas] at this
    simpa [areasOf, cacheSpDestroyDev, CacheSpCtrl.cacheAreas] using this
  obtain ⟨hcount, hok, hapart⟩ := foldl_spAlgoFree dev.caches h.ok h.apart fun a => by
    have h₁ := h.count a
    have h₂ := hset a
    omega
  refine ⟨⟨fun a => ?_, hok, hapart⟩, hcount⟩
  have h₁ := h.count a
  have h₂ := hset a
  have h₃ := hcount a
  change List.count a (dev.caches.foldl (fun sp c => (spAlgoFree sp c.addr).2) ctrl.spCtrl) = _
  omega

theorem destroyAll_spec {others : List Span} (l : List ℕ) (hl : ∀ d ∈ l, d < XSMEM_MAX_DEV_NUM)
    {ctrl : CacheSpCtrl} (h : AreasOk P ctrl others) :
    AreasOk P (l.foldl (fun ctrl devid =>
        match ctrl.devInfo devid with
        | none => ctrl
        | some dev => (cacheSpDestroyDev ctrl dev).setDev devid none) ctrl) others ∧
      (l.foldl (fun ctrl devid =>
        match ctrl.devInfo devid with
        | none => ctrl
        | some dev => (cacheSpDestroyDev ctrl dev).setDev devid none) ctrl).osInfo = ctrl.osInfo ∧
      ∀ e, (l.foldl (fun ctrl devid =>
        match ctrl.devInfo devid with
        | none => ctrl
        | some dev => (cacheSpDestroyDev ctrl dev).setDev devid none) ctrl).devInfo e =
          if e ∈ l then none else ctrl.devInfo e := by
  induction l generalizing ctrl with
  | nil => exact ⟨h, rfl, fun e => by simp⟩
  | cons d l ih =>
      have hl' : ∀ e ∈ l, e < XSMEM_MAX_DEV_NUM := fun e he => hl e (List.mem_cons_of_mem d he)
      simp only [List.foldl_cons]
      cases hdev : ctrl.devInfo d with
      | none =>
          obtain ⟨hareas, hos, hdevs⟩ := ih hl' h
          refine ⟨hareas, hos, fun e => ?_⟩
          rw [hdevs]
          by_cases hed : e = d
          · subst hed
            simp [hdev]
          · simp [hed]
      | some dev =>
          obtain ⟨hareas, hos, hdevs⟩ := ih hl' (h.destroy (hl d (by simp)) hdev).1
          refine ⟨hareas, hos, fun e => ?_⟩
          rw [hdevs]
          by_cases hed : e = d
          · subst hed
            simp [devInfo_setDev_self]
          · rw [devInfo_setDev_of_ne _ _ hed]
            simp [hed, cacheSpDestroyDev]

/-! ## The operations -/

namespace CacheRun

theorem walks_le (s : CacheRun) (d : ℕ) : (s.view d).walks.length ≤ (s.view d).refs := by
  simp only [view]
  induction s.calls with
  | nil => simp
  | cons call calls ih =>
      rw [List.countP_cons]
      cases hw : call.walk d with
      | none =>
          rw [List.filterMap_cons_none hw]
          omega
      | some pos =>
          rw [List.filterMap_cons_some hw, List.length_cons]
          have href : call.refDev = some d := by
            cases call <;> simp_all [CacheCall.walk, CacheCall.refDev]
          simp only [href, decide_true, if_true]
          omega

end CacheRun

namespace CacheInv

variable {s t : CacheRun}

/-- A call starts with a reference to its device. -/
theorem start (h : CacheInv P s) {d : ℕ} {ctrl : CacheSpCtrl} {call : CacheCall}
    (live : List SpBlock) (hget : cacheDevGet s.ctrl d = some ctrl)
    (href : call.refDev = some d) (hwalk : call.walk d = none) (hnone : call.newArea = none)
    (hlive : s.live.Perm (call.freeing.toList ++ live)) :
    CacheInv P { s.start call ctrl with live := live } := by
  obtain ⟨dev, hdev, rfl⟩ := Option.map_eq_some_iff.mp hget
  -- the call keeps what it took from the blocks that can be freed
  have hview : ∀ e, ({ s.start call (s.ctrl.setDev d (some { dev with ref := dev.ref + 1 })) with
      live := live }.view e).Same
      { s.view e with refs := (s.view e).refs + if call.refDev = some e then 1 else 0 } := by
    intro e
    have hcons := CacheRun.view_cons
      { s with ctrl := s.ctrl.setDev d (some { dev with ref := dev.ref + 1 }), live := live } call e
    refine ⟨hcons.refs, hcons.walks.trans ?_, hcons.held.trans ?_, hcons.lost⟩
    · have hw : call.walk e = none := by
        cases call <;> simp_all [CacheCall.walk, CacheCall.refDev]
      simp only [DevView.add, hw]
      exact .refl _
    · simp only [DevView.add, CacheRun.view]
      rw [← List.filter_append]
      refine List.Perm.filter _ ?_
      simp only [CacheRun.held]
      rw [← List.append_assoc, ← List.append_assoc]
      exact (hlive.symm.append_right _).append_right _
  refine h.of_dev d (fun e he => ⟨?_, devInfo_setDev_of_ne _ _ he⟩) ?_
    (fun _ _ => h.dev_lt d dev hdev) ?_ rfl rfl
  · have := (hview e).symm
    rw [href, if_neg (fun heq => he (Option.some.inj heq).symm)] at this
    exact this
  · have hslot := h.slot d
    rw [hdev] at hslot
    change DevSlot P _ ((s.ctrl.setDev d _).devInfo d)
    rw [devInfo_setDev_self]
    have hsame := (hview d).symm
    rw [if_pos href] at hsame
    exact DevSlot.same (o := some { dev with ref := dev.ref + 1 }) (DevOk.get hslot) hsame
  · refine h.areas.regroup rfl fun a => ?_
    have hothers : ({ s.start call (s.ctrl.setDev d (some { dev with ref := dev.ref + 1 })) with
        live := live } : CacheRun).others = s.others := by
      simp [CacheRun.others, CacheRun.start, hnone]
    rw [hothers]
    change (s.ctrl.setDev d _).cacheAreas.count a + _ = _
    rw [cacheAreas_setDev _ _ (by rw [hdev]; rfl)]

theorem create (h : CacheInv P s) {arg : XsmCacheCreateArg} {kvzalloc : Bool}
    (hstep : cacheStep P s (.create arg kvzalloc) = some t) : CacheInv P t := by
  have hcall : ∀ e, (s.view e).Same
      (({ s with calls := .create arg :: s.calls } : CacheRun).view e) := by
    intro e
    have := (CacheRun.view_cons s (.create arg) e).symm
    rwa [DevView.add_of_ne _ (by simp [CacheCall.refDev])] at this
  have hothers : ({ s with calls := .create arg :: s.calls } : CacheRun).others = s.others := by
    simp only [CacheRun.others, List.filterMap_cons, CacheCall.newArea]
  simp only [cacheStep] at hstep
  cases hpara : cacheSpCreateParaCheck arg with
  | error e =>
      rw [hpara] at hstep
      exact Option.some.inj hstep ▸ h
  | ok u =>
      have hlt : arg.devId < XSMEM_MAX_DEV_NUM := by
        unfold cacheSpCreateParaCheck at hpara
        split at hpara
        · simp at hpara
        · omega
      cases hdev : s.ctrl.devInfo arg.devId with
      | some dev =>
          simp only [hpara, cacheDevCreate, hdev, Option.some.injEq] at hstep
          subst hstep
          refine h.of_dev arg.devId (fun e _ => ⟨hcall e, rfl⟩) ((h.slot _).same (hcall _))
            (h.dev_lt _) ?_ rfl rfl
          exact h.areas.regroup rfl fun a => congrArg (fun l => _ + List.count a l) hothers
      | none =>
          cases kvzalloc with
          | false =>
              simp only [hpara, cacheDevCreate, hdev, Bool.false_eq_true, if_false,
                Option.some.injEq] at hstep
              exact hstep ▸ h
          | true =>
              simp only [hpara, cacheDevCreate, hdev, if_true, Option.some.injEq] at hstep
              subst hstep
              refine h.of_dev arg.devId
                (fun e he => ⟨hcall e, devInfo_setDev_of_ne _ _ he⟩) ?_ (fun _ _ => hlt) ?_ rfl rfl
              · have hslot := (h.slot arg.devId).same (hcall arg.devId)
                rw [hdev] at hslot
                obtain ⟨hrefs, hwalks, hheld⟩ := hslot
                change DevSlot P _ ((s.ctrl.setDev arg.devId _).devInfo arg.devId)
                rw [devInfo_setDev_self]
                constructor
                · change (1 : ℤ) = 1 + ((({ s with calls := .create arg :: s.calls } :
                    CacheRun).view arg.devId).refs : ℤ)
                  rw [hrefs]
                  rfl
                · change 0 = (({ s with calls := .create arg :: s.calls } :
                    CacheRun).view arg.devId).walks.length
                  rw [hwalks]
                  rfl
                · intro a ha
                  change some a ∈ (({ s with calls := .create arg :: s.calls } :
                    CacheRun).view arg.devId).walks at ha
                  simp [hwalks] at ha
                · rfl
                · rfl
                · change 0 = ((({ s with calls := .create arg :: s.calls } :
                    CacheRun).view arg.devId).held.map SpBlock.realSize).sum % 2 ^ 64
                  rw [hheld]
                  rfl
                · exact .nil
                · intro b hb
                  change b ∈ (({ s with calls := .create arg :: s.calls } :
                    CacheRun).view arg.devId).held at hb
                  simp [hheld] at hb
                · intro c hc
                  simp [CacheDevInfo.caches] at hc
              · refine h.areas.regroup rfl fun a => ?_
                change (s.ctrl.setDev arg.devId _).cacheAreas.count a +
                  ({ s with calls := .create arg :: s.calls } : CacheRun).others.count a = _
                rw [cacheAreas_setDev _ _ (by rw [hdev]; rfl), hothers]

theorem destroy (h : CacheInv P s) {devid : ℕ}
    (hstep : cacheStep P s (.destroy devid) = some t) : CacheInv P t := by
  obtain rfl := Option.some.inj hstep
  unfold cacheSpAlgoCacheDestroy
  split
  · exact h
  · unfold cacheDevDestroy
    cases hdev : s.ctrl.devInfo devid with
    | none => exact h
    | some dev =>
        dsimp only
        split
        · exact h
        · next hsize =>
            split
            · exact h
            · next href =>
                have hlt := h.dev_lt _ _ hdev
                have hslot := h.slot devid
                rw [hdev] at hslot
                have hslot : DevOk P (s.view devid) dev := hslot
                obtain ⟨hareas, -⟩ := h.areas.destroy hlt hdev
                refine h.of_dev devid
                  (fun e he => ⟨DevView.Same.refl _, devInfo_setDev_of_ne _ _ he⟩) ?_
                  (fun _ _ => hlt) hareas rfl rfl
                change DevSlot P (s.view devid) (((cacheSpDestroyDev s.ctrl dev).setDev devid
                  none).devInfo devid)
                rw [devInfo_setDev_self]
                have hrefs : (s.view devid).refs = 0 := by
                  have := hslot.ref
                  omega
                have hwalks := s.walks_le devid
                exact ⟨hrefs, List.length_eq_zero_iff.mp (by omega),
                  hslot.allocSize_eq_zero.mp (not_not.mp hsize)⟩

theorem startQuery (h : CacheInv P s) {devid cacheCnt : ℕ}
    (hstep : cacheStep P s (.query devid cacheCnt) = some t) : CacheInv P t := by
  simp only [cacheStep] at hstep
  split at hstep
  · exact Option.some.inj hstep ▸ h
  · cases hget : cacheDevGet s.ctrl devid with
    | none =>
        rw [hget] at hstep
        exact Option.some.inj hstep ▸ h
    | some ctrl =>
        rw [hget] at hstep
        obtain rfl := Option.some.inj hstep
        exact h.start s.live hget rfl rfl rfl (.refl _)

theorem alloc (h : CacheInv P s) {allocSize flag : ℕ} {env : SpEnv}
    (hstep : cacheStep P s (.alloc allocSize flag env) = some t) : CacheInv P t := by
  simp only [cacheStep] at hstep
  split at hstep
  · split at hstep
    · next hanswers =>
        unfold cacheSpAlgoAllocFromOs at hstep
        rcases hres : spAlgoAlloc P env s.ctrl.spCtrl allocSize with ⟨e | ⟨addr, size⟩, sp⟩
        · simp only [hres, Option.some.injEq] at hstep
          subst hstep
          rw [spAlgoAlloc_error hres]
          exact h
        · simp only [hres, Option.some.injEq] at hstep
          subst hstep
          obtain ⟨harea, hfree, hsp⟩ := spAlgoAlloc_ok hanswers hres
          refine ⟨h.dev_lt, h.slot, ?_, ?_, ?_⟩
          · refine h.areas.alloc harea hfree hsp rfl fun b => ?_
            simp only [CacheRun.others, List.map_cons, SpBlock.span]
            rw [List.perm_middle.count_eq]
          · change Word.add 64 s.ctrl.osInfo.allocedSize size = _
            rw [h.os_size, Word.mod_add, List.map_cons, List.sum_cons, Nat.add_comm]
          · change Word.add 64 s.ctrl.osInfo.blkCnt 1 = _
            rw [h.os_cnt, Word.mod_add, List.length_cons]
    · simp at hstep
  · split at hstep
    · exact Option.some.inj hstep ▸ h
    · cases hget : cacheDevGet s.ctrl (spGetDeviceIdFromFlags flag) with
      | none =>
          rw [hget] at hstep
          exact Option.some.inj hstep ▸ h
      | some ctrl =>
          rw [hget] at hstep
          obtain rfl := Option.some.inj hstep
          exact h.start s.live hget rfl rfl rfl (.refl _)

/-- A block that can be freed is one of the blocks of its device. -/
theorem mem_view_of_live {blk : SpBlock} (hblk : blk ∈ s.live) : blk ∈ (s.view blk.devid).held :=
  List.mem_filter.mpr ⟨by simp [CacheRun.held, hblk], by simp⟩

theorem exists_dev_of_held (h : CacheInv P s) {d : ℕ} {blk : SpBlock}
    (hblk : blk ∈ (s.view d).held) : ∃ dev, s.ctrl.devInfo d = some dev := by
  cases hdev : s.ctrl.devInfo d with
  | some dev => exact ⟨dev, rfl⟩
  | none =>
      have hslot := h.slot d
      rw [hdev] at hslot
      have hheld : (s.view d).held = [] := hslot.2.2
      rw [hheld] at hblk
      simp at hblk

theorem span_mem_others {blk : SpBlock} (hblk : blk ∈ s.osLive) : blk.span ∈ s.others :=
  List.mem_append_right _ (List.mem_map_of_mem hblk)

/-- A block from the share pool is one of its areas. -/
theorem freeToOs_eq (h : CacheInv P s) {blk : SpBlock} (hblk : blk ∈ s.osLive) :
    cacheSpAlgoFreeToOs s.ctrl blk = (.ok (),
      { s.ctrl with
        spCtrl := s.ctrl.spCtrl.erase blk.span
        osInfo := ⟨Word.sub 64 s.ctrl.osInfo.allocedSize blk.realSize,
          Word.sub 64 s.ctrl.osInfo.blkCnt 1⟩ }) := by
  have hfree : spAlgoFree s.ctrl.spCtrl blk.offset = (.ok (), s.ctrl.spCtrl.erase blk.span) :=
    spAlgoFree_of_mem h.areas.apart (fun a ha => (h.areas.ok a ha).pos)
      (h.areas.mem_others (span_mem_others hblk))
  rw [cacheSpAlgoFreeToOs, hfree]

theorem free (h : CacheInv P s) {blk : SpBlock}
    (hstep : cacheStep P s (.free blk) = some t) : CacheInv P t := by
  simp only [cacheStep] at hstep
  split at hstep
  · split at hstep
    · next hblk =>
        obtain rfl := Option.some.inj hstep
        rw [h.freeToOs_eq hblk]
        have hperm := List.perm_cons_erase hblk
        refine ⟨h.dev_lt, h.slot, ?_, ?_, ?_⟩
        · have hmem := h.areas.mem_others (span_mem_others hblk)
          refine h.areas.free hmem ?_ fun b => ?_
          · rw [spAlgoFree_of_mem h.areas.apart (fun a ha => (h.areas.ok a ha).pos) hmem]
          · have hcount := (hperm.map SpBlock.span).count_eq b
            rw [List.map_cons, List.count_cons] at hcount
            have hcaches : CacheSpCtrl.cacheAreas
                { s.ctrl with
                  spCtrl := s.ctrl.spCtrl.erase blk.span
                  osInfo := ⟨Word.sub 64 s.ctrl.osInfo.allocedSize blk.realSize,
                    Word.sub 64 s.ctrl.osInfo.blkCnt 1⟩ } = s.ctrl.cacheAreas := rfl
            simp only [CacheRun.others, List.count_append, List.count_singleton, hcaches]
            omega
        · have hsum := (hperm.map SpBlock.realSize).sum_eq
          rw [List.map_cons, List.sum_cons] at hsum
          change Word.sub 64 s.ctrl.osInfo.allocedSize blk.realSize = _
          rw [h.os_size, hsum, Word.mod_sub (by omega), Nat.add_sub_cancel_left]
        · have hlen := hperm.length_eq
          rw [List.length_cons] at hlen
          change Word.sub 64 s.ctrl.osInfo.blkCnt 1 = _
          rw [h.os_cnt, hlen, Word.mod_sub (by omega), Nat.add_sub_cancel]
    · simp at hstep
  · split at hstep
    · next hblk =>
        obtain ⟨dev, hdev⟩ := h.exists_dev_of_held (mem_view_of_live hblk)
        have hget : cacheDevGet s.ctrl blk.devid =
            some (s.ctrl.setDev blk.devid (some { dev with ref := dev.ref + 1 })) := by
          rw [cacheDevGet, hdev, Option.map_some]
        rw [hget] at hstep
        obtain rfl := Option.some.inj hstep
        exact h.start (s.live.erase blk) hget rfl rfl rfl (List.perm_cons_erase hblk)
    · simp at hstep

/-- With the pool all areas go back. -/
theorem poolFree (h : CacheInv P s) (hstep : cacheStep P s .poolFree = some t) :
    CacheInv P t ∧ t.ctrl.spCtrl = [] := by
  simp only [cacheStep] at hstep
  split at hstep
  · next hidle =>
      obtain ⟨hcalls, hlive, hosLive⟩ := hidle
      obtain rfl := Option.some.inj hstep
      have hothers : s.others = [] := by simp [CacheRun.others, hcalls, hosLive]
      obtain ⟨hareas, hos, hdevs⟩ := destroyAll_spec (List.range XSMEM_MAX_DEV_NUM)
        (fun d hd => List.mem_range.mp hd) h.areas
      have hnone : ∀ e, (cacheSpDestroyAllDev s.ctrl).devInfo e = none := by
        intro e
        refine (hdevs e).trans ?_
        split
        · rfl
        · next he =>
            cases hdev : s.ctrl.devInfo e with
            | none => rfl
            | some dev => exact absurd (List.mem_range.mpr (h.dev_lt e dev hdev)) he
      have hareas : AreasOk P (cacheSpDestroyAllDev s.ctrl) s.others := hareas
      refine ⟨⟨fun e dev he => ?_, fun e => ?_, ?_, ?_, ?_⟩, ?_⟩
      · simp [hnone] at he
      · change DevSlot P _ ((cacheSpDestroyAllDev s.ctrl).devInfo e)
        rw [hnone]
        simp [DevSlot, CacheRun.view, CacheRun.held, hcalls, hlive]
      · exact hareas
      · exact (congrArg MemStat.allocedSize hos).trans h.os_size
      · exact (congrArg MemStat.blkCnt hos).trans h.os_cnt
      · refine List.eq_nil_iff_forall_not_mem.mpr fun a ha => ?_
        have hcount := hareas.count a
        have hcaches : (cacheSpDestroyAllDev s.ctrl).cacheAreas = [] := by
          simp [CacheSpCtrl.cacheAreas, hnone, areasOf]
        rw [hothers, hcaches] at hcount
        exact List.count_pos_iff.mpr ha |>.ne' hcount
  · simp at hstep

theorem step (h : CacheInv P s) {op : CacheOp} (hstep : cacheStep P s op = some t) :
    CacheInv P t := by
  cases op with
  | create arg kvzalloc => exact h.create hstep
  | destroy devid => exact h.destroy hstep
  | query devid cacheCnt => exact h.startQuery hstep
  | alloc allocSize flag sp => exact h.alloc hstep
  | free blk => exact h.free hstep
  | run call env =>
      simp only [cacheStep] at hstep
      split at hstep
      · next hold => exact h.run hold hstep
      · simp at hstep
  | poolFree => exact (h.poolFree hstep).1

theorem init (h : (cacheMachine P).init s) : CacheInv P s := by
  obtain ⟨hsp, hdev, hos, hcalls, hlive, hlost, hosLive⟩ := h
  refine ⟨fun d dev hd => by simp [hdev] at hd, fun d => ?_, ⟨fun a => ?_, ?_, ?_⟩, ?_, ?_⟩
  · rw [hdev]
    simp [DevSlot, CacheRun.view, CacheRun.held, hcalls, hlive, hlost]
  · have hcaches : s.ctrl.cacheAreas = [] := by simp [CacheSpCtrl.cacheAreas, hdev, areasOf]
    simp [hsp, hcaches, CacheRun.others, hcalls, hosLive]
  · simp [hsp]
  · simp [hsp]
  · simp [hos, hosLive]
  · simp [hos, hosLive]

theorem of_reach (h : (cacheMachine P).Reach s) : CacheInv P s :=
  h.invariant (fun _ => init) fun _ _ _ hs _ hstep => hs.step hstep

end CacheInv

end OpiaiKernel.Xsmem
