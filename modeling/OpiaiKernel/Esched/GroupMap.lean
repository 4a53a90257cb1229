import Mathlib.Data.List.Range
import OpiaiKernel.Esched.Group

/-!
# The subscription maps of a group

The map of an event id lists the registered threads that subscribe the event.
It is appended to and shortened by the differences of a bitmap when the thread
is registered, and filled from the whole bitmap when the thread registers.
-/

namespace OpiaiKernel.Esched

def subscribed (grp : SchedGrpCtx) (e t : ℕ) : Bool :=
  (grp.threadCtx t).subscribeEventBitmap.getLsbD e

def registered (grp : SchedGrpCtx) (t : ℕ) : Bool := (grp.threadCtx t).valid

/-- The maps list the registered subscribers, and the cpus of a scheduled group
know their threads. -/
structure GrpMapInv (grp : SchedGrpCtx) : Prop where
  uninit : grp.schedMode = .uninit →
    grp.thread = [] ∧ (∀ t, registered grp t = false) ∧ ∀ e, grp.eventThreadMap e = []
  thread_nodup : grp.thread.Nodup
  thread_iff : ∀ t, t ∈ grp.thread ↔ registered grp t = true
  tid_lt : ∀ t, registered grp t = true → t < grp.cfgThreadNum
  map_nodup : ∀ e, (grp.eventThreadMap e).Nodup
  map_iff : ∀ e t,
    t ∈ grp.eventThreadMap e ↔ registered grp t = true ∧ subscribed grp e t = true
  bound_iff : grp.schedMode = .schedCpu → ∀ c t, registered grp t = true →
    (grp.cpuidToTid c = t ↔ (grp.threadCtx t).bindCpuid = c)
  bound : grp.schedMode = .schedCpu → ∀ c,
    grp.cpuidToTid c = grp.cfgThreadNum ∨ registered grp (grp.cpuidToTid c) = true

/-! ## Steps that leave the threads alone -/

/-- The two groups have the same threads, with the same cpus and
subscriptions. -/
structure SameThreads (grp grp' : SchedGrpCtx) : Prop where
  schedMode : grp'.schedMode = grp.schedMode
  cfgThreadNum : grp'.cfgThreadNum = grp.cfgThreadNum
  thread : grp'.thread = grp.thread
  cpuidToTid : grp'.cpuidToTid = grp.cpuidToTid
  eventThreadMap : grp'.eventThreadMap = grp.eventThreadMap
  valid : ∀ t, (grp'.threadCtx t).valid = (grp.threadCtx t).valid
  bindCpuid : ∀ t, (grp'.threadCtx t).bindCpuid = (grp.threadCtx t).bindCpuid
  bitmap : ∀ t,
    (grp'.threadCtx t).subscribeEventBitmap = (grp.threadCtx t).subscribeEventBitmap

section Same

variable {grp grp' grp'' : SchedGrpCtx} {t tid : ℕ}

theorem SameThreads.refl (grp : SchedGrpCtx) : SameThreads grp grp :=
  ⟨rfl, rfl, rfl, rfl, rfl, fun _ => rfl, fun _ => rfl, fun _ => rfl⟩

theorem SameThreads.trans (h : SameThreads grp grp') (h' : SameThreads grp' grp'') :
    SameThreads grp grp'' :=
  ⟨h'.schedMode.trans h.schedMode, h'.cfgThreadNum.trans h.cfgThreadNum,
    h'.thread.trans h.thread, h'.cpuidToTid.trans h.cpuidToTid,
    h'.eventThreadMap.trans h.eventThreadMap, fun t => (h'.valid t).trans (h.valid t),
    fun t => (h'.bindCpuid t).trans (h.bindCpuid t), fun t => (h'.bitmap t).trans (h.bitmap t)⟩

theorem SameThreads.registered (h : SameThreads grp grp') (t : ℕ) :
    registered grp' t = registered grp t := h.valid t

theorem SameThreads.subscribed (h : SameThreads grp grp') (e t : ℕ) :
    subscribed grp' e t = subscribed grp e t := by
  rw [Esched.subscribed, h.bitmap, Esched.subscribed]

theorem GrpMapInv.same (hinv : GrpMapInv grp) (h : SameThreads grp grp') : GrpMapInv grp' := by
  refine ⟨?_, ?_, ?_, ?_, ?_, ?_, ?_, ?_⟩
  · intro hmode
    rw [h.schedMode] at hmode
    obtain ⟨hthread, hreg, hmap⟩ := hinv.uninit hmode
    refine ⟨h.thread.trans hthread, fun t => (h.registered t).trans (hreg t), fun e => ?_⟩
    rw [h.eventThreadMap, hmap]
  · rw [h.thread]
    exact hinv.thread_nodup
  · intro t
    rw [h.thread, h.registered]
    exact hinv.thread_iff t
  · intro t
    rw [h.registered, h.cfgThreadNum]
    exact hinv.tid_lt t
  · rw [h.eventThreadMap]
    exact hinv.map_nodup
  · intro e t
    rw [h.eventThreadMap, h.registered, h.subscribed]
    exact hinv.map_iff e t
  · intro hmode c t hreg
    rw [h.schedMode] at hmode
    rw [h.registered] at hreg
    rw [h.cpuidToTid, h.bindCpuid]
    exact hinv.bound_iff hmode c t hreg
  · intro hmode c
    rw [h.schedMode] at hmode
    rw [h.cpuidToTid, h.cfgThreadNum, h.registered]
    exact hinv.bound hmode c

theorem setThreadCtx_same {ctx : SchedThreadCtx} (hvalid : ctx.valid = (grp.threadCtx tid).valid)
    (hbind : ctx.bindCpuid = (grp.threadCtx tid).bindCpuid)
    (hbitmap : ctx.subscribeEventBitmap = (grp.threadCtx tid).subscribeEventBitmap) :
    SameThreads grp (setThreadCtx grp tid ctx) := by
  refine ⟨rfl, rfl, rfl, rfl, rfl, fun t => ?_, fun t => ?_, fun t => ?_⟩ <;>
    rcases eq_or_ne t tid with rfl | hne
  · simpa [setThreadCtx] using hvalid
  · simp [setThreadCtx, Function.update_of_ne hne]
  · simpa [setThreadCtx] using hbind
  · simp [setThreadCtx, Function.update_of_ne hne]
  · simpa [setThreadCtx] using hbitmap
  · simp [setThreadCtx, Function.update_of_ne hne]

theorem SameThreads.timeoutInfo (h : SameThreads grp grp')
    (eventTimeoutInfo : ℕ → SchedEventTimeoutInfo) :
    SameThreads grp { grp' with eventTimeoutInfo } :=
  ⟨h.schedMode, h.cfgThreadNum, h.thread, h.cpuidToTid, h.eventThreadMap, h.valid, h.bindCpuid,
    h.bitmap⟩

theorem schedThreadStatusCheck_same (grp : SchedGrpCtx) (tid pid : ℕ) :
    SameThreads grp (schedThreadStatusCheck grp tid pid) := by
  dsimp only [schedThreadStatusCheck]
  split
  · exact setThreadCtx_same rfl rfl rfl
  · apply SameThreads.timeoutInfo
    exact setThreadCtx_same rfl rfl rfl

theorem schedWaitReturn_same (grp : SchedGrpCtx) (tid : ℕ) (status : ThreadStatus) :
    SameThreads grp (schedWaitReturn grp tid status) :=
  setThreadCtx_same rfl rfl rfl

theorem schedCheckThreadTimeout_same (grp : SchedGrpCtx) (tid timestamp : ℕ) :
    SameThreads grp (schedCheckThreadTimeout grp tid timestamp) := by
  dsimp only [schedCheckThreadTimeout]
  split
  · exact .refl grp
  · apply SameThreads.timeoutInfo
    exact setThreadCtx_same rfl rfl rfl

end Same

/-! ## Subscriptions -/

section Subscribe

variable {grp : SchedGrpCtx} {tid : ℕ}

@[simp] theorem setThreadCtx_self (grp : SchedGrpCtx) (tid : ℕ) (ctx : SchedThreadCtx) :
    (setThreadCtx grp tid ctx).threadCtx tid = ctx := Function.update_self _ _ _

theorem setThreadCtx_of_ne (grp : SchedGrpCtx) {t : ℕ} (ctx : SchedThreadCtx) (h : t ≠ tid) :
    (setThreadCtx grp tid ctx).threadCtx t = grp.threadCtx t := Function.update_of_ne h _ _

/-- A subscription changes the bitmap of its thread only. -/
theorem registered_subscribe (grp : SchedGrpCtx) (tid : ℕ) (bitmap : BitVec 64) (t : ℕ) :
    registered (schedThreadSubscribeEventCfg grp tid bitmap) t = registered grp t := by
  rcases eq_or_ne t tid with rfl | hne
  · dsimp only [schedThreadSubscribeEventCfg]
    split <;> simp [registered, schedAdjustThreadEvent]
  · dsimp only [schedThreadSubscribeEventCfg]
    split <;> simp [registered, schedAdjustThreadEvent, setThreadCtx_of_ne _ _ hne]

theorem bindCpuid_subscribe (grp : SchedGrpCtx) (tid : ℕ) (bitmap : BitVec 64) (t : ℕ) :
    ((schedThreadSubscribeEventCfg grp tid bitmap).threadCtx t).bindCpuid =
      (grp.threadCtx t).bindCpuid := by
  rcases eq_or_ne t tid with rfl | hne
  · dsimp only [schedThreadSubscribeEventCfg]
    split <;> simp [schedAdjustThreadEvent]
  · dsimp only [schedThreadSubscribeEventCfg]
    split <;> simp [schedAdjustThreadEvent, setThreadCtx_of_ne _ _ hne]

theorem subscribed_subscribe (grp : SchedGrpCtx) (tid : ℕ) (bitmap : BitVec 64) (e t : ℕ) :
    subscribed (schedThreadSubscribeEventCfg grp tid bitmap) e t =
      if t = tid then bitmap.getLsbD e else subscribed grp e t := by
  rcases eq_or_ne t tid with rfl | hne
  · simp [schedThreadSubscribeEventCfg, subscribed]
  · rw [if_neg hne]
    dsimp only [schedThreadSubscribeEventCfg]
    split <;> simp [subscribed, schedAdjustThreadEvent, setThreadCtx_of_ne _ _ hne]

/-- What a subscription does to the map of an event. -/
theorem map_subscribe (grp : SchedGrpCtx) (tid : ℕ) (bitmap : BitVec 64) (e : ℕ) :
    (schedThreadSubscribeEventCfg grp tid bitmap).eventThreadMap e =
      if registered grp tid = false ∨ subscribed grp e tid = bitmap.getLsbD e then
        grp.eventThreadMap e
      else if bitmap.getLsbD e = true then grp.eventThreadMap e ++ [tid]
      else SwapRemove.swapRemove (grp.eventThreadMap e) tid := by
  by_cases hvalid : (grp.threadCtx tid).valid = true
  · simp only [schedThreadSubscribeEventCfg, registered, subscribed, hvalid, if_true, setThreadCtx,
      schedAdjustThreadEvent, schedAdjustEventThreadMap, Bool.true_eq_false, false_or]
    split
    · rfl
    · split <;> rfl
  · simp only [Bool.not_eq_true] at hvalid
    simp [schedThreadSubscribeEventCfg, registered, hvalid, setThreadCtx]

theorem schedThreadSubscribeEventCfg_inv (h : GrpMapInv grp) (htid : tid < grp.cfgThreadNum)
    (hinit : grp.schedMode ≠ .uninit) (bitmap : BitVec 64) :
    GrpMapInv (schedThreadSubscribeEventCfg grp tid bitmap) := by
  have hmode : (schedThreadSubscribeEventCfg grp tid bitmap).schedMode = grp.schedMode := by
    dsimp only [schedThreadSubscribeEventCfg]
    split <;> rfl
  have hcfg : (schedThreadSubscribeEventCfg grp tid bitmap).cfgThreadNum = grp.cfgThreadNum := by
    dsimp only [schedThreadSubscribeEventCfg]
    split <;> rfl
  have hthread : (schedThreadSubscribeEventCfg grp tid bitmap).thread = grp.thread := by
    dsimp only [schedThreadSubscribeEventCfg]
    split <;> rfl
  have hcpu : (schedThreadSubscribeEventCfg grp tid bitmap).cpuidToTid = grp.cpuidToTid := by
    dsimp only [schedThreadSubscribeEventCfg]
    split <;> rfl
  refine ⟨?_, ?_, ?_, ?_, ?_, ?_, ?_, ?_⟩
  · intro huninit
    exact absurd (hmode ▸ huninit) hinit
  · rw [hthread]
    exact h.thread_nodup
  · intro t
    rw [hthread, registered_subscribe]
    exact h.thread_iff t
  · intro t
    rw [registered_subscribe, hcfg]
    exact h.tid_lt t
  · intro e
    rw [map_subscribe]
    split
    · exact h.map_nodup e
    · next hdiff =>
        split
        · next hadd =>
            have hnot : tid ∉ grp.eventThreadMap e := by
              intro hmem
              exact hdiff (Or.inr (((h.map_iff e tid).mp hmem).2.trans hadd.symm))
            exact (h.map_nodup e).append (List.nodup_singleton tid) (by simpa using hnot)
        · exact SwapRemove.nodup (h.map_nodup e) tid
  · intro e t
    rw [map_subscribe, registered_subscribe, subscribed_subscribe]
    have hmap := h.map_iff e t
    rcases eq_or_ne t tid with rfl | hne
    · cases hreg : registered grp t with
      | false => simp [hmap, hreg]
      | true =>
          rw [hreg] at hmap
          cases hnew : bitmap.getLsbD e with
          | false =>
              cases hold : subscribed grp e t with
              | false => simp [hmap, hold]
              | true => simp [SwapRemove.mem_iff (h.map_nodup e)]
          | true =>
              cases hold : subscribed grp e t with
              | false => simp
              | true => simp [hmap, hold]
    · rw [if_neg hne]
      split
      · exact hmap
      · split
        · simp [hmap, hne]
        · simp [SwapRemove.mem_iff (h.map_nodup e), hmap, hne]
  · intro hsched c t hreg
    rw [hmode] at hsched
    rw [registered_subscribe] at hreg
    rw [hcpu, bindCpuid_subscribe]
    exact h.bound_iff hsched c t hreg
  · intro hsched c
    rw [hmode] at hsched
    rw [hcpu, hcfg, registered_subscribe]
    exact h.bound hsched c

end Subscribe

/-! ## Registration -/

section Register

variable {grp grp' : SchedGrpCtx} {tid cpuid pid : ℕ} {r : Except DrvError Unit}

/-- The group after a registration. -/
def added (grp : SchedGrpCtx) (tid cpuid pid : ℕ) : SchedGrpCtx :=
  let bindCpuid := if grp.schedMode = .nonSchedCpu then 0 else cpuid
  { grp with
    thread := grp.thread ++ [tid]
    threadCtx := Function.update grp.threadCtx tid
      { grp.threadCtx tid with
        tid, bindCpuid, status := .idle, kernelTid := pid, valid := true }
    cpuidToTid := Function.update grp.cpuidToTid bindCpuid tid
    eventThreadMap := fun e =>
      if subscribed grp e tid = true then grp.eventThreadMap e ++ [tid] else grp.eventThreadMap e
    eventTimeoutInfo := fun e =>
      if subscribed grp e tid = true then clearTimeoutFlag (grp.eventTimeoutInfo e)
      else grp.eventTimeoutInfo e }

/-- A registration fails when the cpu has a thread of the group. -/
theorem schedGrpAddThread_cases (h : schedGrpAddThread grp tid cpuid pid = (r, grp')) :
    (r = .error .threadExceedsSpec ∧ grp' = grp) ∨
      (r = .ok () ∧ grp' = added grp tid cpuid pid ∧
        (grp.schedMode = .schedCpu → grp.cpuidToTid cpuid = grp.cfgThreadNum)) := by
  by_cases hfull : grp.schedMode = .schedCpu ∧ (grp.cpuidToTid
      (if grp.schedMode = .nonSchedCpu then 0 else cpuid) ≠ grp.cfgThreadNum ∨
      grp.cfgThreadNum ≤ grp.thread.length)
  · dsimp only [schedGrpAddThread] at h
    rw [if_pos hfull] at h
    obtain ⟨rfl, rfl⟩ := Prod.mk.inj h
    exact Or.inl ⟨rfl, rfl⟩
  · dsimp only [schedGrpAddThread] at h
    rw [if_neg hfull] at h
    obtain ⟨rfl, rfl⟩ := Prod.mk.inj h
    refine Or.inr ⟨rfl, ?_, fun hmode => ?_⟩
    · clear h hfull
      simp only [added, schedUpgradeThreadEvent, setThreadCtx, subscribed, Function.update_self,
        Function.update_idem]
      rfl
    · by_contra hne
      simp [hmode, hne] at hfull

theorem registered_added (grp : SchedGrpCtx) (tid cpuid pid t : ℕ) :
    registered (added grp tid cpuid pid) t = if t = tid then true else registered grp t := by
  rcases eq_or_ne t tid with rfl | hne
  · simp [added, registered]
  · simp [added, registered, hne]

theorem subscribed_added (grp : SchedGrpCtx) (tid cpuid pid e t : ℕ) :
    subscribed (added grp tid cpuid pid) e t = subscribed grp e t := by
  rcases eq_or_ne t tid with rfl | hne
  · simp [added, subscribed]
  · simp [added, subscribed, Function.update_of_ne hne]

theorem added_inv (pid : ℕ) (h : GrpMapInv grp) (htid : tid < grp.cfgThreadNum)
    (hinit : grp.schedMode ≠ .uninit) (hnew : registered grp tid = false)
    (hfree : grp.schedMode = .schedCpu → grp.cpuidToTid cpuid = grp.cfgThreadNum) :
    GrpMapInv (added grp tid cpuid pid) := by
  have hnot {t : ℕ} (ht : registered grp t = true) : t ≠ tid := by
    rintro rfl
    rw [hnew] at ht
    cases ht
  refine ⟨fun huninit => absurd huninit hinit, ?_, ?_, ?_, ?_, ?_, ?_, ?_⟩
  · have hmem : tid ∉ grp.thread := fun hmem => hnot ((h.thread_iff tid).mp hmem) rfl
    exact h.thread_nodup.append (List.nodup_singleton tid) (by simpa using hmem)
  · intro t
    rw [registered_added]
    have hthread := h.thread_iff t
    split
    · next heq => simp [added, heq]
    · next hne => simp [added, hthread, hne]
  · intro t ht
    rw [registered_added] at ht
    split at ht
    · next heq => exact heq ▸ htid
    · exact h.tid_lt t ht
  · intro e
    simp only [added]
    split
    · have hmem : tid ∉ grp.eventThreadMap e :=
        fun hmem => hnot ((h.map_iff e tid).mp hmem).1 rfl
      exact (h.map_nodup e).append (List.nodup_singleton tid) (by simpa using hmem)
    · exact h.map_nodup e
  · intro e t
    rw [registered_added, subscribed_added]
    have hmap := h.map_iff e t
    rcases eq_or_ne t tid with rfl | hne
    · rw [hnew] at hmap
      simp only [added, if_true]
      split
      · next hsub => simp [hsub]
      · next hsub => simp [hsub, hmap]
    · simp only [added, if_neg hne]
      split
      · simp [hmap, hne]
      · exact hmap
  · intro hsched c t ht
    have hmode : grp.schedMode = .schedCpu := hsched
    have hbind : (if grp.schedMode = .nonSchedCpu then 0 else cpuid) = cpuid := by simp [hmode]
    rw [registered_added] at ht
    simp only [added, hbind]
    rcases eq_or_ne t tid with rfl | hne
    · rw [Function.update_self]
      rcases eq_or_ne c cpuid with rfl | hc
      · simp
      · rw [Function.update_of_ne hc]
        refine ⟨fun heq => ?_, fun heq => absurd heq.symm hc⟩
        -- the cpu would be bound to a thread that is not registered
        rcases h.bound hmode c with hcfg | hreg
        · omega
        · rw [heq, hnew] at hreg
          cases hreg
    · rw [if_neg hne] at ht
      rw [Function.update_of_ne hne]
      rcases eq_or_ne c cpuid with rfl | hc
      · rw [Function.update_self, ← h.bound_iff hmode c t ht, hfree hmode]
        have hlt := h.tid_lt t ht
        constructor
        · intro heq
          exact absurd heq.symm hne
        · intro heq
          omega
      · rw [Function.update_of_ne hc]
        exact h.bound_iff hmode c t ht
  · intro hsched c
    have hmode : grp.schedMode = .schedCpu := hsched
    have hbind : (if grp.schedMode = .nonSchedCpu then 0 else cpuid) = cpuid := by simp [hmode]
    rw [registered_added]
    simp only [added, hbind]
    rcases eq_or_ne c cpuid with rfl | hc
    · simp
    · rw [Function.update_of_ne hc]
      refine (h.bound hmode c).imp_right fun hreg => ?_
      rw [if_neg (hnot hreg)]
      exact hreg

/-- What a wait does: it fails, goes on, or registers its thread first. -/
theorem schedThreadUpdate_inv (h : GrpMapInv grp) (htid : tid < grp.cfgThreadNum)
    (hinit : grp.schedMode ≠ .uninit) (swapout : Bool) :
    GrpMapInv (schedThreadUpdate grp tid cpuid pid swapout).2 := by
  dsimp only [schedThreadUpdate]
  split
  · exact h
  · have hwaiting : SameThreads grp
        (setThreadCtx grp tid { grp.threadCtx tid with waitFlag := !swapout }) :=
      setThreadCtx_same rfl rfl rfl
    split
    · exact (h.same hwaiting).same (schedThreadStatusCheck_same _ _ _)
    · next hvalid =>
        split
        · next e grp' hadd =>
            obtain ⟨-, rfl⟩ | ⟨hok, -, -⟩ := schedGrpAddThread_cases hadd
            · exact (h.same hwaiting).same (setThreadCtx_same rfl rfl rfl)
            · cases hok
        · next grp' hadd =>
            obtain ⟨herr, -⟩ | ⟨-, rfl, hfree⟩ := schedGrpAddThread_cases hadd
            · cases herr
            · have hnew : registered grp tid = false := Bool.not_eq_true _ ▸ hvalid
              have hadded := added_inv pid (h.same hwaiting) htid hinit
                ((hwaiting.registered tid).trans hnew) hfree
              exact hadded.same (schedThreadStatusCheck_same _ _ _)

theorem schedWaitEvent_inv (h : GrpMapInv grp) (cpu : Option ℕ) (swapout : Bool) :
    GrpMapInv (schedWaitEvent grp tid cpu pid swapout).2 := by
  unfold schedWaitEvent
  split
  · exact h
  · next hmode =>
      split
      · exact h
      · split
        · exact h
        · next hlt => exact schedThreadUpdate_inv h (by omega) (by simp [hmode]) swapout
  · next hmode =>
      split
      · exact h
      · next hlt =>
          split
          · exact h
          · exact schedThreadUpdate_inv h (by omega) (by simp [hmode]) swapout

theorem schedProcAddGrp_inv (h : GrpMapInv grp) (mode : GroupType) (threadNum : ℕ)
    (alloc : Bool) : GrpMapInv (schedProcAddGrp grp mode threadNum alloc).2 := by
  unfold schedProcAddGrp
  split
  · exact h
  · split
    · exact h
    · next huninit =>
        split
        · exact h
        · obtain ⟨hthread, hreg, hmap⟩ := h.uninit (not_not.mp huninit)
          refine ⟨?_, h.thread_nodup, ?_, ?_, h.map_nodup, ?_, ?_, ?_⟩
          · intro hmode
            dsimp only at hmode
            split at hmode <;> cases hmode
          · simp [hthread, registered, zeroThreadCtx]
          · simp [registered, zeroThreadCtx]
          · simp [hmap, registered, zeroThreadCtx]
          · simp [registered, zeroThreadCtx]
          · exact fun _ _ => Or.inl rfl

end Register

/-! ## Runs -/

theorem grpStep_inv {grp grp' : SchedGrpCtx} {op : GrpOp} (h : GrpMapInv grp)
    (hstep : grpStep grp op = some grp') : GrpMapInv grp' := by
  cases op with
  | addGrp mode threadNum alloc =>
      obtain rfl := Option.some.inj hstep
      exact schedProcAddGrp_inv h mode threadNum alloc
  | subscribe tid bitmap =>
      obtain rfl := Option.some.inj hstep
      unfold schedThreadSubscribeEvent
      split
      · exact h
      · split
        · exact h
        · next hinit =>
            split
            · exact h
            · exact schedThreadSubscribeEventCfg_inv h (by omega) hinit bitmap
  | wait tid cpuid pid swapout =>
      obtain rfl := Option.some.inj hstep
      exact schedWaitEvent_inv h cpuid swapout
  | waitReturn tid status =>
      simp only [grpStep, Option.ite_none_right_eq_some, Option.some.injEq] at hstep
      obtain ⟨-, rfl⟩ := hstep
      exact h.same (schedWaitReturn_same grp tid status)
  | timeout tid timestamp =>
      simp only [grpStep, Option.ite_none_right_eq_some, Option.some.injEq] at hstep
      obtain ⟨-, rfl⟩ := hstep
      exact h.same (schedCheckThreadTimeout_same grp tid timestamp)

theorem zeroGrpCtx_mapInv : GrpMapInv zeroGrpCtx := by
  refine ⟨fun _ => ⟨rfl, fun _ => rfl, fun _ => rfl⟩, List.nodup_nil, ?_, ?_,
    fun _ => List.nodup_nil, ?_, ?_, ?_⟩
  · simp [zeroGrpCtx, registered, zeroThreadCtx]
  · simp [zeroGrpCtx, registered, zeroThreadCtx]
  · simp [zeroGrpCtx, registered, zeroThreadCtx]
  · simp [zeroGrpCtx]
  · simp [zeroGrpCtx]

theorem grpMapInv_of_reach {grp : SchedGrpCtx} (h : grpMachine.Reach grp) : GrpMapInv grp := by
  apply h.invariant
  · rintro grp rfl
    exact zeroGrpCtx_mapInv
  · intro grp op grp' hinv _ hstep
    exact grpStep_inv hinv hstep

/-! ## What a group keeps -/

/-- Threads stay registered, the mode stays as it was set, and the context of a
registered thread has the id of the thread. -/
structure Continues (grp grp' : SchedGrpCtx) : Prop where
  registered : ∀ t, registered grp t = true → registered grp' t = true
  schedMode : grp.schedMode ≠ .uninit → grp'.schedMode = grp.schedMode
  tid : (∀ t, Esched.registered grp t = true → (grp.threadCtx t).tid = t) →
    ∀ t, Esched.registered grp' t = true → (grp'.threadCtx t).tid = t

section Continues

variable {grp grp' grp'' : SchedGrpCtx} {tid cpuid pid : ℕ}

theorem Continues.refl (grp : SchedGrpCtx) : Continues grp grp :=
  ⟨fun _ ht => ht, fun _ => rfl, fun h => h⟩

theorem Continues.trans (h : Continues grp grp') (h' : Continues grp' grp'') :
    Continues grp grp'' := by
  refine ⟨fun t ht => h'.registered t (h.registered t ht), fun hinit => ?_,
    fun htid => h'.tid (h.tid htid)⟩
  have hmode := h.schedMode hinit
  rw [h'.schedMode (by rwa [hmode]), hmode]

theorem setThreadCtx_continues {ctx : SchedThreadCtx}
    (hvalid : ctx.valid = (grp.threadCtx tid).valid) (htid : ctx.tid = (grp.threadCtx tid).tid) :
    Continues grp (setThreadCtx grp tid ctx) := by
  have hreg (t : ℕ) : registered (setThreadCtx grp tid ctx) t = registered grp t := by
    rcases eq_or_ne t tid with rfl | hne
    · simpa [registered] using hvalid
    · simp [registered, setThreadCtx_of_ne _ _ hne]
  have hid (t : ℕ) : ((setThreadCtx grp tid ctx).threadCtx t).tid = (grp.threadCtx t).tid := by
    rcases eq_or_ne t tid with rfl | hne
    · simpa using htid
    · rw [setThreadCtx_of_ne _ _ hne]
  refine ⟨fun t ht => (hreg t).trans ht, fun _ => rfl, fun h t ht => ?_⟩
  rw [hid]
  exact h t ((hreg t).symm.trans ht)

theorem schedThreadStatusCheck_continues (grp : SchedGrpCtx) (tid pid : ℕ) :
    Continues grp (schedThreadStatusCheck grp tid pid) := by
  dsimp only [schedThreadStatusCheck]
  split
  · exact setThreadCtx_continues rfl rfl
  · have h : Continues grp (setThreadCtx grp tid { grp.threadCtx tid with
        kernelTid := pid, timeoutFlag := false, timeoutDetected := false }) :=
      setThreadCtx_continues rfl rfl
    exact ⟨h.registered, h.schedMode, h.tid⟩

theorem added_continues (grp : SchedGrpCtx) (tid cpuid pid : ℕ) :
    Continues grp (added grp tid cpuid pid) := by
  refine ⟨fun t ht => ?_, fun _ => rfl, fun h t ht => ?_⟩
  · rw [registered_added, ht, ite_self]
  · rw [registered_added] at ht
    rcases eq_or_ne t tid with rfl | hne
    · simp [added]
    · rw [if_neg hne] at ht
      simpa [added, Function.update_of_ne hne] using h t ht

theorem schedThreadUpdate_continues (grp : SchedGrpCtx) (tid cpuid pid : ℕ) (swapout : Bool) :
    Continues grp (schedThreadUpdate grp tid cpuid pid swapout).2 := by
  dsimp only [schedThreadUpdate]
  split
  · exact .refl grp
  · have hwaiting : Continues grp
        (setThreadCtx grp tid { grp.threadCtx tid with waitFlag := !swapout }) :=
      setThreadCtx_continues rfl rfl
    split
    · exact hwaiting.trans (schedThreadStatusCheck_continues _ _ _)
    · split
      · next e grp' hadd =>
          obtain ⟨-, rfl⟩ | ⟨hok, -, -⟩ := schedGrpAddThread_cases hadd
          · exact hwaiting.trans (setThreadCtx_continues rfl rfl)
          · cases hok
      · next grp' hadd =>
          obtain ⟨herr, -⟩ | ⟨-, rfl, -⟩ := schedGrpAddThread_cases hadd
          · cases herr
          · exact (hwaiting.trans (added_continues _ _ _ _)).trans
              (schedThreadStatusCheck_continues _ _ _)

theorem schedWaitEvent_continues (grp : SchedGrpCtx) (tid : ℕ) (cpu : Option ℕ) (pid : ℕ)
    (swapout : Bool) : Continues grp (schedWaitEvent grp tid cpu pid swapout).2 := by
  unfold schedWaitEvent
  split
  · exact .refl grp
  · split
    · exact .refl grp
    · split
      · exact .refl grp
      · exact schedThreadUpdate_continues grp tid 0 pid swapout
  · split
    · exact .refl grp
    · split
      · exact .refl grp
      · exact schedThreadUpdate_continues grp tid _ pid swapout

theorem schedThreadSubscribeEventCfg_continues (grp : SchedGrpCtx) (tid : ℕ)
    (bitmap : BitVec 64) : Continues grp (schedThreadSubscribeEventCfg grp tid bitmap) := by
  have hid (t : ℕ) : ((schedThreadSubscribeEventCfg grp tid bitmap).threadCtx t).tid =
      (grp.threadCtx t).tid := by
    rcases eq_or_ne t tid with rfl | hne
    · dsimp only [schedThreadSubscribeEventCfg]
      split <;> simp [schedAdjustThreadEvent]
    · dsimp only [schedThreadSubscribeEventCfg]
      split <;> simp [schedAdjustThreadEvent, setThreadCtx_of_ne _ _ hne]
  refine ⟨fun t ht => (registered_subscribe grp tid bitmap t).trans ht, fun _ => ?_,
    fun h t ht => ?_⟩
  · dsimp only [schedThreadSubscribeEventCfg]
    split <;> rfl
  · rw [hid]
    exact h t ((registered_subscribe grp tid bitmap t).symm.trans ht)

theorem schedProcAddGrp_continues (h : GrpMapInv grp) (mode : GroupType) (threadNum : ℕ)
    (alloc : Bool) : Continues grp (schedProcAddGrp grp mode threadNum alloc).2 := by
  unfold schedProcAddGrp
  split
  · exact .refl grp
  · split
    · exact .refl grp
    · next huninit =>
        split
        · exact .refl grp
        · have hnone := (h.uninit (not_not.mp huninit)).2.1
          refine ⟨fun t ht => ?_, fun hinit => absurd (not_not.mp huninit) hinit,
            fun _ t ht => ?_⟩
          · rw [hnone] at ht
            cases ht
          · cases ht

theorem grpStep_continues {op : GrpOp} (h : GrpMapInv grp) (hstep : grpStep grp op = some grp') :
    Continues grp grp' := by
  cases op with
  | addGrp mode threadNum alloc =>
      obtain rfl := Option.some.inj hstep
      exact schedProcAddGrp_continues h mode threadNum alloc
  | subscribe tid bitmap =>
      obtain rfl := Option.some.inj hstep
      unfold schedThreadSubscribeEvent
      split
      · exact .refl grp
      · split
        · exact .refl grp
        · split
          · exact .refl grp
          · exact schedThreadSubscribeEventCfg_continues grp tid bitmap
  | wait tid cpuid pid swapout =>
      obtain rfl := Option.some.inj hstep
      exact schedWaitEvent_continues grp tid cpuid pid swapout
  | waitReturn tid status =>
      simp only [grpStep, Option.ite_none_right_eq_some, Option.some.injEq] at hstep
      obtain ⟨-, rfl⟩ := hstep
      exact setThreadCtx_continues rfl rfl
  | timeout tid timestamp =>
      simp only [grpStep, Option.ite_none_right_eq_some, Option.some.injEq] at hstep
      obtain ⟨-, rfl⟩ := hstep
      dsimp only [schedCheckThreadTimeout]
      split
      · exact .refl grp
      · have hset : Continues grp (setThreadCtx grp tid { grp.threadCtx tid with
            timeoutDetected := true, timeoutFlag := true, status := .idle }) :=
          setThreadCtx_continues rfl rfl
        exact ⟨hset.registered, hset.schedMode, hset.tid⟩

/-- The context of a registered thread has the id of the thread. -/
theorem tid_of_reach (h : grpMachine.Reach grp) {t : ℕ} (ht : registered grp t = true) :
    (grp.threadCtx t).tid = t := by
  have hall : GrpMapInv grp ∧ ∀ t, registered grp t = true → (grp.threadCtx t).tid = t := by
    apply h.invariant
    · rintro grp rfl
      exact ⟨zeroGrpCtx_mapInv, fun t ht => by cases ht⟩
    · rintro grp op grp' ⟨hinv, htid⟩ - hstep
      exact ⟨grpStep_inv hinv hstep, (grpStep_continues hinv hstep).tid htid⟩
  exact hall.2 t ht

end Continues

/-- An array of different thread ids fits into the memory of the group. -/
theorem length_le_of_tid_lt {l : List ℕ} {n : ℕ} (hl : l.Nodup) (hlt : ∀ t ∈ l, t < n) :
    l.length ≤ n := by
  calc
    l.length ≤ (List.range n).length :=
      (List.subperm_of_subset hl fun t ht => List.mem_range.mpr (hlt t ht)).length_le
    _ = n := List.length_range

/-- The maps list the registered subscribers once, the threads fit into the
group, and a cpu of a scheduled group and its thread know each other. -/
theorem grp_maps_consistent {grp : SchedGrpCtx} (h : grpMachine.Reach grp) :
    (∀ e, (grp.eventThreadMap e).Nodup ∧ ∀ t, t ∈ grp.eventThreadMap e ↔
      t ∈ grp.thread ∧ (grp.threadCtx t).subscribeEventBitmap.getLsbD e = true) ∧
    grp.thread.Nodup ∧ grp.thread.length ≤ grp.cfgThreadNum ∧
    (∀ e, (grp.eventThreadMap e).length ≤ grp.cfgThreadNum) ∧
    (grp.schedMode = .schedCpu →
      (∀ t ∈ grp.thread, grp.cpuidToTid (grp.threadCtx t).bindCpuid = t) ∧
      ∀ c, grp.cpuidToTid c = grp.cfgThreadNum ∨
        grp.cpuidToTid c ∈ grp.thread ∧
          (grp.threadCtx (grp.cpuidToTid c)).bindCpuid = c) := by
  have hinv := grpMapInv_of_reach h
  have hlt {t : ℕ} (ht : t ∈ grp.thread) : t < grp.cfgThreadNum :=
    hinv.tid_lt t ((hinv.thread_iff t).mp ht)
  have hmap (e t : ℕ) : t ∈ grp.eventThreadMap e ↔ t ∈ grp.thread ∧
      (grp.threadCtx t).subscribeEventBitmap.getLsbD e = true := by
    rw [hinv.map_iff, hinv.thread_iff]
    rfl
  refine ⟨fun e => ⟨hinv.map_nodup e, hmap e⟩, hinv.thread_nodup,
    length_le_of_tid_lt hinv.thread_nodup fun t ht => hlt ht, fun e => ?_, fun hmode => ⟨?_, ?_⟩⟩
  · exact length_le_of_tid_lt (hinv.map_nodup e) fun t ht => hlt ((hmap e t).mp ht).1
  · intro t ht
    exact (hinv.bound_iff hmode _ t ((hinv.thread_iff t).mp ht)).mpr rfl
  · intro c
    refine (hinv.bound hmode c).imp_right fun hreg => ⟨(hinv.thread_iff _).mpr hreg, ?_⟩
    exact (hinv.bound_iff hmode c _ hreg).mp rfl

/-- Two threads join a scheduled group and change their subscriptions. -/
def grpRun : List GrpOp :=
  [.addGrp .bindDpCpu 2 true, .subscribe 0 3, .wait 0 (some 1) 100 false,
    .wait 1 (some 2) 101 false, .subscribe 1 1, .subscribe 0 2]

theorem grp_maps_consistent_two_threads :
    let grp := grpMachine.final zeroGrpCtx grpRun
    grp.eventThreadMap 0 = [1] ∧ grp.eventThreadMap 1 = [0] ∧
      grp.thread.length ≤ grp.cfgThreadNum ∧
      ∀ t, t ∈ grp.eventThreadMap 0 ↔
        t ∈ grp.thread ∧ (grp.threadCtx t).subscribeEventBitmap.getLsbD 0 = true := by
  have hreach : grpMachine.Reach (grpMachine.final zeroGrpCtx grpRun) :=
    Machine.Reach.final (.start rfl) (by decide +kernel)
  have h := grp_maps_consistent hreach
  exact ⟨by decide +kernel, by decide +kernel, h.2.2.1, (h.1 0).2⟩

end OpiaiKernel.Esched
